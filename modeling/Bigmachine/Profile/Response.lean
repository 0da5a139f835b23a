import Bigmachine.Profile.Output

/-!
# The response to a request for a profile

`profileHandler.ServeHTTP` lets `Marshal` write to the response itself. The first write sends the
header with the status 200, so an error that comes after it can only be appended to the body.

When the debug output of all machines was asked for, the address of a machine is written before its
profile is read: a failure never shows in the status (`response_status`). The status is 404 exactly
when no profile was collected, and with any status other than 200 the body has the text of the error
and nothing of a profile. A request for the profile of one machine that succeeds gets all of it.
-/

namespace Bigmachine.Profile

open Errors Io Rpc

variable {Prof : Type}

/-! ## The handler -/

/-- The form of a request. -/
structure Form where
  seconds : String := ""
  debug : String := ""
  gc : String := ""
  machine : String := ""

/-- What `ServeHTTP` makes of a form. `parse` is the number that `ParseInt` and `Atoi` return,
also with an error. -/
def Form.profiler (f : Form) (parse : String → Int64) (which : String) : Profiler where
  which := which
  addr := f.machine
  sec := parse f.seconds
  debug := (parse f.debug).toInt
  gc := decide (0 < (parse f.gc).toInt)

/-- The header of a response. -/
structure Header where
  contentType : String
  goPprof : Bool := false -- "X-Go-Pprof"
  deriving DecidableEq, Repr

structure Reply where
  status : Nat
  header : Header
  body : Bytes
  deriving DecidableEq, Repr

def statusOK : Nat := 200

def statusNotFound : Nat := 404

def statusInternalServerError : Nat := 500

/-- `err.Error()`; for a panic, which does not happen, nothing. -/
def Failure.text (P : Package) : Failure → String
  | .noProfiles text | .failed text => text
  | .closing err => P.errorText err
  | .nilBuffer => ""

def Failure.code : Failure → Nat
  | .noProfiles _ => statusNotFound
  | _ => statusInternalServerError

theorem Failure.code_ne_statusOK (e : Failure) : e.code ≠ statusOK := by
  cases e <;> simp [Failure.code, statusOK, statusNotFound, statusInternalServerError]

/-- `profileErrorf`, after Marshal has made `w` of the body. `format` is `Fprintf` without
arguments. -/
def profileErrorf (format : String → Bytes) (sent : Option Header) (w : Sink UInt8 Err)
    (code : Nat) (message : String) : Reply :=
  let body := (w.put (format message)).1.out
  match sent with
  | some header => ⟨statusOK, header, body⟩ -- the header is on its way already
  | none => ⟨code, ⟨textPlain, true⟩, body⟩

/-- `ServeHTTP` after the form was read, with the connection `w`. -/
def Profiler.serveHTTP (p : Profiler) (env : Env Prof) (format : String → Bytes)
    (w : Sink UInt8 Err) : Reply :=
  let header : Header := { contentType := p.contentType }
  match p.marshal env w with
  | (w', none) => ⟨statusOK, header, w'.out⟩
  | (w', some e) =>
    profileErrorf format (if w'.calls = w.calls then none else some header) w' e.code
      (e.text env.errors)

/-- `ServeHTTP` of the handler for the profile `which`. -/
def profileHandler (env : Env Prof) (format : String → Bytes) (parse : String → Int64)
    (which : String) (f : Form) (w : Sink UInt8 Err) : Reply :=
  (f.profiler parse which).serveHTTP env format w

/-! ## Writes -/

/-- The sink has changed only by writes. -/
def Grows (w w' : Sink UInt8 Err) : Prop :=
  w.calls ≤ w'.calls ∧ (w'.calls = w.calls → w'.out = w.out)

theorem Grows.refl (w : Sink UInt8 Err) : Grows w w := ⟨le_rfl, fun _ => rfl⟩

theorem Grows.trans {w w' w'' : Sink UInt8 Err} (h : Grows w w') (h' : Grows w' w'') :
    Grows w w'' := by
  obtain ⟨hle, hsame⟩ := h
  obtain ⟨hle', hsame'⟩ := h'
  exact ⟨hle.trans hle', fun heq => (hsame' (by omega)).trans (hsame (by omega))⟩

theorem Grows.put (w : Sink UInt8 Err) (xs : Bytes) : Grows w (w.put xs).1 := by
  have hcalls := w.put_calls xs
  exact ⟨by omega, fun heq => by omega⟩

theorem Grows.putAll (w : Sink UInt8 Err) (cs : List Bytes) : Grows w (w.putAll cs).1 := by
  induction cs generalizing w with
  | nil => exact .refl w
  | cons c cs ih =>
    cases c with
    | nil => exact ih w
    | cons b bs =>
      have hput := Grows.put w (b :: bs)
      simp only [Sink.putAll]
      generalize w.put (b :: bs) = r at hput ⊢
      obtain ⟨w', err⟩ := r
      cases err with
      | none => exact hput.trans (ih w')
      | some err => exact hput

theorem Grows.copy (w : Sink UInt8 Err) (r : Stream) : Grows w (w.copy .eof r).1 := by
  have hall := Grows.putAll w (r.chunks ++ [r.last])
  unfold Sink.copy
  generalize w.putAll (r.chunks ++ [r.last]) = q at hall ⊢
  obtain ⟨w', err⟩ := q
  cases err <;> exact hall

/-! ## `Marshal` -/

theorem marshalOne_grows (p : Profiler) (env : Env Prof) (w : Sink UInt8 Err) :
    Grows w (p.marshalOne env w).1 := by
  unfold Profiler.marshalOne
  split
  · exact .refl w
  · split
    · exact .refl w
    · rename_i rc hrc
      have hcopy := Grows.copy w rc
      split <;> simpa [*] using hcopy

/-- The loop of the debug output fails only after a write. -/
theorem appendAll_grows (P : Package) (ms : List Target) (s : Aggregation) :
    Grows s.w (appendAll P ms s).1.w ∧
      ((appendAll P ms s).2 ≠ none → s.w.calls < (appendAll P ms s).1.w.calls) := by
  induction ms generalizing s with
  | nil => exact ⟨.refl _, fun h => absurd rfl h⟩
  | cons m ms ih =>
    unfold appendAll
    cases hprof : s.profiles m.addr with
    | none => exact ih s
    | some prof =>
      dsimp only
      have hheader := Grows.put s.w (header m.addr)
      have hcalls := s.w.put_calls (header m.addr)
      have hcopy := Grows.copy (s.w.put (header m.addr)).1 prof.file.1
      split
      · rename_i w err heq
        rw [heq] at hcopy
        refine ⟨hheader.trans hcopy, fun _ => ?_⟩
        have hle := hcopy.1
        dsimp only at hle ⊢
        omega
      · rename_i w heq
        rw [heq] at hcopy
        have hnewline := (hheader.trans hcopy).trans (Grows.put w newline)
        obtain ⟨hrest, hfail⟩ := ih { s.close m.addr with w := (w.put newline).1 }
        exact ⟨hnewline.trans hrest, fun h => lt_of_le_of_lt hnewline.1 (hfail h)⟩

theorem parseAll_w (env : Env Prof) (order : List String) (parsed : List Prof) (s : Aggregation) :
    (parseAll env order parsed s).1.w = s.w := by
  induction order generalizing parsed s with
  | nil => rfl
  | cons a order ih =>
    unfold parseAll
    split
    · rfl
    · split
      · rfl
      · exact ih _ _

theorem appendAll_code {P : Package} {ms : List Target} {s : Aggregation} {e : Failure}
    (h : (appendAll P ms s).2 = some e) : e.code = statusInternalServerError := by
  induction ms generalizing s with
  | nil => cases h
  | cons m ms ih =>
    unfold appendAll at h
    split at h
    · exact ih h
    · split at h
      · cases h
        rfl
      · exact ih h

theorem parseAll_code {env : Env Prof} {order : List String} {parsed : List Prof} {s : Aggregation}
    {e : Failure} (h : (parseAll env order parsed s).2 = .error e) :
    e.code = statusInternalServerError := by
  induction order generalizing parsed s with
  | nil => cases h
  | cons a order ih =>
    unfold parseAll at h
    split at h
    · cases h
      rfl
    · split at h
      · cases h
        rfl
      · exact ih h

/-- pprof's `Write` does nothing but write. -/
def Env.Writes (env : Env Prof) : Prop := ∀ prof w, Grows w (env.write prof w).1

/-- How `Marshal` for all machines fails. -/
theorem aggregate_error {p : Profiler} {env : Env Prof} (henv : env.Writes) {w : Sink UInt8 Err}
    {e : Failure} (h : (p.aggregate env w).2 = .error e) :
    (p.collected env = [] ∧ e.code = statusNotFound ∧ (p.aggregate env w).1.w = w) ∨
    (p.collected env ≠ [] ∧ e.code = statusInternalServerError ∧
      Grows w (p.aggregate env w).1.w ∧
      (p.debug > 0 ∧ p.which ≠ "profiles" → w.calls < (p.aggregate env w).1.w.calls)) := by
  unfold Profiler.aggregate at h ⊢
  dsimp only at h ⊢
  by_cases hkeys : (p.start env w).keys = []
  · rw [if_pos hkeys] at h ⊢
    cases h
    exact Or.inl ⟨List.map_eq_nil_iff.mp hkeys, rfl, rfl⟩
  · rw [if_neg hkeys] at h ⊢
    have hne : p.collected env ≠ [] := fun hnil => hkeys (by simp [Profiler.start, hnil])
    refine Or.inr ⟨hne, ?_⟩
    by_cases hdebug : p.debug > 0 ∧ p.which ≠ "profiles"
    · rw [if_pos hdebug] at h ⊢
      obtain ⟨hgrows, hfail⟩ := appendAll_grows env.errors (env.machines.insertionSort byAddr)
        (p.start env w)
      have hcode := @appendAll_code env.errors (env.machines.insertionSort byAddr) (p.start env w)
      generalize appendAll env.errors (env.machines.insertionSort byAddr) (p.start env w) = r
        at h hgrows hfail hcode ⊢
      obtain ⟨s, err⟩ := r
      cases err with
      | none => cases h
      | some e' =>
        cases h
        exact ⟨hcode rfl, hgrows, fun _ => hfail (by simp)⟩
    · rw [if_neg hdebug] at h ⊢
      have hw := parseAll_w env (env.visit (p.start env w).keys) [] (p.start env w)
      have hcode := @parseAll_code _ env (env.visit (p.start env w).keys) [] (p.start env w)
      generalize parseAll env (env.visit (p.start env w).keys) [] (p.start env w) = r
        at h hw hcode ⊢
      obtain ⟨s, parsed⟩ := r
      have hstart : s.w = w := hw
      have hnot : ∀ n, (p.debug > 0 ∧ p.which ≠ "profiles" → w.calls < n) :=
        fun _ hd => absurd hd hdebug
      cases parsed with
      | error e' =>
        cases h
        exact ⟨hcode rfl, hstart ▸ .refl _, hnot _⟩
      | ok parsed =>
        dsimp only at h ⊢
        cases hmerge : env.merge parsed with
        | error err =>
          rw [hmerge] at h
          cases h
          exact ⟨rfl, hstart ▸ .refl _, hnot _⟩
        | ok prof =>
          rw [hmerge] at h
          dsimp only at h ⊢
          have hwrite := henv prof s.w
          generalize env.write prof s.w = r at h hwrite ⊢
          obtain ⟨w', err⟩ := r
          cases err with
          | none => cases h
          | some err =>
            cases h
            exact ⟨rfl, hstart ▸ hwrite, hnot _⟩

theorem marshalOne_code {p : Profiler} {env : Env Prof} {w : Sink UInt8 Err} {e : Failure}
    (h : (p.marshalOne env w).2 = some e) : e.code = statusInternalServerError := by
  unfold Profiler.marshalOne at h
  split at h
  · cases h
    rfl
  · split at h
    · cases h
      rfl
    · split at h
      · cases h
        rfl
      · obtain ⟨err, -, rfl⟩ := Option.map_eq_some_iff.mp h
        rfl

/-! ## The status -/

/-- How `Marshal` fails. -/
structure Failed (p : Profiler) (env : Env Prof) (w w' : Sink UInt8 Err) (e : Failure) : Prop where
  grows : Grows w w'
  none : p.addr = "" → p.collected env = [] → e.code = statusNotFound ∧ w'.calls = w.calls
  some : p.addr ≠ "" ∨ p.collected env ≠ [] → e.code = statusInternalServerError
  debug : p.addr = "" → p.collected env ≠ [] → p.debug > 0 ∧ p.which ≠ "profiles" →
    w.calls < w'.calls

theorem marshal_failed {p : Profiler} {env : Env Prof} (henv : env.Writes) {w w' : Sink UInt8 Err}
    {e : Failure} (h : p.marshal env w = (w', some e)) : Failed p env w w' e := by
  unfold Profiler.marshal at h
  by_cases haddr : p.addr = ""
  · rw [if_neg (not_not.mpr haddr)] at h
    have herror := @aggregate_error _ p env henv w
    unfold Profiler.marshalAll at h
    generalize p.aggregate env w = r at h herror
    obtain ⟨s, result⟩ := r
    cases result with
    | ok f => cases h
    | error e' =>
      obtain ⟨rfl, he⟩ := Prod.mk.inj h
      cases he
      rcases herror rfl with ⟨hnil, hcode, hw⟩ | ⟨hne, hcode, hgrows, hdebug⟩
      · have hw' : (s.sweep (env.visit s.keys)).w = w := hw
        exact ⟨hw' ▸ .refl _, fun _ _ => ⟨hcode, by rw [hw']⟩,
          fun hor => (hor.elim (· haddr) (· hnil)).elim, fun _ hne => absurd hnil hne⟩
      · exact ⟨hgrows, fun _ hnil => absurd hnil hne, fun _ => hcode, fun _ _ => hdebug⟩
  · rw [if_pos haddr] at h
    have hgrows := marshalOne_grows p env w
    have hcode := @marshalOne_code _ p env w
    rw [h] at hgrows hcode
    exact ⟨hgrows, fun hempty => absurd hempty haddr, fun _ => hcode rfl,
      fun hempty => absurd hempty haddr⟩

/-- A call for all machines that succeeds has collected a profile. -/
theorem collected_ne_nil {p : Profiler} {env : Env Prof} (haddr : p.addr = "")
    {w w' : Sink UInt8 Err} (h : p.marshal env w = (w', none)) : p.collected env ≠ [] := by
  intro hnil
  have hkeys : (p.start env w).keys = [] := by simp [Profiler.start, hnil]
  simp [Profiler.marshal, haddr, Profiler.marshalAll, Profiler.aggregate, hkeys] at h

/-- `Marshal` does not read from nil. -/
theorem marshal_ne_nilBuffer (p : Profiler) (env : Env Prof) (w : Sink UInt8 Err) :
    (p.marshal env w).2 ≠ some .nilBuffer := by
  unfold Profiler.marshal
  split
  · unfold Profiler.marshalOne
    split
    · simp
    · split
      · simp
      · split
        · simp
        · simp [Option.map_eq_some_iff]
  · have hall := marshalAll_ne_nilBuffer p env w
    generalize p.marshalAll env w = r at hall ⊢
    obtain ⟨s, f | e⟩ := r
    · simpa using hall
    · simp

theorem put_out_of_nil {w : Sink UInt8 Err} (h : w.out = []) (xs : Bytes) :
    (w.put xs).1.out <+: xs := by
  unfold Sink.put
  split
  · simp [h]
  · rename_i n err _
    simpa [h] using List.take_prefix n xs

/-- After a failure before the first write the response is that of the error. -/
theorem serveHTTP_of_silent {p : Profiler} {env : Env Prof} {format : String → Bytes}
    {w w' : Sink UInt8 Err} {e : Failure} (h : p.marshal env w = (w', some e))
    (hcalls : w'.calls = w.calls) (hout : w'.out = []) :
    (p.serveHTTP env format w).status = e.code ∧
      (p.serveHTTP env format w).header = ⟨textPlain, true⟩ ∧
      (p.serveHTTP env format w).body <+: format (e.text env.errors) := by
  simp only [Profiler.serveHTTP, h, if_pos hcalls, profileErrorf]
  exact ⟨trivial, trivial, put_out_of_nil hout _⟩

/-- After a write the status does not tell of a failure. -/
theorem serveHTTP_of_written {p : Profiler} {env : Env Prof} {format : String → Bytes}
    {w w' : Sink UInt8 Err} {e : Failure} (h : p.marshal env w = (w', some e))
    (hcalls : w'.calls ≠ w.calls) : (p.serveHTTP env format w).status = statusOK := by
  simp only [Profiler.serveHTTP, h, if_neg hcalls, profileErrorf]

/-- The status of a failure before the first write. -/
theorem Failed.code_iff {p : Profiler} {env : Env Prof} {w w' : Sink UInt8 Err} {e : Failure}
    (h : Failed p env w w' e) :
    e.code = statusNotFound ↔ p.addr = "" ∧ p.collected env = [] := by
  by_cases hnone : p.addr = "" ∧ p.collected env = []
  · exact iff_of_true (h.none hnone.1 hnone.2).1 hnone
  · rw [h.some (not_and_or.mp hnone)]
    exact iff_of_false (by decide) hnone

/-- What `Marshal` for one machine has written when it succeeds. -/
theorem marshal_one_ok {p : Profiler} {env : Env Prof} {w w' : Sink UInt8 Err}
    (haddr : p.addr ≠ "") (h : p.marshal env w = (w', none)) :
    ∃ m rc, env.dial p.addr = .ok m ∧ m.call p.getProfile = .ok rc ∧ rc.err = .eof ∧
      w'.out = w.out ++ rc.items := by
  have hone : p.marshalOne env w = (w', none) := by rwa [Profiler.marshal, if_pos haddr] at h
  have hok := @marshalOne_ok _ p env w
  rw [hone] at hok
  exact hok rfl

/-- **The status of a response.** For all machines it is 404 exactly when no profile was collected,
and with debug output it is never 500; for one machine it is never 404, and when `Marshal` succeeds
the body is all of what the machine has sent. When `Marshal` fails, which it never does by a panic,
the status is 200 exactly when something was written before. With any other status the header is
that of an error and the body has nothing but the text of the error. -/
theorem response_status (env : Env Prof) (henv : env.Writes) (format : String → Bytes)
    (parse : String → Int64) (which : String) (f : Form) (write : Nat → Option (Nat × Err)) :
    let w : Sink UInt8 Err := { write := write }
    let p := f.profiler parse which
    let r := profileHandler env format parse which f w
    (p.addr = "" → (r.status = statusNotFound ↔ p.collected env = [])) ∧
    (p.addr = "" → p.debug > 0 ∧ p.which ≠ "profiles" → r.status ≠ statusInternalServerError) ∧
    (p.addr ≠ "" → r.status ≠ statusNotFound ∧
      ((p.marshal env w).2 = none → ∃ m rc, env.dial p.addr = .ok m ∧
        m.call p.getProfile = .ok rc ∧ rc.err = .eof ∧ r.body = rc.items)) ∧
    ∀ w' e, p.marshal env w = (w', some e) → e ≠ .nilBuffer ∧
      (r.status = statusOK ↔ w'.calls ≠ 0) ∧
      (r.status ≠ statusOK → r.status = e.code ∧ r.header = ⟨textPlain, true⟩ ∧
        r.body <+: format (e.text env.errors)) := by
  intro w p r
  cases hm : p.marshal env w with
  | mk w' result =>
    cases result with
    | none =>
      have hr : r = ⟨statusOK, { contentType := p.contentType }, w'.out⟩ := by
        simp [r, profileHandler, Profiler.serveHTTP, hm, p]
      have hstatus : r.status = statusOK := by rw [hr]
      refine ⟨fun haddr => ?_, fun _ _ => ?_, fun haddr => ⟨?_, fun _ => ?_⟩, by simp⟩
      · rw [hstatus]
        exact iff_of_false (by decide) (collected_ne_nil haddr hm)
      · rw [hstatus]
        decide
      · rw [hstatus]
        decide
      · rw [hr]
        exact marshal_one_ok haddr hm
    | some e =>
      have hfailed := marshal_failed henv hm
      have hpanic : e ≠ .nilBuffer := by
        have hne := marshal_ne_nilBuffer p env w
        rw [hm] at hne
        exact fun heq => hne (congrArg some heq)
      by_cases hcalls : w'.calls = 0
      · obtain ⟨hcode, hheader, hbody⟩ :
            r.status = e.code ∧ r.header = ⟨textPlain, true⟩ ∧
              r.body <+: format (e.text env.errors) :=
          serveHTTP_of_silent hm hcalls (hfailed.grows.2 hcalls)
        refine ⟨fun haddr => ?_, fun haddr hdebug => ?_, fun haddr => ⟨?_, by simp⟩, ?_⟩
        · rw [hcode, hfailed.code_iff]
          exact and_iff_right haddr
        · by_cases hnil : p.collected env = []
          · rw [hcode, hfailed.code_iff.mpr ⟨haddr, hnil⟩]
            decide
          · -- the debug loop fails only after a write
            exact absurd (hfailed.debug haddr hnil hdebug) (by omega)
        · rw [hcode, Ne, hfailed.code_iff]
          exact fun h => haddr h.1
        · rintro w'' e' heq
          cases heq
          exact ⟨hpanic, by simp [hcode, e.code_ne_statusOK, hcalls],
            fun _ => ⟨hcode, hheader, hbody⟩⟩
      · have hstatus : r.status = statusOK := serveHTTP_of_written hm hcalls
        refine ⟨fun haddr => ?_, fun _ _ => ?_, fun _ => ⟨?_, by simp⟩, ?_⟩
        · rw [hstatus]
          refine iff_of_false (by decide) fun hnil => ?_
          exact hcalls (hfailed.none haddr hnil).2
        · rw [hstatus]
          decide
        · rw [hstatus]
          decide
        · rintro w'' e' heq
          cases heq
          exact ⟨hpanic, iff_of_true hstatus hcalls, fun hne => absurd hstatus hne⟩

/-- The debug output of two machines, on a connection that breaks. -/
theorem response_status_two_machines :
    (profileHandler Reference.env utf8 (fun s => if s = "1" then 1 else 0) "heap" { debug := "1" }
        Reference.broken).status ≠ statusInternalServerError := by
  have henv : Reference.env.Writes := fun prof w => Grows.put w prof
  obtain ⟨-, hdebug, -, -⟩ := response_status Reference.env henv utf8
    (fun s => if s = "1" then 1 else 0) "heap" { debug := "1" } Reference.broken.write
  exact hdebug rfl ⟨by decide, by decide⟩

end Bigmachine.Profile
