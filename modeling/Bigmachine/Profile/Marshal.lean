import Bigmachine.Io.Sink
import Bigmachine.Machine.State
import Bigmachine.Rpc.Wire
import Mathlib.Data.List.Sort
import Mathlib.Data.String.Basic

/-!
# Aggregated profiles

`profiler.Marshal` collects a profile from every running machine into a file-backed buffer and
then writes them to a sink: for debug output one after the other, under the addresses of the
machines, and otherwise merged into one profile. Any of the steps can fail, and the buffers are
closed in three places: in each of the two loops, which set the entry of a closed buffer to nil,
and in a deferred sweep over what is left. Each buffer is closed once all the same (`Owes`), and
no loop comes to an entry that is nil (`marshalAll_ne_nilBuffer`).

The package pprof is a parameter: what `Parse`, `Merge` and `Write` do.
-/

namespace Bigmachine

open Errors Io Rpc

/-! ## File-backed buffers -/

namespace Filebuf

/-- What reading a file with these contents can give: all of them, in pieces of any size, unless a
read fails. -/
abbrev Reads (contents : Bytes) := { file : Stream // file.err = .eof → file.items = contents }

structure FileBuf where
  contents : Bytes
  file : Reads contents

/-- What the calls of `New` return. -/
structure Outcomes where
  tempFile : Option Err := none
  write : Nat → Option (Nat × Err) := fun _ => none
  seek : Option Err := none
  reads : (contents : Bytes) → Reads contents

def new (P : Package) (o : Outcomes) (r : Stream) : Except Err FileBuf :=
  match o.tempFile with
  | some err => .error (P.E [.text "error opening temp file for filebuf", .err err])
  | none =>
    match ({ write := o.write } : Sink UInt8 Err).copy .eof r with
    | (_, some err) => .error (P.E [.text "error reading into filebuf", .err err])
    | (file, none) =>
      match o.seek with
      | some err => .error (P.E [.text "error seeking in filebuf", .err err])
      | none => .ok ⟨file.out, o.reads file.out⟩

/-- A buffer holds all of what it was made from. -/
theorem new_contents {P : Package} {o : Outcomes} {r : Stream} {b : FileBuf}
    (h : new P o r = .ok b) : r.err = .eof ∧ b.contents = r.items := by
  have hcopy := @Sink.copy_ok _ _ _ .eof ({ write := o.write } : Sink UInt8 Err) r
  unfold new at h
  split at h
  · cases h
  · split at h
    · cases h
    · rename_i file hfile
      obtain ⟨heof, hout, -⟩ := hcopy (by rw [hfile])
      rw [hfile] at hout
      split at h
      · cases h
      · cases h
        exact ⟨heof, hout⟩

end Filebuf

namespace Profile

open Filebuf

/-! ## The profiler -/

structure Profiler where
  which : String
  addr : String := ""
  sec : Int64 := 0
  debug : Int := 0
  gc : Bool := false

/-- The call that `getProfile` makes on a machine. -/
inductive Request
  | cpuProfile (duration : Int64)
  | profile (which : String) (debug : Int) (gc : Bool)
  deriving DecidableEq, Repr

def Profiler.getProfile (p : Profiler) : Request :=
  if p.which = "profile" then .cpuProfile (p.sec * 1000000000)
  else .profile p.which p.debug p.gc

def textPlain : String := "text/plain; charset=utf-8"

def octetStream : String := "application/octet-stream"

def Profiler.contentType (p : Profiler) : String :=
  if p.debug > 0 ∧ p.which ≠ "profile" then textPlain else octetStream

/-- What `Marshal` sees of a machine. -/
structure Target where
  addr : String
  state : State
  call : Request → Except Err Stream
  close : Option Err := none -- `Close` of the stream
  buffering : Outcomes

/-- What `Marshal` uses, for profiles of type `Prof`. The map of the machines has their addresses
as keys, so these are different. -/
structure Env (Prof : Type) where
  errors : Package
  dial : String → Except Err Target
  machines : List Target
  nodup : (machines.map (·.addr)).Nodup
  visit : List String → List String -- the order in which `range profiles` goes
  visit_perm : ∀ keys, (visit keys).Perm keys
  parse : Bytes → Except Err Prof
  merge : List Prof → Except Err Prof
  write : Prof → Sink UInt8 Err → Sink UInt8 Err × Option Err

/-- `noProfiles` is `errNoProfiles`, and `nilBuffer` the panic of reading from nil. -/
inductive Failure
  | noProfiles (text : String)
  | failed (text : String)
  | closing (err : Err)
  | nilBuffer
  deriving DecidableEq

/-- What `Marshal` has written when it succeeds. -/
inductive Format (Prof : Type)
  | concatenated
  | merged (prof : Prof)

/-! ## One machine -/

variable {Prof : Type}

/-- `Marshal` for a given machine. -/
def Profiler.marshalOne (p : Profiler) (env : Env Prof) (w : Sink UInt8 Err) :
    Sink UInt8 Err × Option Failure :=
  match env.dial p.addr with
  | .error err => (w, some (.failed ("failed to dial machine: " ++ env.errors.errorText err)))
  | .ok m =>
    match m.call p.getProfile with
    | .error err =>
      (w, some (.failed
        ("failed to collect " ++ p.which ++ " profile: " ++ env.errors.errorText err)))
    | .ok rc =>
      match w.copy .eof rc with
      | (w, some err) =>
        (w, some (.failed
          ("failed to write " ++ p.which ++ " profile: " ++ env.errors.errorText err)))
      | (w, none) => (w, m.close.map .closing)

/-- A successful call has written all of what the machine has sent. -/
theorem marshalOne_ok {p : Profiler} {env : Env Prof} {w : Sink UInt8 Err}
    (h : (p.marshalOne env w).2 = none) :
    ∃ m rc, env.dial p.addr = .ok m ∧ m.call p.getProfile = .ok rc ∧ rc.err = .eof ∧
      (p.marshalOne env w).1.out = w.out ++ rc.items := by
  unfold Profiler.marshalOne at h ⊢
  split at h
  · cases h
  · rename_i m hm
    split at h
    · cases h
    · rename_i rc hrc
      have hcopy := @Sink.copy_ok _ _ _ .eof w rc
      split at h
      · cases h
      · rename_i w' heq
        rw [heq] at hcopy
        obtain ⟨heof, hout, -⟩ := hcopy rfl
        exact ⟨m, rc, hm, hrc, heof, hout⟩

/-! ## All machines -/

/-- The goroutine of a machine: the buffer that it adds to `profiles`, if any. Errors are only
logged. -/
def Profiler.collect (p : Profiler) (P : Package) (m : Target) : Option FileBuf :=
  if m.state ≠ .running then none
  else
    match m.call p.getProfile with
    | .error _ => none
    | .ok rc => (Filebuf.new P m.buffering rc).toOption

/-- The profiles that were collected, with the addresses of their machines. -/
def Profiler.collected (p : Profiler) (env : Env Prof) : List (String × FileBuf) :=
  env.machines.filterMap fun m => (p.collect env.errors m).map (m.addr, ·)

/-- The variables of `Marshal`. An entry of `profiles` that is nil is `none`, like one that is not
there; `closed` lists the calls of `Close`. -/
structure Aggregation where
  w : Sink UInt8 Err
  keys : List String
  profiles : String → Option FileBuf
  closed : List String := []

/-- Close the buffer of a machine and set its entry to nil. -/
def Aggregation.close (s : Aggregation) (addr : String) : Aggregation :=
  { s with closed := s.closed ++ [addr], profiles := Function.update s.profiles addr none }

theorem Aggregation.close_profiles_of_ne (s : Aggregation) {addr a : String} (h : a ≠ addr) :
    (s.close addr).profiles a = s.profiles a :=
  Function.update_of_ne h _ _

def Profiler.start (p : Profiler) (env : Env Prof) (w : Sink UInt8 Err) : Aggregation where
  w := w
  keys := (p.collected env).map (·.1)
  profiles addr := (p.collected env).lookup addr

def utf8 (s : String) : Bytes := s.toUTF8.data.toList

def header (addr : String) : Bytes := utf8 (addr ++ ":\n")

def newline : Bytes := utf8 "\n"

/-- The loop of the debug output, over the sorted machines. -/
def appendAll (P : Package) : List Target → Aggregation → Aggregation × Option Failure
  | [], s => (s, none)
  | m :: ms, s =>
    match s.profiles m.addr with
    | none => appendAll P ms s
    | some prof =>
      -- the errors of `Fprintf` and `Fprintln` are not looked at
      match (s.w.put (header m.addr)).1.copy .eof prof.file.1 with
      | (w, some err) =>
        ({ s.close m.addr with w := w }, some (.failed
          ("failed to append profile from " ++ m.addr ++ ": " ++ P.errorText err)))
      | (w, none) => appendAll P ms { s.close m.addr with w := (w.put newline).1 }

/-- `profile.Parse` of a buffer. -/
def Env.parseBuffer (env : Env Prof) (b : FileBuf) : Except Err Prof :=
  match b.file.1.copy .eof with
  | (_, some err) => .error err
  | (data, none) => env.parse data

/-- The loop over `profiles`. -/
def parseAll (env : Env Prof) :
    List String → List Prof → Aggregation → Aggregation × Except Failure (List Prof)
  | [], parsed, s => (s, .ok parsed)
  | addr :: addrs, parsed, s =>
    match s.profiles addr with
    | none => (s, .error .nilBuffer)
    | some rc =>
      match env.parseBuffer rc with
      | .error err =>
        (s.close addr, .error (.failed
          ("failed to parse profile from " ++ addr ++ ": " ++ env.errors.errorText err)))
      | .ok prof => parseAll env addrs (parsed ++ [prof]) (s.close addr)

/-- `machines[i].Addr < machines[j].Addr`, or the addresses are the same. -/
def byAddr (m m' : Target) : Prop := m.addr ≤ m'.addr

instance : DecidableRel byAddr := fun m m' => inferInstanceAs (Decidable (m.addr ≤ m'.addr))

instance : Std.Total byAddr := ⟨fun m m' => le_total m.addr m'.addr⟩

instance : IsTrans Target byAddr :=
  ⟨fun m m' m'' (h : m.addr ≤ m'.addr) (h' : m'.addr ≤ m''.addr) => le_trans h h'⟩

/-- `Marshal` for all machines, before its deferred function. Every goroutine returns nil, and so
does `g.Wait()`. -/
def Profiler.aggregate (p : Profiler) (env : Env Prof) (w : Sink UInt8 Err) :
    Aggregation × Except Failure (Format Prof) :=
  let s := p.start env w
  if s.keys = [] then (s, .error (.noProfiles "no profiles are available at this time"))
  else if p.debug > 0 ∧ p.which ≠ "profiles" then
    match appendAll env.errors (env.machines.insertionSort byAddr) s with
    | (s, some e) => (s, .error e)
    | (s, none) => (s, .ok .concatenated)
  else
    match parseAll env (env.visit s.keys) [] s with
    | (s, .error e) => (s, .error e)
    | (s, .ok parsed) =>
      match env.merge parsed with
      | .error err => (s, .error (.failed ("profile merge error: " ++ env.errors.errorText err)))
      | .ok prof =>
        match env.write prof s.w with
        | (w, some err) =>
          ({ s with w := w },
            .error (.failed ("failed to write profile: " ++ env.errors.errorText err)))
        | (w, none) => ({ s with w := w }, .ok (.merged prof))

/-- The deferred function closes the buffers that are left. -/
def Aggregation.sweep (s : Aggregation) (order : List String) : Aggregation :=
  { s with closed := s.closed ++ order.filter fun addr => (s.profiles addr).isSome }

def Profiler.marshalAll (p : Profiler) (env : Env Prof) (w : Sink UInt8 Err) :
    Aggregation × Except Failure (Format Prof) :=
  let r := p.aggregate env w
  (r.1.sweep (env.visit r.1.keys), r.2)

/-- `Marshal`. -/
def Profiler.marshal (p : Profiler) (env : Env Prof) (w : Sink UInt8 Err) :
    Sink UInt8 Err × Option Failure :=
  if p.addr ≠ "" then p.marshalOne env w
  else
    match p.marshalAll env w with
    | (s, .ok _) => (s.w, none)
    | (s, .error e) => (s.w, some e)

/-! ## The collected profiles -/

theorem collected_keys (p : Profiler) (env : Env Prof) :
    (p.collected env).map (·.1) =
      (env.machines.filter fun m => (p.collect env.errors m).isSome).map (·.addr) := by
  unfold Profiler.collected
  induction env.machines with
  | nil => rfl
  | cons m ms ih => cases hm : p.collect env.errors m <;> simp [hm, ih]

theorem collected_keys_nodup (p : Profiler) (env : Env Prof) :
    ((p.collected env).map (·.1)).Nodup := by
  rw [collected_keys]
  exact env.nodup.sublist (List.filter_sublist.map _)

theorem addr_ne {m x : Target} {ms : List Target} (hx : x.addr ∉ ms.map (·.addr))
    (hm : m ∈ ms) :
    m.addr ≠ x.addr := by
  intro h
  exact hx (List.mem_map.mpr ⟨m, hm, h⟩)

/-- The buffer of a machine is found under its address. -/
theorem lookup_collected (collect : Target → Option FileBuf) {ms : List Target}
    (hms : (ms.map (·.addr)).Nodup) {m : Target} (hm : m ∈ ms) :
    (ms.filterMap fun m => (collect m).map (m.addr, ·)).lookup m.addr = collect m := by
  induction ms with
  | nil => cases hm
  | cons x ms ih =>
    obtain ⟨hx, hms⟩ := List.nodup_cons.mp hms
    rcases List.mem_cons.mp hm with rfl | hm
    · cases hc : collect m with
      | some b => simp [hc]
      | none =>
        rw [List.filterMap_cons_none (by simp [hc]), List.lookup_eq_none_iff]
        intro q hq
        obtain ⟨y, hy, hyq⟩ := List.mem_filterMap.mp hq
        obtain ⟨b, -, rfl⟩ := Option.map_eq_some_iff.mp hyq
        simpa using (addr_ne hx hy).symm
    · cases hc : collect x with
      | none => rw [List.filterMap_cons_none (by simp [hc]), ih hms hm]
      | some b =>
        rw [List.filterMap_cons_some (by rw [hc]; rfl), List.lookup_cons,
          beq_false_of_ne (addr_ne hx hm)]
        exact ih hms hm

/-- A collected profile is all of what a running machine has sent. -/
theorem collect_contents {p : Profiler} {P : Package} {m : Target} {b : FileBuf}
    (h : p.collect P m = some b) : m.state = .running ∧
      ∃ rc, m.call p.getProfile = .ok rc ∧ rc.err = .eof ∧ b.contents = rc.items := by
  unfold Profiler.collect at h
  split at h
  · cases h
  · rename_i hs
    split at h
    · cases h
    · rename_i rc hrc
      cases hb : Filebuf.new P m.buffering rc with
      | error e =>
        rw [hb] at h
        cases h
      | ok b' =>
        rw [hb] at h
        cases h
        obtain ⟨heof, hcontents⟩ := new_contents hb
        exact ⟨not_not.mp hs, rc, hrc, heof, hcontents⟩

/-! ## Every buffer is closed once -/

/-- Every collected buffer is still in `profiles`, or has been closed once. -/
structure Owes (addrs : List String) (s : Aggregation) : Prop where
  keys : s.keys = addrs
  once : ∀ addr, s.closed.count addr + (if (s.profiles addr).isSome then 1 else 0) =
    if addr ∈ addrs then 1 else 0

namespace Owes

theorem start (p : Profiler) (env : Env Prof) (w : Sink UInt8 Err) :
    Owes ((p.collected env).map (·.1)) (p.start env w) := by
  refine ⟨rfl, fun addr => ?_⟩
  have hmem : ((p.collected env).lookup addr).isSome ↔ addr ∈ (p.collected env).map (·.1) := by
    simp only [List.lookup_isSome_iff, List.mem_map, beq_iff_eq]
    simp only [eq_comm]
  simp only [Profiler.start, List.count_nil, Nat.zero_add, hmem]

theorem close {addrs : List String} {s : Aggregation} (h : Owes addrs s) {addr : String}
    (haddr : (s.profiles addr).isSome) (w : Sink UInt8 Err) :
    Owes addrs { s.close addr with w := w } := by
  refine ⟨h.keys, fun a => ?_⟩
  have ha := h.once a
  by_cases heq : a = addr
  · subst heq
    simpa [Aggregation.close, haddr] using ha
  · simpa [Aggregation.close, heq, Ne.symm heq] using ha

theorem with_w {addrs : List String} {s : Aggregation} (h : Owes addrs s) (w : Sink UInt8 Err) :
    Owes addrs { s with w := w } :=
  ⟨h.keys, h.once⟩

theorem appendAll (P : Package) (ms : List Target) {addrs : List String} {s : Aggregation}
    (h : Owes addrs s) : Owes addrs (appendAll P ms s).1 := by
  induction ms generalizing s with
  | nil => exact h
  | cons m ms ih =>
    unfold Profile.appendAll
    cases hm : s.profiles m.addr with
    | none => exact ih h
    | some prof =>
      have hsome : (s.profiles m.addr).isSome := by rw [hm]; rfl
      dsimp only
      split
      · exact h.close hsome _
      · exact ih (h.close hsome _)

theorem parseAll (env : Env Prof) (order : List String) (parsed : List Prof)
    {addrs : List String} {s : Aggregation} (h : Owes addrs s) :
    Owes addrs (parseAll env order parsed s).1 := by
  induction order generalizing s parsed with
  | nil => exact h
  | cons a order ih =>
    unfold Profile.parseAll
    cases ha : s.profiles a with
    | none => exact h
    | some rc =>
      have hsome : (s.profiles a).isSome := by rw [ha]; rfl
      dsimp only
      split
      · exact h.close hsome s.w
      · exact ih _ (h.close hsome s.w)

theorem aggregate (p : Profiler) (env : Env Prof) (w : Sink UInt8 Err) :
    Owes ((p.collected env).map (·.1)) (p.aggregate env w).1 := by
  have hstart := Owes.start p env w
  unfold Profiler.aggregate
  dsimp only
  split
  · exact hstart
  · split
    · have happend := hstart.appendAll env.errors (env.machines.insertionSort byAddr)
      split <;> rename_i heq <;> rw [heq] at happend <;> exact happend
    · have hparse := hstart.parseAll env (env.visit (p.start env w).keys) []
      split
      · rename_i heq
        rw [heq] at hparse
        exact hparse
      · rename_i heq
        rw [heq] at hparse
        split
        · exact hparse
        · split <;> exact hparse.with_w _

/-- The sweep closes what is left. -/
theorem sweep {addrs : List String} {s : Aggregation} (h : Owes addrs s) (hnodup : addrs.Nodup)
    {order : List String} (horder : order.Perm s.keys) (addr : String) :
    (s.sweep order).closed.count addr = if addr ∈ addrs then 1 else 0 := by
  have honce := h.once addr
  have hcount : order.count addr = if addr ∈ addrs then 1 else 0 := by
    rw [horder.count_eq, h.keys, hnodup.count]
  rw [Aggregation.sweep, List.count_append]
  cases hs : (s.profiles addr).isSome with
  | true =>
    have hclosed : s.closed.count addr = 0 := by
      rw [if_pos hs] at honce
      split at honce <;> omega
    have hleft : (order.filter fun addr => (s.profiles addr).isSome).count addr =
        order.count addr := List.count_filter hs
    rw [hleft, hclosed, hcount, Nat.zero_add]
  | false =>
    have hleft : (order.filter fun addr => (s.profiles addr).isSome).count addr = 0 :=
      List.count_eq_zero.mpr fun hmem => by simp [hs] at hmem
    rw [hleft]
    simpa [hs] using honce

end Owes

/-! ## No entry that is nil -/

/-- The loop over `profiles` does not come to an entry that is nil. -/
theorem parseAll_ne_nilBuffer (env : Env Prof) {order : List String} (horder : order.Nodup)
    (parsed : List Prof) {s : Aggregation} (hs : ∀ a ∈ order, (s.profiles a).isSome) :
    (parseAll env order parsed s).2 ≠ .error .nilBuffer := by
  induction order generalizing parsed s with
  | nil => simp [parseAll]
  | cons a order ih =>
    obtain ⟨ha, horder⟩ := List.nodup_cons.mp horder
    obtain ⟨rc, hrc⟩ := Option.isSome_iff_exists.mp (hs a (List.mem_cons_self ..))
    unfold parseAll
    rw [hrc]
    dsimp only
    split
    · simp
    · refine ih horder _ fun x hx => ?_
      have hne : x ≠ a := fun h => ha (h ▸ hx)
      rw [s.close_profiles_of_ne hne]
      exact hs x (List.mem_cons_of_mem _ hx)

theorem appendAll_ne_nilBuffer (P : Package) (ms : List Target) (s : Aggregation) :
    (appendAll P ms s).2 ≠ some .nilBuffer := by
  induction ms generalizing s with
  | nil => simp [appendAll]
  | cons m ms ih =>
    unfold appendAll
    cases s.profiles m.addr with
    | none => exact ih s
    | some prof =>
      dsimp only
      split
      · simp
      · exact ih _

/-- `Marshal` does not read from nil. -/
theorem marshalAll_ne_nilBuffer (p : Profiler) (env : Env Prof) (w : Sink UInt8 Err) :
    (p.marshalAll env w).2 ≠ .error .nilBuffer := by
  unfold Profiler.marshalAll Profiler.aggregate
  dsimp only
  split
  · simp
  · split
    · have happend := appendAll_ne_nilBuffer env.errors (env.machines.insertionSort byAddr)
        (p.start env w)
      split
      · rename_i heq
        rw [heq] at happend
        simpa using happend
      · simp
    · have hvisit := env.visit_perm (p.start env w).keys
      have hsome : ∀ a ∈ env.visit (p.start env w).keys, ((p.start env w).profiles a).isSome := by
        intro a ha
        obtain ⟨q, hq, rfl⟩ := List.mem_map.mp (hvisit.mem_iff.mp ha)
        exact List.lookup_isSome_iff.mpr ⟨q, hq, beq_self_eq_true _⟩
      have hparse := parseAll_ne_nilBuffer env
        (hvisit.nodup_iff.mpr (collected_keys_nodup p env)) [] hsome
      split
      · rename_i heq
        rw [heq] at hparse
        simpa using hparse
      · split
        · simp
        · split <;> simp

end Profile

end Bigmachine
