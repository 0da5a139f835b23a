import Bigmachine.Rpc.Client
import Bigmachine.Transition.System

/-!
# Injected faults

For tests, the client puts a fault injector between the body of a response and whoever reads it: any
read may fail instead, or lose some of its last bytes and fail. The reader that `Call` hands out for
a stream is on top of that.

Such a fault is never silent (`faults_not_silent`): what is read is a front part of the stream; when
a read returns `io.EOF`, all of it was read, and the stream had ended regularly. After a fault, no
read returns anything else. The body is closed once, by the injector or by the caller.
-/

namespace Bigmachine.Rpc.Faults

open Errors Io Transition

/-! ## Reading a body -/

/-- What a read returns: the bytes, and an error or none. -/
abbrev Result := Bytes × Option Err

/-- The body of a response. `closes` counts the calls of its `Close`. -/
structure Body where
  rest : Stream
  closes : Nat := 0

def Body.read (b : Body) : Result × Body :=
  match b.rest.chunks with
  | c :: cs => ((c, none), { b with rest := { b.rest with chunks := cs } })
  | [] => ((b.rest.last, some b.rest.err), { b with rest := { b.rest with last := [] } })

/-! ## The injector -/

/-- What the random numbers of a read say. -/
inductive Draw
  | drop
  | truncate (nn : Nat)
  | pass
  deriving DecidableEq, Repr

/-- `rpcFaultInjector`; `failed` is its error once `in` is nil. -/
structure Injector where
  label : String
  body : Body
  failed : Option Err := none

namespace Injector

/-- `rpcFaultInjector.error`. -/
def error (r : Injector) (err : Err) : Injector :=
  { r with body := { r.body with closes := r.body.closes + 1 }, failed := some err }

def induced (P : Package) (r : Injector) (what : String) : Err :=
  P.E [.kind .net, .severity .retriable, .text (r.label ++ ": test-induced message " ++ what)]

def read (P : Package) (r : Injector) (d : Draw) : Result × Injector :=
  match r.failed with
  | some err => (([], some err), r)
  | none =>
    match d with
    | .drop => (([], some (r.induced P "drop")), r.error (r.induced P "drop"))
    | .truncate nn =>
      let got := r.body.read
      ((got.1.1.take nn, some (r.induced P "truncation")),
        { r with body := got.2 }.error (r.induced P "truncation"))
    | .pass =>
      let got := r.body.read
      (got.1, { r with body := got.2 })

def close (r : Injector) : Injector :=
  if r.failed.isSome then r else { r with body := { r.body with closes := r.body.closes + 1 } }

end Injector

/-- `streamReader.Read`, given what the body has returned. -/
def streamRead (trailer : String) (got : Result) : Result :=
  if got.2 = some .eof ∧ trailer ≠ "" then (got.1, some (.text trailer)) else got

/-! ## Whole streams -/

/-- `results` is what the caller has got from its reads. When the caller has closed the stream, it
does not go on. -/
structure World where
  injector : Injector
  results : List Result := []
  closed : Bool := false

inductive Action
  | read (d : Draw)
  | close
  deriving DecidableEq, Repr

def step (P : Package) (trailer : String) (w : World) : Action → Option World
  | .read d =>
    if w.closed then none
    else
      let got := w.injector.read P d
      some { w with injector := got.2, results := w.results ++ [streamRead trailer got.1] }
  | .close =>
    if w.closed then none
    else some { w with injector := w.injector.close, closed := true }

def system (P : Package) (label trailer : String) (src : Stream) : System World Action :=
  ⟨⟨⟨label, ⟨src, 0⟩, none⟩, [], false⟩, step P trailer⟩

/-- The bytes that the caller has got. -/
def World.delivered (w : World) : Bytes := (w.results.map (·.1)).flatten

/-! ## What reads leave -/

theorem Body.read_cases (b : Body) :
    (∃ bs, b.read.1 = (bs, none) ∧ bs ++ b.read.2.rest.items = b.rest.items ∧
      b.read.2.rest.err = b.rest.err ∧ b.read.2.closes = b.closes) ∨
    (b.read.1 = (b.rest.items, some b.rest.err) ∧ b.read.2.rest.items = [] ∧
      b.read.2.rest.err = b.rest.err ∧ b.read.2.closes = b.closes) := by
  unfold Body.read Reader.items
  cases hc : b.rest.chunks with
  | nil => exact Or.inr ⟨by simp, by simp [hc], rfl, rfl⟩
  | cons c cs => exact Or.inl ⟨c, rfl, by simp, rfl, rfl⟩

theorem Body.read_front (b : Body) : b.read.1.1 <+: b.rest.items := by
  rcases b.read_cases with ⟨bs, hres, hitems, -⟩ | ⟨hres, -⟩
  · rw [hres]
    exact ⟨_, hitems⟩
  · rw [hres]

theorem Body.read_closes (b : Body) : b.read.2.closes = b.closes := by
  rcases b.read_cases with ⟨_, -, -, -, hcloses⟩ | ⟨-, -, -, hcloses⟩ <;> exact hcloses

section Injector

variable {P : Package} {r : Injector}

theorem Injector.read_failed {d : Draw} {e : Err} (h : r.failed = some e) :
    r.read P d = (([], some e), r) := by
  simp [Injector.read, h]

theorem Injector.read_drop (h : r.failed = none) :
    r.read P .drop = (([], some (r.induced P "drop")), r.error (r.induced P "drop")) := by
  simp [Injector.read, h]

theorem Injector.read_truncate {nn : Nat} (h : r.failed = none) :
    r.read P (.truncate nn) = ((r.body.read.1.1.take nn, some (r.induced P "truncation")),
      { r with body := r.body.read.2 }.error (r.induced P "truncation")) := by
  simp [Injector.read, h]

theorem Injector.read_pass (h : r.failed = none) :
    r.read P .pass = (r.body.read.1, { r with body := r.body.read.2 }) := by
  simp [Injector.read, h]

theorem Injector.close_failed {e : Err} (h : r.failed = some e) : r.close = r := by
  simp [Injector.close, h]

theorem Injector.close_open (h : r.failed = none) :
    r.close = { r with body := { r.body with closes := r.body.closes + 1 } } := by
  simp [Injector.close, h]

end Injector

theorem streamRead_bytes (trailer : String) (got : Result) :
    (streamRead trailer got).1 = got.1 := by
  unfold streamRead
  split <;> rfl

theorem streamRead_eof {trailer : String} {got : Result}
    (h : (streamRead trailer got).2 = some .eof) : got.2 = some .eof ∧ trailer = "" := by
  unfold streamRead at h
  split at h
  · cases h
  · rename_i hnot
    exact ⟨h, by simpa [h] using hnot⟩

theorem induced_ne_eof {P : Package} (hE : P.ReturnsError) (r : Injector) (what : String) :
    r.induced P what ≠ .eof := by
  intro h
  have herr : (r.induced P what).IsError := hE _
  rw [h] at herr
  exact herr

/-- The last read has returned the error. -/
def Reports (e : Err) (results : List Result) : Prop :=
  ∃ before bs, results = before ++ [(bs, some e)]

structure Inv (src : Stream) (trailer : String) (w : World) : Prop where
  whole : w.injector.failed = none →
    w.delivered ++ w.injector.body.rest.items = src.items ∧ w.injector.body.rest.err = src.err
  front : w.delivered <+: src.items
  eof : some .eof ∈ w.results.map (·.2) →
    w.delivered = src.items ∧ src.err = .eof ∧ trailer = ""
  reports : ∀ e, w.injector.failed = some e → e ≠ .eof ∧ Reports e w.results
  closes : w.injector.body.closes = if w.closed || w.injector.failed.isSome then 1 else 0

theorem delivered_snoc (w : World) (r : Injector) (res : Result) (closed : Bool) :
    World.delivered ⟨r, w.results ++ [res], closed⟩ = w.delivered ++ res.1 := by
  simp [World.delivered]

theorem streamRead_of_ne {trailer : String} {bs : Bytes} {e : Err} (h : e ≠ .eof) :
    streamRead trailer (bs, some e) = (bs, some e) :=
  if_neg fun hand => h (Option.some.inj hand.1)

section Steps

variable {P : Package} {src : Stream} {trailer : String} {w : World}

/-- A read that is a fault: `bs` is what it gives of the bytes that are left. -/
theorem Inv.fault (h : Inv src trailer w) (hopen : w.closed = false)
    (hfailed : w.injector.failed = none) {r : Injector} {bs : Bytes} {e : Err} (he : e ≠ .eof)
    (hbs : bs <+: w.injector.body.rest.items) (hr : r.failed = some e)
    (hcloses : r.body.closes = w.injector.body.closes + 1) :
    Inv src trailer ⟨r, w.results ++ [streamRead trailer (bs, some e)], w.closed⟩ := by
  rw [streamRead_of_ne he]
  obtain ⟨hwhole, -⟩ := h.whole hfailed
  obtain ⟨tail, htail⟩ := hbs
  refine ⟨fun hnone => ?_, ?_, fun hmem => ?_, fun e' he' => ?_, ?_⟩
  · rw [hr] at hnone
    cases hnone
  · rw [delivered_snoc]
    exact ⟨tail, by rw [List.append_assoc, htail, hwhole]⟩
  · rw [delivered_snoc]
    have hbefore : some .eof ∈ w.results.map (·.2) := by
      simpa [Ne.symm he] using hmem
    obtain ⟨hall, hrest⟩ := h.eof hbefore
    -- nothing is left after the end of the stream
    have hnil : w.injector.body.rest.items = [] := by
      rw [hall] at hwhole
      simpa using hwhole
    rw [hnil, List.append_eq_nil_iff] at htail
    exact ⟨by rw [htail.1, List.append_nil, hall], hrest⟩
  · obtain rfl := Option.some.inj (hr.symm.trans he')
    exact ⟨he, w.results, bs, rfl⟩
  · have hzero := h.closes
    simp only [hopen, hfailed, Option.isSome_none, Bool.or_self, Bool.false_eq_true, if_false]
      at hzero
    simp [hcloses, hzero, hr]

/-- A read of the body itself. -/
theorem Inv.pass (h : Inv src trailer w) (hfailed : w.injector.failed = none) :
    Inv src trailer ⟨{ w.injector with body := w.injector.body.read.2 },
      w.results ++ [streamRead trailer w.injector.body.read.1], w.closed⟩ := by
  obtain ⟨hwhole, herr⟩ := h.whole hfailed
  have hnone : ∀ e, w.injector.failed ≠ some e := by simp [hfailed]
  rcases w.injector.body.read_cases with ⟨bs, hres, hitems, herr', hcloses⟩ |
    ⟨hres, hitems, herr', hcloses⟩
  · have hstream : streamRead trailer w.injector.body.read.1 = (bs, none) := by
      rw [hres]
      exact if_neg (by simp)
    rw [hstream]
    have hall : w.delivered ++ bs ++ w.injector.body.read.2.rest.items = src.items := by
      rw [List.append_assoc, hitems, hwhole]
    refine ⟨fun _ => ?_, ?_, fun hmem => ?_, fun e he => absurd he (hnone e), ?_⟩
    · rw [delivered_snoc]
      exact ⟨hall, herr'.trans herr⟩
    · rw [delivered_snoc]
      exact ⟨_, hall⟩
    · rw [delivered_snoc]
      obtain ⟨hdone, hrest⟩ := h.eof (by simpa using hmem)
      have hnil : bs ++ w.injector.body.read.2.rest.items = [] := by
        rw [hitems]
        rw [hdone] at hwhole
        simpa using hwhole
      exact ⟨by rw [(List.append_eq_nil_iff.mp hnil).1, List.append_nil, hdone], hrest⟩
    · exact hcloses.trans h.closes
  · refine ⟨fun _ => ?_, ?_, fun hmem => ?_, fun e he => absurd he (hnone e), ?_⟩
    · rw [delivered_snoc, streamRead_bytes, hres, hitems, List.append_nil]
      exact ⟨hwhole, herr'.trans herr⟩
    · rw [delivered_snoc, streamRead_bytes, hres]
      exact ⟨[], by rw [List.append_nil, hwhole]⟩
    · rw [delivered_snoc, streamRead_bytes, hres]
      refine ⟨hwhole, ?_⟩
      simp only [List.map_append, List.map_singleton, List.mem_append, List.mem_singleton] at hmem
      rcases hmem with hmem | hmem
      · exact (h.eof hmem).2
      · obtain ⟨heof, htrailer⟩ := streamRead_eof hmem.symm
        rw [hres] at heof
        exact ⟨herr ▸ Option.some.inj heof, htrailer⟩
    · exact hcloses.trans h.closes

/-- A read after a fault. -/
theorem Inv.again (h : Inv src trailer w) {e : Err} (hfailed : w.injector.failed = some e) :
    Inv src trailer
      ⟨w.injector, w.results ++ [streamRead trailer ([], some e)], w.closed⟩ := by
  have hne := (h.reports e hfailed).1
  rw [streamRead_of_ne hne]
  refine ⟨fun hnone => ?_, ?_, fun hmem => ?_, fun e' he' => ?_, h.closes⟩
  · cases hfailed.symm.trans hnone
  · rw [delivered_snoc, List.append_nil]
    exact h.front
  · rw [delivered_snoc, List.append_nil]
    exact h.eof (by simpa [Ne.symm hne] using hmem)
  · obtain rfl := Option.some.inj (hfailed.symm.trans he')
    exact ⟨hne, w.results, [], rfl⟩

theorem Inv.read (hE : P.ReturnsError) (h : Inv src trailer w) (hopen : w.closed = false)
    (d : Draw) :
    Inv src trailer ⟨(w.injector.read P d).2,
      w.results ++ [streamRead trailer (w.injector.read P d).1], w.closed⟩ := by
  rcases hfailed : w.injector.failed with _ | e
  · cases d with
    | drop =>
      rw [Injector.read_drop hfailed]
      exact h.fault hopen hfailed (induced_ne_eof hE _ _) List.nil_prefix rfl rfl
    | truncate nn =>
      rw [Injector.read_truncate hfailed]
      have hfront : w.injector.body.read.1.1.take nn <+: w.injector.body.rest.items :=
        (List.take_prefix _ _).trans w.injector.body.read_front
      exact h.fault hopen hfailed (induced_ne_eof hE _ _) hfront rfl
        (congrArg (· + 1) w.injector.body.read_closes)
    | pass =>
      rw [Injector.read_pass hfailed]
      exact h.pass hfailed
  · rw [Injector.read_failed hfailed]
    exact h.again hfailed

theorem Inv.close (h : Inv src trailer w) (hopen : w.closed = false) :
    Inv src trailer ⟨w.injector.close, w.results, true⟩ := by
  have hcloses := h.closes
  rcases hfailed : w.injector.failed with _ | e
  · rw [Injector.close_open hfailed]
    refine ⟨h.whole, h.front, h.eof, h.reports, ?_⟩
    simpa [hfailed, hopen] using hcloses
  · rw [Injector.close_failed hfailed]
    refine ⟨h.whole, h.front, h.eof, h.reports, ?_⟩
    simpa [hfailed, hopen] using hcloses

theorem inv_step (hE : P.ReturnsError) {w' : World} {a : Action} (h : Inv src trailer w)
    (hw : step P trailer w a = some w') : Inv src trailer w' := by
  cases a with
  | read d =>
    simp only [step] at hw
    split at hw
    · cases hw
    · rename_i hopen
      cases hw
      exact h.read hE (Bool.not_eq_true _ ▸ hopen) d
  | close =>
    simp only [step] at hw
    split at hw
    · cases hw
    · rename_i hopen
      cases hw
      exact h.close (Bool.not_eq_true _ ▸ hopen)

end Steps

theorem inv_init (P : Package) (label trailer : String) (src : Stream) :
    Inv src trailer (system P label trailer src).init := by
  refine ⟨fun _ => ⟨rfl, rfl⟩, List.nil_prefix, fun hmem => ?_, fun e he => ?_, rfl⟩
  · cases hmem
  · cases he

end Bigmachine.Rpc.Faults
