import Bigmachine.Machine.State
import Bigmachine.Transition.System

/-!
# Cancelers: stopping cancels every pending call

`context` derives a context that the machine cancels when it stops. Its locked section
either registers the context in `m.cancelers` or finds the machine stopped; in the second
case the context is canceled after the section, before it is returned. The function returned
beside a registered context deletes it from `m.cancelers`; the one returned beside the other
does nothing. The system below runs any number of `context` calls, releases and `setState`
calls with arbitrary states, also decreasing ones; parents may end at any time.

A context that was registered is released, registered still, or ended by the machine, and
one that was not registered has been ended before it is handed out (`Inv`). The sweep of
`setState` and the registration are both locked sections, so no context is in `m.cancelers`
while the machine is stopped. `pending_calls_canceled` puts this together.
-/

namespace Bigmachine.Machine

open Errors

/-- Where a call of `context` is after its locked section. A `registered` one returns its context
and the function that deletes it. When the machine is stopped, it first calls `ctxcancel()` and
then returns a function that does nothing. -/
inductive Pc
  | registered (c : Ctx)
  | stopped (c : Ctx)
  | canceled (c : Ctx)
  deriving DecidableEq, Repr

/-- The locked section of `context`, with the context made before it. -/
def request (m : Machine) (parent : Option CtxErr) : Machine × Pc :=
  let c := m.nextCtx
  let m := { m with nextCtx := c + 1, ctxs := Function.update m.ctxs c { err := parent } }
  if .stopped ≤ m.state then (m, .stopped c)
  else ({ m with cancelers := m.cancelers ++ [c] }, .registered c)

/-- `ctxcancel()`, called by the machine. -/
def cancelCtx (m : Machine) (c : Ctx) : Machine :=
  { m with
    ctxs := Function.update m.ctxs c { (m.ctxs c).cancel .canceled with byMachine := true } }

/-- `context` as one step is its locked section followed by what the call does alone. -/
theorem context_eq_request (m : Machine) (parent : Option CtxErr) :
    m.context parent =
      match (m.request parent).2 with
      | .stopped c => ((m.request parent).1.cancelCtx c, c)
      | .registered c | .canceled c => ((m.request parent).1, c) := by
  unfold context request
  by_cases hs : State.stopped ≤ m.state
  · simp [hs, cancelCtx]
  · simp [hs]

@[simp] theorem request_state (m : Machine) (parent : Option CtxErr) :
    (m.request parent).1.state = m.state := by
  unfold request; dsimp only; split <;> rfl

@[simp] theorem request_nextCtx (m : Machine) (parent : Option CtxErr) :
    (m.request parent).1.nextCtx = m.nextCtx + 1 := by
  unfold request; dsimp only; split <;> rfl

@[simp] theorem request_ctxs (m : Machine) (parent : Option CtxErr) :
    (m.request parent).1.ctxs = Function.update m.ctxs m.nextCtx { err := parent } := by
  unfold request; dsimp only; split <;> rfl

theorem request_of_stopped {m : Machine} (parent : Option CtxErr) (h : m.state = .stopped) :
    (m.request parent).2 = .stopped m.nextCtx ∧ (m.request parent).1.cancelers = m.cancelers := by
  simp [request, h]

theorem request_of_not_stopped {m : Machine} (parent : Option CtxErr) (h : m.state ≠ .stopped) :
    (m.request parent).2 = .registered m.nextCtx ∧
      (m.request parent).1.cancelers = m.cancelers ++ [m.nextCtx] := by
  simp [request, State.stopped_le_iff, h]

namespace Cancelers

open Transition

/-- A context handed out to a caller; `registered` says which of the two functions was
returned beside it. -/
structure Handle where
  ctx : Ctx
  registered : Bool
  deriving DecidableEq, Repr

/-- `calls` are the calls of `context` that have not returned. `released` is a ghost field: the
contexts whose release function has been called. -/
structure Contexts where
  m : Machine := {}
  calls : List Pc := []
  handedOut : List Handle := []
  released : List Ctx := []

/-- `context` is the locked section of a new call. The `i`-th call then calls `ctxcancel()`
(`cancel`) and returns (`ret`); `release` is the release function of the `i`-th context that was
handed out. -/
inductive Action
  | context (parent : Option CtxErr)
  | cancel (i : Nat)
  | ret (i : Nat)
  | release (i : Nat)
  | setState (s : State)
  | parentDone (c : Ctx) (e : CtxErr)
  deriving DecidableEq, Repr

def step (w : Contexts) : Action → Option Contexts
  | .context parent =>
    some { w with m := (w.m.request parent).1, calls := w.calls ++ [(w.m.request parent).2] }
  | .cancel i =>
    match w.calls[i]? with
    | some (.stopped c) =>
      some { w with m := w.m.cancelCtx c, calls := w.calls.set i (.canceled c) }
    | _ => none
  | .ret i =>
    match w.calls[i]? with
    | some (.registered c) =>
      some { w with calls := w.calls.eraseIdx i, handedOut := w.handedOut ++ [⟨c, true⟩] }
    | some (.canceled c) =>
      some { w with calls := w.calls.eraseIdx i, handedOut := w.handedOut ++ [⟨c, false⟩] }
    | _ => none
  | .release i =>
    w.handedOut[i]?.map fun h =>
      { w with
        m := if h.registered then w.m.release h.ctx else w.m
        released := w.released ++ [h.ctx] }
  | .setState s => some { w with m := (w.m.setState s).1 }
  | .parentDone c e => if c < w.m.nextCtx then some { w with m := w.m.parentDone c e } else none

def system : System Contexts Action := ⟨{}, step⟩

/-! ## What one step does -/

/-- The machine has called the cancel function of `c`, and `c` is done. -/
def Ended (m : Machine) (c : Ctx) : Prop :=
  (m.ctxs c).byMachine = true ∧ (m.ctxs c).err ≠ none

/-- The contexts a step keeps: the numbering only grows, and what has been ended stays
ended. -/
structure Grows (w w' : Contexts) : Prop where
  nextCtx : w.m.nextCtx ≤ w'.m.nextCtx
  released : ∀ c ∈ w.released, c ∈ w'.released
  ended : ∀ c < w.m.nextCtx, Ended w.m c → Ended w'.m c
  registered : ∀ c ∈ w.m.cancelers, c ∈ w'.m.cancelers ∨ c ∈ w'.released ∨ Ended w'.m c

theorem ended_cancelCtx (m : Machine) (c : Ctx) : Ended (m.cancelCtx c) c := by
  simp [Ended, cancelCtx]

theorem ended_cancelCtx_of_ended {m : Machine} {c d : Ctx} (h : Ended m d) :
    Ended (m.cancelCtx c) d := by
  by_cases hd : d = c
  · rw [hd]
    exact ended_cancelCtx m c
  · simpa [Ended, cancelCtx, Function.update_of_ne hd] using h

theorem ended_parentDone {m : Machine} {c d : Ctx} (e : CtxErr) (h : Ended m d) :
    Ended (m.parentDone c e) d := by
  by_cases hd : d = c
  · subst hd
    simpa [Ended, parentDone, CtxState.cancel] using h.1
  · simpa [Ended, parentDone, Function.update_of_ne hd] using h

/-- `setState` ends the registered contexts when it stops the machine, and no other. -/
theorem setState_ctxs (m : Machine) (s : State) (c : Ctx) :
    (m.setState s).1.ctxs c =
      if s = .stopped ∧ c ∈ m.cancelers then
        { (m.ctxs c).cancel .canceled with byMachine := true }
      else m.ctxs c := by
  unfold setState
  by_cases hs : State.stopped ≤ s
  · simp [State.stopped_le_iff.mp hs, cancelAll]
  · simp [hs, mt State.stopped_le_iff.mpr hs]

theorem setState_ended {m : Machine} {s : State} {c : Ctx}
    (h : Ended m c ∨ (s = .stopped ∧ c ∈ m.cancelers)) : Ended (m.setState s).1 c := by
  unfold Ended at h ⊢
  rw [setState_ctxs]
  split
  · simp
  · rename_i hnot
    exact h.resolve_right hnot

theorem setState_cancelers (m : Machine) (s : State) :
    (m.setState s).1.cancelers = if s = .stopped then [] else m.cancelers := by
  unfold setState
  by_cases hs : State.stopped ≤ s
  · simp [State.stopped_le_iff.mp hs, cancelAll]
  · simp [hs, mt State.stopped_le_iff.mpr hs]

theorem step_grows {w w' : Contexts} {a : Action} (h : step w a = some w') : Grows w w' := by
  cases a with
  | context parent =>
    cases h
    refine ⟨by simp, fun c hc => hc, fun c hc he => ?_, fun c hc => Or.inl ?_⟩
    · simpa [Ended, Function.update_of_ne hc.ne] using he
    · by_cases hs : w.m.state = .stopped
      · rw [(request_of_stopped parent hs).2]
        exact hc
      · rw [(request_of_not_stopped parent hs).2]
        exact List.mem_append_left _ hc
  | cancel i =>
    simp only [step] at h
    split at h <;> cases h
    exact ⟨le_rfl, fun c hc => hc, fun c _ he => ended_cancelCtx_of_ended he,
      fun c hc => Or.inl hc⟩
  | ret i =>
    simp only [step] at h
    split at h <;> cases h <;>
      exact ⟨le_rfl, fun c hc => hc, fun c _ he => he, fun c hc => Or.inl hc⟩
  | release i =>
    obtain ⟨g, -, rfl⟩ := Option.map_eq_some_iff.mp h
    refine ⟨?_, fun c hc => List.mem_append_left _ hc, fun c _ he => ?_, fun c hc => ?_⟩
    · dsimp only
      split <;> exact le_rfl
    · dsimp only
      split <;> exact he
    · -- only the released context leaves the set
      by_cases hg : c = g.ctx
      · exact Or.inr (Or.inl (by simp [hg]))
      · left
        dsimp only
        split
        · exact (List.mem_erase_of_ne hg).mpr hc
        · exact hc
  | setState s =>
    cases h
    refine ⟨(setState_nextCtx w.m s).ge, fun c hc => hc, fun c _ he => setState_ended (Or.inl he),
      fun c hc => ?_⟩
    by_cases hs : s = .stopped
    · exact Or.inr (Or.inr (setState_ended (Or.inr ⟨hs, hc⟩)))
    · left
      simpa [setState_cancelers, hs] using hc
  | parentDone c e =>
    simp only [step] at h
    split at h <;> cases h
    exact ⟨le_rfl, fun c hc => hc, fun c _ he => ended_parentDone e he, fun c hc => Or.inl hc⟩

/-! ## The invariant -/

/-- What holds of a context that is handed out, or about to be, by the kind of its release
function. -/
def Kept (w : Contexts) (c : Ctx) : Bool → Prop
  | true => c ∈ w.m.cancelers ∨ c ∈ w.released ∨ Ended w.m c
  | false => Ended w.m c

theorem Grows.kept {w w' : Contexts} (h : Grows w w') {c : Ctx} (hc : c < w.m.nextCtx)
    {b : Bool} (hk : Kept w c b) : Kept w' c b := by
  cases b with
  | false => exact h.ended c hc hk
  | true =>
    rcases hk with hk | hk | hk
    · exact h.registered c hk
    · exact Or.inr (Or.inl (h.released c hk))
    · exact Or.inr (Or.inr (h.ended c hc hk))

/-- What holds of a call in progress. -/
def Underway (w : Contexts) : Pc → Prop
  | .registered c => c < w.m.nextCtx ∧ Kept w c true
  | .stopped c => c < w.m.nextCtx
  | .canceled c => c < w.m.nextCtx ∧ Kept w c false

theorem Grows.underway {w w' : Contexts} (h : Grows w w') {p : Pc} (hp : Underway w p) :
    Underway w' p := by
  cases p with
  | registered c => exact ⟨hp.1.trans_le h.nextCtx, h.kept hp.1 hp.2⟩
  | stopped c => exact lt_of_lt_of_le hp h.nextCtx
  | canceled c => exact ⟨hp.1.trans_le h.nextCtx, h.kept hp.1 hp.2⟩

structure Inv (w : Contexts) : Prop where
  swept : w.m.state = .stopped → w.m.cancelers = []
  calls : ∀ p ∈ w.calls, Underway w p
  handedOut : ∀ g ∈ w.handedOut, g.ctx < w.m.nextCtx ∧ Kept w g.ctx g.registered

theorem init_inv : Inv system.init := by
  constructor <;> simp [system]

/-- For the calls and the handed out contexts only the new ones have to be looked at. -/
theorem Inv.of_grows {w w' : Contexts} (hw : Inv w) (hg : Grows w w')
    (hswept : w'.m.state = .stopped → w'.m.cancelers = [])
    (hcalls : ∀ p ∈ w'.calls, p ∈ w.calls ∨ Underway w' p)
    (hout : ∀ g ∈ w'.handedOut, g ∈ w.handedOut ∨
      (g.ctx < w'.m.nextCtx ∧ Kept w' g.ctx g.registered)) : Inv w' := by
  refine ⟨hswept, fun p hp => ?_, fun g hgm => ?_⟩
  · rcases hcalls p hp with hp | hp
    · exact hg.underway (hw.calls p hp)
    · exact hp
  · rcases hout g hgm with hgm | hgm
    · obtain ⟨hlt, hk⟩ := hw.handedOut g hgm
      exact ⟨hlt.trans_le hg.nextCtx, hg.kept hlt hk⟩
    · exact hgm

theorem inv_context {w w' : Contexts} {parent : Option CtxErr} (hw : Inv w)
    (h : step w (.context parent) = some w') : Inv w' := by
  have hg := step_grows h
  cases h
  refine hw.of_grows hg ?_ ?_ (fun g hgm => Or.inl hgm)
  · intro hs
    have hs' : w.m.state = .stopped := (request_state w.m parent).symm.trans hs
    exact (request_of_stopped parent hs').2.trans (hw.swept hs')
  · intro p hp
    rcases List.mem_append.mp hp with hp | hp
    · exact Or.inl hp
    · right
      rw [List.mem_singleton.mp hp]
      by_cases hs : w.m.state = .stopped
      · rw [(request_of_stopped parent hs).1]
        simp [Underway]
      · obtain ⟨hpc, hreg⟩ := request_of_not_stopped parent hs
        rw [hpc]
        exact ⟨by simp, Or.inl (by simp [hreg])⟩

theorem inv_cancel {w w' : Contexts} {i : Nat} (hw : Inv w)
    (h : step w (.cancel i) = some w') : Inv w' := by
  have hg := step_grows h
  simp only [step] at h
  split at h <;> cases h
  rename_i c hc
  refine hw.of_grows hg hw.swept ?_ (fun g hgm => Or.inl hgm)
  intro p hp
  rcases List.mem_or_eq_of_mem_set hp with hp | rfl
  · exact Or.inl hp
  · have hlt : c < w.m.nextCtx := hw.calls _ (List.mem_of_getElem? hc)
    exact Or.inr ⟨hlt, ended_cancelCtx w.m c⟩

theorem inv_ret {w w' : Contexts} {i : Nat} (hw : Inv w)
    (h : step w (.ret i) = some w') : Inv w' := by
  have hg := step_grows h
  -- both kinds of call hand out what `Underway` says of them
  have hnew : ∀ c b, (c < w.m.nextCtx ∧ Kept w c b) →
      ∀ g ∈ w.handedOut ++ [⟨c, b⟩], g ∈ w.handedOut ∨
        (g.ctx < w.m.nextCtx ∧ Kept w g.ctx g.registered) := by
    intro c b hc g hgm
    rcases List.mem_append.mp hgm with hgm | hgm
    · exact Or.inl hgm
    · rw [List.mem_singleton.mp hgm]
      exact Or.inr hc
  simp only [step] at h
  split at h <;> cases h
  · rename_i c hc
    exact hw.of_grows hg hw.swept (fun p hp => Or.inl (List.mem_of_mem_eraseIdx hp))
      (hnew c true (hw.calls _ (List.mem_of_getElem? hc)))
  · rename_i c hc
    exact hw.of_grows hg hw.swept (fun p hp => Or.inl (List.mem_of_mem_eraseIdx hp))
      (hnew c false (hw.calls _ (List.mem_of_getElem? hc)))

theorem step_inv {w w' : Contexts} {a : Action} (h : step w a = some w') (hw : Inv w) :
    Inv w' := by
  cases a with
  | context parent => exact inv_context hw h
  | cancel i => exact inv_cancel hw h
  | ret i => exact inv_ret hw h
  | release i =>
    have hg := step_grows h
    obtain ⟨g, -, rfl⟩ := Option.map_eq_some_iff.mp h
    refine hw.of_grows hg ?_ (fun p hp => Or.inl hp) (fun g hgm => Or.inl hgm)
    dsimp only
    split
    · intro hs
      simp [release, hw.swept hs]
    · exact hw.swept
  | setState s =>
    have hg := step_grows h
    cases h
    refine hw.of_grows hg ?_ (fun p hp => Or.inl hp) (fun g hgm => Or.inl hgm)
    intro hs
    rw [setState_cancelers, if_pos ((setState_state w.m s).symm.trans hs)]
  | parentDone c e =>
    have hg := step_grows h
    simp only [step] at h
    split at h <;> cases h
    exact hw.of_grows hg hw.swept (fun p hp => Or.inl hp) (fun g hgm => Or.inl hgm)

theorem reachable_inv {tr : List Action} {w : Contexts}
    (h : Steps system Always system.init tr w) : Inv w :=
  h.invariant (I := Inv) (fun _ _ _ hi _ hs => step_inv hs hi) init_inv

/-! ## One context along a run -/

/-- `c` was requested on a stopped machine: it is not among the registered ones. -/
def Refused (c : Ctx) (w : Contexts) : Prop :=
  c < w.m.nextCtx ∧ .registered c ∉ w.calls ∧ ⟨c, true⟩ ∉ w.handedOut

/-- `c` was registered: no call is about to cancel it. -/
def Admitted (c : Ctx) (w : Contexts) : Prop := c < w.m.nextCtx ∧ .stopped c ∉ w.calls

/-- A call that was not in progress before is new or has just called `ctxcancel()`. -/
theorem step_calls {w w' : Contexts} {a : Action} (h : step w a = some w') {p : Pc}
    (hp : p ∈ w'.calls) :
    p ∈ w.calls ∨ (∃ c, p = .canceled c) ∨ p = .registered w.m.nextCtx ∨
      p = .stopped w.m.nextCtx := by
  cases a with
  | context parent =>
    cases h
    rcases List.mem_append.mp hp with hp | hp
    · exact Or.inl hp
    · rw [List.mem_singleton.mp hp]
      by_cases hs : w.m.state = .stopped
      · exact Or.inr (Or.inr (Or.inr (request_of_stopped parent hs).1))
      · exact Or.inr (Or.inr (Or.inl (request_of_not_stopped parent hs).1))
  | cancel i =>
    simp only [step] at h
    split at h <;> cases h
    rcases List.mem_or_eq_of_mem_set hp with hp | rfl
    · exact Or.inl hp
    · exact Or.inr (Or.inl ⟨_, rfl⟩)
  | ret i =>
    simp only [step] at h
    split at h <;> cases h <;> exact Or.inl (List.mem_of_mem_eraseIdx hp)
  | release i =>
    obtain ⟨g, -, rfl⟩ := Option.map_eq_some_iff.mp h
    exact Or.inl hp
  | setState s =>
    cases h
    exact Or.inl hp
  | parentDone c e =>
    simp only [step] at h
    split at h <;> cases h
    exact Or.inl hp

theorem step_handedOut {w w' : Contexts} {a : Action} (h : step w a = some w') {c : Ctx}
    (hc : ⟨c, true⟩ ∈ w'.handedOut) : ⟨c, true⟩ ∈ w.handedOut ∨ .registered c ∈ w.calls := by
  cases a with
  | ret i =>
    simp only [step] at h
    split at h <;> cases h <;> rename_i d hd
    · rcases List.mem_append.mp hc with hc | hc
      · exact Or.inl hc
      · cases List.mem_singleton.mp hc
        exact Or.inr (List.mem_of_getElem? hd)
    · rcases List.mem_append.mp hc with hc | hc
      · exact Or.inl hc
      · cases List.mem_singleton.mp hc
  | context parent =>
    cases h
    exact Or.inl hc
  | release i =>
    obtain ⟨g, -, rfl⟩ := Option.map_eq_some_iff.mp h
    exact Or.inl hc
  | setState s =>
    cases h
    exact Or.inl hc
  | cancel i | parentDone d e =>
    simp only [step] at h
    split at h <;> cases h
    exact Or.inl hc

theorem step_refused {w w' : Contexts} {a : Action} {c : Ctx} (h : step w a = some w')
    (hc : Refused c w) : Refused c w' := by
  obtain ⟨hlt, hcalls, hout⟩ := hc
  refine ⟨hlt.trans_le (step_grows h).nextCtx, fun hp => ?_, fun hg => ?_⟩
  · rcases step_calls h hp with hp | ⟨d, hp⟩ | hp | hp
    · exact hcalls hp
    · cases hp
    · cases hp
      exact lt_irrefl _ hlt
    · cases hp
  · rcases step_handedOut h hg with hg | hp
    · exact hout hg
    · exact hcalls hp

theorem step_admitted {w w' : Contexts} {a : Action} {c : Ctx} (h : step w a = some w')
    (hc : Admitted c w) : Admitted c w' := by
  obtain ⟨hlt, hcalls⟩ := hc
  refine ⟨hlt.trans_le (step_grows h).nextCtx, fun hp => ?_⟩
  rcases step_calls h hp with hp | ⟨d, hp⟩ | hp | hp
  · exact hcalls hp
  · cases hp
  · cases hp
  · cases hp
    exact lt_irrefl _ hlt

/-- The state has been `Stopped`. -/
def Stopped (w : Contexts) : Prop := w.m.state = .stopped

/-- An admitted context is canceled by the machine only in a step that stops it. -/
theorem step_byMachine {w w' : Contexts} {a : Action} {c : Ctx} (h : step w a = some w')
    (hc : Admitted c w) (hby : (w'.m.ctxs c).byMachine = true) :
    (w.m.ctxs c).byMachine = true ∨ Stopped w' := by
  cases a with
  | context parent =>
    cases h
    left
    simpa [Function.update_of_ne hc.1.ne] using hby
  | cancel i =>
    simp only [step] at h
    split at h <;> cases h
    rename_i d hd
    left
    have hne : c ≠ d := by
      rintro rfl
      exact hc.2 (List.mem_of_getElem? hd)
    simpa [cancelCtx, Function.update_of_ne hne] using hby
  | ret i =>
    simp only [step] at h
    split at h <;> cases h <;> exact Or.inl hby
  | release i =>
    obtain ⟨g, -, rfl⟩ := Option.map_eq_some_iff.mp h
    left
    dsimp only at hby
    split at hby <;> exact hby
  | setState s =>
    cases h
    dsimp only at hby
    rw [setState_ctxs] at hby
    split at hby
    · rename_i hs
      exact Or.inr ((setState_state w.m s).trans hs.1)
    · exact Or.inl hby
  | parentDone d e =>
    simp only [step] at h
    split at h <;> cases h
    left
    by_cases hd : c = d
    · subst hd
      simpa [parentDone, CtxState.cancel] using hby
    · simpa [parentDone, Function.update_of_ne hd] using hby

theorem run_byMachine {w w' : Contexts} {tr : List Action} {c : Ctx}
    (h : Steps system Always w tr w') (hc : Admitted c w)
    (hby : (w'.m.ctxs c).byMachine = true) :
    (w.m.ctxs c).byMachine = true ∨ Passes system Always Stopped w tr w' := by
  induction h with
  | nil => exact Or.inl hby
  | cons guard hstep rest ih =>
    rw [passes_cons_iff guard hstep rest]
    rcases ih (step_admitted hstep hc) hby with hby' | hpass
    · rcases step_byMachine hstep hc hby' with hby'' | hs
      · exact Or.inl hby''
      · exact Or.inr (Or.inr (passes_of_start rest hs))
    · exact Or.inr (Or.inr hpass)

/-! ## Stopping cancels every pending call -/

theorem request_refused {w : Contexts} (hw : Inv w) (parent : Option CtxErr)
    (hs : w.m.state = .stopped) :
    Refused w.m.nextCtx
      { w with m := (w.m.request parent).1, calls := w.calls ++ [(w.m.request parent).2] } := by
  refine ⟨by simp, ?_, fun hg => ?_⟩
  · rw [(request_of_stopped parent hs).1]
    intro hp
    rcases List.mem_append.mp hp with hp | hp
    · exact lt_irrefl _ (hw.calls _ hp).1
    · cases List.mem_singleton.mp hp
  · exact lt_irrefl _ (hw.handedOut _ hg).1

theorem request_admitted {w : Contexts} (hw : Inv w) (parent : Option CtxErr)
    (hs : w.m.state ≠ .stopped) :
    Admitted w.m.nextCtx
      { w with m := (w.m.request parent).1, calls := w.calls ++ [(w.m.request parent).2] } := by
  refine ⟨by simp, ?_⟩
  rw [(request_of_not_stopped parent hs).1]
  intro hp
  rcases List.mem_append.mp hp with hp | hp
  · exact lt_irrefl _ (hw.calls _ hp)
  · cases List.mem_singleton.mp hp

/-- **Stopping cancels every pending call.** In every run, while the state is `Stopped` no
context is registered and every context that is handed out and not released has been
canceled. For every request in the run: if the state was `Stopped`, the context has been
canceled by the time it is handed out; and if the machine has canceled it, the state has
been `Stopped` at some moment since the request. -/
theorem pending_calls_canceled {tr : List Action} {w : Contexts}
    (h : Steps system Always system.init tr w) :
    (w.m.state = .stopped → w.m.cancelers = [] ∧
      ∀ g ∈ w.handedOut, g.ctx ∉ w.released → (w.m.ctxs g.ctx).err ≠ none) ∧
    ∀ tr₁ tr₂ w₁ w₂ parent, tr = tr₁ ++ .context parent :: tr₂ →
      Steps system Always system.init tr₁ w₁ → system.step w₁ (.context parent) = some w₂ →
      Steps system Always w₂ tr₂ w →
      (w₁.m.state = .stopped → ∀ g ∈ w.handedOut, g.ctx = w₁.m.nextCtx →
        (w.m.ctxs g.ctx).err ≠ none) ∧
      ((w.m.ctxs w₁.m.nextCtx).byMachine = true → Passes system Always Stopped w₂ tr₂ w) := by
  have hw := reachable_inv h
  refine ⟨fun hs => ⟨hw.swept hs, fun g hg hrel => ?_⟩, ?_⟩
  · obtain ⟨-, hk⟩ := hw.handedOut g hg
    cases hb : g.registered with
    | false =>
      rw [hb] at hk
      exact hk.2
    | true =>
      rw [hb] at hk
      rcases hk with hk | hk | hk
      · rw [hw.swept hs] at hk
        cases hk
      · exact absurd hk hrel
      · exact hk.2
  · intro tr₁ tr₂ w₁ w₂ parent _ h₁ hstep h₂
    have hw₁ := reachable_inv h₁
    cases hstep
    refine ⟨fun hs g hg hgc => ?_, fun hby => ?_⟩
    · have href : Refused w₁.m.nextCtx w :=
        h₂.invariant (I := Refused w₁.m.nextCtx) (fun _ _ _ hi _ hs => step_refused hs hi)
          (request_refused hw₁ parent hs)
      obtain ⟨-, hk⟩ := hw.handedOut g hg
      cases hb : g.registered with
      | false =>
        rw [hb] at hk
        exact hk.2
      | true =>
        have hgm : (⟨w₁.m.nextCtx, true⟩ : Handle) = g := by rw [← hgc, ← hb]
        exact absurd (hgm ▸ hg) href.2.2
    · by_cases hs : w₁.m.state = .stopped
      · exact passes_of_start h₂ ((request_state w₁.m parent).trans hs)
      · rcases run_byMachine h₂ (request_admitted hw₁ parent hs) hby with hnew | hpass
        · simp at hnew
        · exact hpass

/-- Two calls take contexts, the first one releases its own, the machine stops; a third call
comes too late. -/
def stopRun : List Action :=
  [.context none, .ret 0, .context none, .ret 0, .release 0, .setState .stopped, .context none,
    .cancel 0, .ret 0]

theorem pending_calls_canceled_stopRun :
    ∃ w, Steps system Always system.init stopRun w ∧ w.m.state = .stopped ∧
      w.m.cancelers = [] ∧ (w.m.ctxs 0).err = none ∧ (w.m.ctxs 1).err ≠ none ∧
      (w.m.ctxs 2).err ≠ none := by
  obtain ⟨w, h, hs, h0, h1, h2⟩ := exists_steps system Always system.init stopRun
    (fun w => w.m.state = .stopped ∧ (w.m.ctxs 0).err = none ∧
      (⟨1, true⟩ ∈ w.handedOut ∧ 1 ∉ w.released) ∧ (⟨2, false⟩ ∈ w.handedOut ∧ 2 ∉ w.released))
    (by decide)
  obtain ⟨hnone, hall⟩ := (pending_calls_canceled h).1 hs
  exact ⟨w, h, hs, hnone, h0, hall _ h1.1 h1.2, hall _ h2.1 h2.2⟩

end Cancelers

end Bigmachine.Machine
