import Bigmachine.Errors.Values

/-!
# Machine states and the fields guarded by `m.mu`

`State` is the enumeration of machine.go with its order. `Machine` holds the fields of a
machine that `m.mu` guards, together with what the machine does to channels and contexts:

* channels made by `Wait` and contexts made by `context` are numbered in the order of
  their creation (`nextChan`, `nextCtx`);
* `closed` lists every `close` of such a channel, oldest first;
* `ctxs` gives for every derived context its error and whether the machine called its
  cancel function.

`history` is a ghost field: the values `state` has taken, oldest first.

Each function below is one locked section of the source. The `close` calls of `setState`
come after its locked section; `setState` returns the channels that remain to be closed.
-/

namespace Bigmachine

open Errors

inductive State
  | unstarted | starting | running | stopped
  deriving DecidableEq, Repr

namespace State

/-- The `iota` value of the constant. -/
def toNat : State → Nat
  | unstarted => 0
  | starting => 1
  | running => 2
  | stopped => 3

theorem toNat_injective : Function.Injective toNat := by
  intro a b h
  cases a <;> cases b <;> first | rfl | cases h

instance : LinearOrder State := LinearOrder.lift' toNat toNat_injective

theorem le_stopped (s : State) : s ≤ stopped := by
  cases s <;> decide

theorem stopped_le_iff {s : State} : stopped ≤ s ↔ s = stopped := by
  cases s <;> decide

end State

abbrev Chan := Nat

abbrev Ctx := Nat

structure StateWaiter where
  c : Chan
  state : State
  deriving DecidableEq, Repr

/-- A derived context: its `Err()`, fixed by whatever cancels it first, and whether the
machine called its cancel function. -/
structure CtxState where
  err : Option CtxErr := none
  byMachine : Bool := false
  deriving DecidableEq, Repr

/-- The first error given to a context stays. -/
def CtxState.cancel (c : CtxState) (e : CtxErr) : CtxState :=
  { c with err := some (c.err.getD e) }

@[simp] theorem CtxState.cancel_err (c : CtxState) (e : CtxErr) :
    (c.cancel e).err = some (c.err.getD e) := rfl

structure Machine where
  state : State := .unstarted
  err : Option Err := none
  waiters : List StateWaiter := []
  cancelers : List Ctx := []
  closed : List Chan := []
  nextChan : Nat := 0
  ctxs : Ctx → CtxState := fun _ => {}
  nextCtx : Nat := 0
  history : List State := [.unstarted]

namespace Machine

/-! ## Waiting for a state -/

/-- `Wait`: the channel is closed at once when the state is reached already. -/
def wait (m : Machine) (s : State) : Machine × Chan :=
  let c := m.nextChan
  if s ≤ m.state then
    ({ m with nextChan := c + 1, closed := m.closed ++ [c] }, c)
  else
    ({ m with nextChan := c + 1, waiters := m.waiters ++ [⟨c, s⟩] }, c)

/-- The loop of `setState` over the old waiters: those whose target is reached are
triggered, the others are kept. -/
def trigger (s : State) (ws : List StateWaiter) : List Chan × List StateWaiter :=
  ws.foldl (fun (acc : List Chan × List StateWaiter) w =>
    if w.state ≤ s then (acc.1 ++ [w.c], acc.2) else (acc.1, acc.2 ++ [w])) ([], [])

/-- The machine calls the cancel functions of all its cancelers. -/
def cancelAll (m : Machine) : Machine :=
  { m with
    ctxs := fun c =>
      if c ∈ m.cancelers then { (m.ctxs c).cancel .canceled with byMachine := true } else m.ctxs c
    cancelers := [] }

/-- The locked section of `setState`, with the triggered channels. -/
def setState (m : Machine) (s : State) : Machine × List Chan :=
  let t := trigger s m.waiters
  let m := { m with waiters := t.2, state := s, history := m.history ++ [s] }
  (if .stopped ≤ s then m.cancelAll else m, t.1)

/-- One `close(c)` after the locked section of `setState`. -/
def close (m : Machine) (c : Chan) : Machine := { m with closed := m.closed ++ [c] }

/-- The first locked section of `setError`. -/
def setErr (m : Machine) (e : Err) : Machine := { m with err := some e }

/-! ## Derived contexts -/

/-- `context`, given the error of the parent: a parent that is done makes the new context
done. On a stopped machine the new context is canceled before it is returned. -/
def context (m : Machine) (parent : Option CtxErr) : Machine × Ctx :=
  let c := m.nextCtx
  let fresh : CtxState := { err := parent }
  if .stopped ≤ m.state then
    ({ m with
        nextCtx := c + 1
        ctxs := Function.update m.ctxs c { fresh.cancel .canceled with byMachine := true } }, c)
  else
    ({ m with
        nextCtx := c + 1
        ctxs := Function.update m.ctxs c fresh
        cancelers := m.cancelers ++ [c] }, c)

/-- The function returned by `context` beside the context. -/
def release (m : Machine) (c : Ctx) : Machine := { m with cancelers := m.cancelers.erase c }

/-- The parent of the derived context `c` is done with error `e`. -/
def parentDone (m : Machine) (c : Ctx) (e : CtxErr) : Machine :=
  { m with ctxs := Function.update m.ctxs c ((m.ctxs c).cancel e) }

/-! ## The fields after each operation -/

theorem trigger_eq (s : State) (ws : List StateWaiter) :
    trigger s ws = ((ws.filter (·.state ≤ s)).map (·.c), ws.filter (s < ·.state)) := by
  suffices h : ∀ acc : List Chan × List StateWaiter,
      ws.foldl (fun (acc : List Chan × List StateWaiter) w =>
        if w.state ≤ s then (acc.1 ++ [w.c], acc.2) else (acc.1, acc.2 ++ [w])) acc =
      (acc.1 ++ (ws.filter (·.state ≤ s)).map (·.c), acc.2 ++ ws.filter (s < ·.state)) by
    simpa only [trigger, List.nil_append] using h ([], [])
  induction ws with
  | nil => simp
  | cons w ws ih =>
    intro acc
    rw [List.foldl_cons, ih]
    by_cases hw : w.state ≤ s
    · simp [hw, not_lt.mpr hw]
    · simp [hw, not_le.mp hw]

@[simp] theorem wait_chan (m : Machine) (s : State) : (m.wait s).2 = m.nextChan := by
  unfold wait; split <;> rfl

@[simp] theorem wait_nextChan (m : Machine) (s : State) :
    (m.wait s).1.nextChan = m.nextChan + 1 := by
  unfold wait; split <;> rfl

@[simp] theorem wait_state (m : Machine) (s : State) : (m.wait s).1.state = m.state := by
  unfold wait; split <;> rfl

@[simp] theorem wait_err (m : Machine) (s : State) : (m.wait s).1.err = m.err := by
  unfold wait; split <;> rfl

@[simp] theorem wait_history (m : Machine) (s : State) :
    (m.wait s).1.history = m.history := by
  unfold wait; split <;> rfl

@[simp] theorem context_state (m : Machine) (parent : Option CtxErr) :
    (m.context parent).1.state = m.state := by
  unfold context; split <;> rfl

@[simp] theorem context_err (m : Machine) (parent : Option CtxErr) :
    (m.context parent).1.err = m.err := by
  unfold context; split <;> rfl

@[simp] theorem context_history (m : Machine) (parent : Option CtxErr) :
    (m.context parent).1.history = m.history := by
  unfold context; split <;> rfl

@[simp] theorem setState_state (m : Machine) (s : State) : (m.setState s).1.state = s := by
  unfold setState; dsimp only; split <;> rfl

@[simp] theorem setState_err (m : Machine) (s : State) : (m.setState s).1.err = m.err := by
  unfold setState; dsimp only; split <;> rfl

@[simp] theorem setState_history (m : Machine) (s : State) :
    (m.setState s).1.history = m.history ++ [s] := by
  unfold setState; dsimp only; split <;> rfl

@[simp] theorem setState_nextChan (m : Machine) (s : State) :
    (m.setState s).1.nextChan = m.nextChan := by
  unfold setState; dsimp only; split <;> rfl

@[simp] theorem setState_closed (m : Machine) (s : State) :
    (m.setState s).1.closed = m.closed := by
  unfold setState; dsimp only; split <;> rfl

@[simp] theorem setState_nextCtx (m : Machine) (s : State) :
    (m.setState s).1.nextCtx = m.nextCtx := by
  unfold setState; dsimp only; split <;> rfl

@[simp] theorem wait_ctxs (m : Machine) (s : State) : (m.wait s).1.ctxs = m.ctxs := by
  unfold wait; split <;> rfl

@[simp] theorem wait_nextCtx (m : Machine) (s : State) : (m.wait s).1.nextCtx = m.nextCtx := by
  unfold wait; split <;> rfl

@[simp] theorem context_ctx (m : Machine) (parent : Option CtxErr) :
    (m.context parent).2 = m.nextCtx := by
  unfold context; dsimp only; split <;> rfl

@[simp] theorem context_nextCtx (m : Machine) (parent : Option CtxErr) :
    (m.context parent).1.nextCtx = m.nextCtx + 1 := by
  unfold context; dsimp only; split <;> rfl

/-- Older contexts are not touched. -/
theorem context_ctxs_of_lt {m : Machine} (parent : Option CtxErr) {c : Ctx}
    (hc : c < m.nextCtx) : (m.context parent).1.ctxs c = m.ctxs c := by
  unfold context
  dsimp only
  split <;> exact Function.update_of_ne hc.ne _ _

/-- The new context is done from the start only when the parent is done or the machine is
stopped. -/
theorem context_err_new (m : Machine) (parent : Option CtxErr)
    (h : ((m.context parent).1.ctxs m.nextCtx).err ≠ none) :
    parent ≠ none ∨ m.state = .stopped := by
  unfold context at h
  dsimp only at h
  split at h
  · rename_i hs
    exact Or.inr (State.stopped_le_iff.mp hs)
  · exact Or.inl (by simpa using h)

/-- `setState` ends contexts only by stopping the machine, and keeps the error of a
context that is done. -/
theorem setState_ctx_err (m : Machine) (s : State) (c : Ctx) :
    ((m.setState s).1.ctxs c).err = (m.ctxs c).err ∨
      ((m.ctxs c).err = none ∧ s = .stopped) := by
  unfold setState
  dsimp only
  split
  · rename_i hs
    by_cases hc : c ∈ m.cancelers
    · cases he : (m.ctxs c).err with
      | none => exact Or.inr ⟨rfl, State.stopped_le_iff.mp hs⟩
      | some e => simp [cancelAll, hc, he]
    · simp [cancelAll, hc]
  · exact Or.inl rfl

@[simp] theorem setState_waiters (m : Machine) (s : State) :
    (m.setState s).1.waiters = m.waiters.filter (s < ·.state) := by
  unfold setState
  dsimp only
  rw [trigger_eq]
  split <;> rfl

@[simp] theorem setState_triggered (m : Machine) (s : State) :
    (m.setState s).2 = (m.waiters.filter (·.state ≤ s)).map (·.c) := by
  unfold setState
  dsimp only
  rw [trigger_eq]

end Machine

end Bigmachine
