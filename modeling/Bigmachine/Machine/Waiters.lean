import Bigmachine.Machine.State
import Bigmachine.Transition.System
import Bigmachine.Transition.Pool

/-!
# Waiters: no lost and no double wake-up

`Wait(s)` registers a channel, `setState(s')` closes the channels whose target is
reached. The waiter list changes under `m.mu`, the `close` calls of `setState` come
later, one by one, while other goroutines call `Wait` and `setState` again. The system
below has any number of such calls with arbitrary states, also decreasing ones.

Every channel is in exactly one place: with a waiter, with a `setState` call that has
still to close it, or closed (`Accounted`, an equation of multisets). A waiter that is
left in the list has a target above the current state (`Pending`). So a channel is closed
at most once (`Accounted.closed_nodup`), and along a run it is registered until its target
is reached and triggered from then on (`run_registered`); `wait_channels` puts this
together.
-/

namespace Bigmachine.Machine.Waiters

open Transition

/-- `calls` are the `setState` calls past their locked section, each with the channels
it has still to close. -/
structure Waiting where
  m : Machine := {}
  calls : Pool Chan := []

/-- In `close` the `i`-th call of `setState` closes its next channel; in `finish`, with no channel
left, it returns. -/
inductive Action
  | wait (s : State)
  | setState (s : State)
  | close (i : Nat)
  | finish (i : Nat)
  deriving DecidableEq, Repr

def step (w : Waiting) : Action → Option Waiting
  | .wait s => some { w with m := (w.m.wait s).1 }
  | .setState s =>
    some { m := (w.m.setState s).1, calls := w.calls ++ [(w.m.setState s).2] }
  | .close i => (w.calls.pop i).map fun (c, calls) => { m := w.m.close c, calls := calls }
  | .finish i => (w.calls.retire i).map fun calls => { w with calls := calls }

def system : System Waiting Action := ⟨{}, step⟩

theorem step_cases {w w' : Waiting} {a : Action} (h : step w a = some w') :
    (∃ s, a = .wait s ∧ w' = { w with m := (w.m.wait s).1 }) ∨
    (∃ s, a = .setState s ∧
      w' = { m := (w.m.setState s).1, calls := w.calls ++ [(w.m.setState s).2] }) ∨
    (∃ i c calls, a = .close i ∧ w.calls.pop i = some (c, calls) ∧
      w' = { m := w.m.close c, calls := calls }) ∨
    (∃ i calls, a = .finish i ∧ w.calls.retire i = some calls ∧
      w' = { w with calls := calls }) := by
  cases a with
  | wait s => exact Or.inl ⟨s, rfl, (Option.some.inj h).symm⟩
  | setState s => exact Or.inr (Or.inl ⟨s, rfl, (Option.some.inj h).symm⟩)
  | close i =>
    obtain ⟨⟨c, calls⟩, hp, rfl⟩ := Option.map_eq_some_iff.mp h
    exact Or.inr (Or.inr (Or.inl ⟨i, c, calls, rfl, hp, rfl⟩))
  | finish i =>
    obtain ⟨calls, hp, rfl⟩ := Option.map_eq_some_iff.mp h
    exact Or.inr (Or.inr (Or.inr ⟨i, calls, rfl, hp, rfl⟩))

/-! ## The invariant -/

/-- Every channel made so far is in exactly one place. -/
def Accounted (w : Waiting) : Prop :=
  ((w.m.waiters.map (·.c) : List Chan) : Multiset Chan) + (w.calls.flatten : Multiset Chan) +
    (w.m.closed : Multiset Chan) = Multiset.range w.m.nextChan

/-- The targets of the waiters are above the current state. -/
def Pending (w : Waiting) : Prop := ∀ x ∈ w.m.waiters, w.m.state < x.state

/-- Triggered and kept channels together are the channels of the old waiters. -/
theorem triggered_add_kept (s : State) (ws : List StateWaiter) :
    (((ws.filter (·.state ≤ s)).map (·.c) : List Chan) : Multiset Chan) +
      (((ws.filter (s < ·.state)).map (·.c) : List Chan) : Multiset Chan) =
    ((ws.map (·.c) : List Chan) : Multiset Chan) := by
  induction ws with
  | nil => rfl
  | cons w ws ih =>
    rw [List.map_cons, ← Multiset.cons_coe, ← ih]
    by_cases hw : w.state ≤ s
    · simp [hw, not_lt.mpr hw, ← Multiset.cons_coe]
    · simp [hw, not_le.mp hw, ← Multiset.cons_coe]

theorem accounted_wait {w : Waiting} (h : Accounted w) (s : State) :
    Accounted { w with m := (w.m.wait s).1 } := by
  unfold Accounted at h ⊢
  rw [wait_nextChan, Multiset.range_succ, ← h]
  unfold wait
  split
  · simp only [← Multiset.coe_add, Multiset.coe_singleton, ← Multiset.singleton_add]
    abel
  · simp only [List.map_append, List.map_cons, List.map_nil, ← Multiset.coe_add,
      Multiset.coe_singleton, ← Multiset.singleton_add]
    abel

theorem accounted_setState {w : Waiting} (h : Accounted w) (s : State) :
    Accounted { m := (w.m.setState s).1, calls := w.calls ++ [(w.m.setState s).2] } := by
  unfold Accounted at h ⊢
  simp only [setState_waiters, setState_triggered, setState_closed, setState_nextChan,
    List.flatten_append, List.flatten_singleton, ← Multiset.coe_add]
  rw [← h, ← triggered_add_kept s w.m.waiters]
  abel

theorem accounted_close {w : Waiting} (h : Accounted w) {i : Nat} {c : Chan} {calls : Pool Chan}
    (hp : w.calls.pop i = some (c, calls)) : Accounted { m := w.m.close c, calls := calls } := by
  unfold Accounted at h ⊢
  have hitems := Pool.pop_items hp
  simp only [close, ← Multiset.coe_add, Multiset.coe_singleton]
  rw [← h, hitems, ← Multiset.singleton_add]
  abel

theorem step_accounted {w w' : Waiting} {a : Action} (h : step w a = some w')
    (hw : Accounted w) : Accounted w' := by
  obtain ⟨s, -, rfl⟩ | ⟨s, -, rfl⟩ | ⟨i, c, calls, -, hp, rfl⟩ | ⟨i, calls, -, hp, rfl⟩ :=
    step_cases h
  · exact accounted_wait hw s
  · exact accounted_setState hw s
  · exact accounted_close hw hp
  · simpa only [Accounted, Pool.retire_items hp] using hw

theorem step_pending {w w' : Waiting} {a : Action} (h : step w a = some w')
    (hw : Pending w) : Pending w' := by
  obtain ⟨s, -, rfl⟩ | ⟨s, -, rfl⟩ | ⟨i, c, calls, -, -, rfl⟩ | ⟨i, calls, -, -, rfl⟩ :=
    step_cases h
  · intro x hx
    rw [wait_state]
    unfold wait at hx
    split at hx
    · exact hw x hx
    · rename_i hs
      rcases List.mem_append.mp hx with hx | hx
      · exact hw x hx
      · have hnew : x = ⟨w.m.nextChan, s⟩ := List.mem_singleton.mp hx
        rw [hnew]
        exact not_le.mp hs
  · intro x hx
    rw [setState_waiters] at hx
    rw [setState_state]
    have hkept := (List.mem_filter.mp hx).2
    simpa using hkept
  · exact hw
  · exact hw

theorem reachable_invariant {tr : List Action} {w : Waiting}
    (h : Steps system Always system.init tr w) : Accounted w ∧ Pending w :=
  h.invariant (I := fun w => Accounted w ∧ Pending w)
    (fun _ _ _ hw _ hs => ⟨step_accounted hs hw.1, step_pending hs hw.2⟩)
    ⟨rfl, fun _ hx => by cases hx⟩

theorem Accounted.closed_nodup {w : Waiting} (h : Accounted w) : w.m.closed.Nodup := by
  have hle : (w.m.closed : Multiset Chan) ≤ Multiset.range w.m.nextChan := by
    rw [← h]
    exact Multiset.le_add_left _ _
  have hnodup := Multiset.nodup_of_le hle (Multiset.nodup_range _)
  exact Multiset.coe_nodup.mp hnodup

theorem Accounted.not_closed_of_waiter {w : Waiting} (h : Accounted w) {x : StateWaiter}
    (hx : x ∈ w.m.waiters) : x.c ∉ w.m.closed := by
  intro hc
  have hnodup : (((w.m.waiters.map (·.c) : List Chan) : Multiset Chan) +
      (w.calls.flatten : Multiset Chan) + (w.m.closed : Multiset Chan)).Nodup := by
    rw [h]
    exact Multiset.nodup_range _
  have hdisj := (Multiset.nodup_add.mp hnodup).2.2
  have hwaiting : x.c ∈ ((w.m.waiters.map (·.c) : List Chan) : Multiset Chan) +
      (w.calls.flatten : Multiset Chan) :=
    Multiset.mem_add.mpr (Or.inl (Multiset.mem_coe.mpr (List.mem_map_of_mem hx)))
  exact Multiset.disjoint_left.mp hdisj hwaiting (Multiset.mem_coe.mpr hc)

theorem Accounted.waiter_unique {w : Waiting} (h : Accounted w) {x y : StateWaiter}
    (hx : x ∈ w.m.waiters) (hy : y ∈ w.m.waiters) (hxy : x.c = y.c) : x = y := by
  have hle : ((w.m.waiters.map (·.c) : List Chan) : Multiset Chan) ≤
      Multiset.range w.m.nextChan := by
    rw [← h, add_assoc]
    exact Multiset.le_add_right _ _
  have hnodup : (w.m.waiters.map (·.c)).Nodup :=
    Multiset.coe_nodup.mp (Multiset.nodup_of_le hle (Multiset.nodup_range _))
  exact List.inj_on_of_nodup_map hnodup hx hy hxy

/-! ## One channel along a run -/

/-- The channel `c` with target `s` is still with its waiter. -/
def Registered (c : Chan) (s : State) (w : Waiting) : Prop := ⟨c, s⟩ ∈ w.m.waiters

/-- The channel `c` exists and is with no waiter any more. -/
def Triggered (c : Chan) (w : Waiting) : Prop :=
  c < w.m.nextChan ∧ ∀ x ∈ w.m.waiters, x.c ≠ c

/-- The target `s` is reached. -/
def Reached (s : State) (w : Waiting) : Prop := s ≤ w.m.state

theorem step_triggered {c : Chan} {w w' : Waiting} {a : Action} (h : step w a = some w')
    (hw : Triggered c w) : Triggered c w' := by
  obtain ⟨hc, hne⟩ := hw
  obtain ⟨s, -, rfl⟩ | ⟨s, -, rfl⟩ | ⟨i, c', calls, -, -, rfl⟩ | ⟨i, calls, -, -, rfl⟩ :=
    step_cases h
  · refine ⟨by rw [wait_nextChan]; exact Nat.lt_succ_of_lt hc, ?_⟩
    intro x hx
    unfold wait at hx
    split at hx
    · exact hne x hx
    · rcases List.mem_append.mp hx with hx | hx
      · exact hne x hx
      · have hnew : x = ⟨w.m.nextChan, s⟩ := List.mem_singleton.mp hx
        rw [hnew]
        exact Nat.ne_of_gt hc
  · refine ⟨by rw [setState_nextChan]; exact hc, ?_⟩
    intro x hx
    rw [setState_waiters] at hx
    exact hne x (List.mem_filter.mp hx).1
  · exact ⟨hc, hne⟩
  · exact ⟨hc, hne⟩

/-- A step keeps a registered channel registered, or reaches its target and triggers it. -/
theorem step_registered {c : Chan} {s : State} {w w' : Waiting} {a : Action}
    (h : step w a = some w') (hacc : Accounted w) (hw : Registered c s w) :
    Registered c s w' ∨ (Triggered c w' ∧ Reached s w') := by
  have hlt : c < w.m.nextChan := by
    have hmem : c ∈ Multiset.range w.m.nextChan := by
      rw [← hacc]
      simp only [Multiset.mem_add, Multiset.mem_coe]
      exact Or.inl (Or.inl (List.mem_map.mpr ⟨_, hw, rfl⟩))
    exact Multiset.mem_range.mp hmem
  obtain ⟨s', -, rfl⟩ | ⟨s', -, rfl⟩ | ⟨i, c', calls, -, -, rfl⟩ | ⟨i, calls, -, -, rfl⟩ :=
    step_cases h
  · left
    unfold Registered wait
    split
    · exact hw
    · exact List.mem_append_left _ hw
  · by_cases hs : s ≤ s'
    · right
      have hreached : Reached s ⟨(w.m.setState s').1, w.calls ++ [(w.m.setState s').2]⟩ := by
        rw [Reached, setState_state]
        exact hs
      refine ⟨⟨by rw [setState_nextChan]; exact hlt, ?_⟩, hreached⟩
      intro x hx hxc
      rw [setState_waiters] at hx
      obtain ⟨hx, hxs⟩ := List.mem_filter.mp hx
      have hsame : x = ⟨c, s⟩ := hacc.waiter_unique hx hw hxc
      have habove : s' < x.state := by simpa using hxs
      rw [hsame] at habove
      exact absurd hs (not_le.mpr habove)
    · left
      rw [Registered, setState_waiters]
      exact List.mem_filter.mpr ⟨hw, by simpa using not_le.mp hs⟩
  · exact Or.inl hw
  · exact Or.inl hw

/-- Along a run from a state where `c` is registered with target `s`: either the target
was never reached and `c` is registered still, or it was and `c` is triggered. -/
theorem run_registered {c : Chan} {s : State} {w w' : Waiting} {tr : List Action}
    (h : Steps system Always w tr w') (hacc : Accounted w) (hpend : Pending w)
    (hw : Registered c s w) :
    (¬ Passes system Always (Reached s) w tr w' ∧ Registered c s w') ∨
      (Passes system Always (Reached s) w tr w' ∧ Triggered c w') := by
  induction h with
  | nil w =>
    left
    rw [passes_nil_iff]
    exact ⟨not_le.mpr (hpend _ hw), hw⟩
  | cons guard hstep rest ih =>
    have hnot : ¬ Reached s _ := not_le.mpr (hpend _ hw)
    rw [passes_cons_iff guard hstep rest, or_iff_right hnot]
    rcases step_registered hstep hacc hw with hw' | ⟨hw', hr⟩
    · exact ih (step_accounted hstep hacc) (step_pending hstep hpend) hw'
    · right
      have hend : Triggered c _ :=
        rest.invariant (I := Triggered c) (fun _ _ _ hi _ hs => step_triggered hs hi) hw'
      exact ⟨passes_of_start rest hr, hend⟩

theorem wait_registers {w : Waiting} (hacc : Accounted w) (s : State) :
    let w' : Waiting := { w with m := (w.m.wait s).1 }
    (Reached s w' ∧ Triggered w.m.nextChan w') ∨ Registered w.m.nextChan s w' := by
  intro w'
  by_cases hs : s ≤ w.m.state
  · left
    have hmem : w.m.nextChan ∈ (w.m.wait s).1.closed := by simp [wait, hs]
    have hreached : Reached s w' := by
      rw [Reached, wait_state]
      exact hs
    refine ⟨hreached, by rw [wait_nextChan]; exact Nat.lt_succ_self _, ?_⟩
    intro x hx hxc
    have hopen := (accounted_wait hacc s).not_closed_of_waiter hx
    rw [hxc] at hopen
    exact hopen hmem
  · right
    simp [w', Registered, wait, hs]

theorem Accounted.closed_of_triggered {w : Waiting} (h : Accounted w) (hidle : w.calls = [])
    {c : Chan} (hc : Triggered c w) : c ∈ w.m.closed := by
  have hmem : c ∈ Multiset.range w.m.nextChan := Multiset.mem_range.mpr hc.1
  rw [← h, hidle] at hmem
  simp only [List.flatten_nil, Multiset.mem_add, Multiset.mem_coe, List.not_mem_nil,
    or_false] at hmem
  rcases hmem with hmem | hmem
  · obtain ⟨x, hx, hxc⟩ := List.mem_map.mp hmem
    exact absurd hxc (hc.2 x hx)
  · exact hmem

/-- **No lost and no double wake-up.** In every run, every channel is closed at most
once and the waiters that remain have targets above the current state. For every `Wait(s)`
in the run, its channel is closed only if the state was at least `s` at some moment from
that `Wait` on; and when no `setState` call is in progress, it is closed if the state was
at least `s` at some such moment. -/
theorem wait_channels {tr : List Action} {w : Waiting}
    (h : Steps system Always system.init tr w) :
    w.m.closed.Nodup ∧ (∀ x ∈ w.m.waiters, w.m.state < x.state) ∧
    ∀ tr₁ tr₂ w₁ w₂ s, tr = tr₁ ++ .wait s :: tr₂ → Steps system Always system.init tr₁ w₁ →
      system.step w₁ (.wait s) = some w₂ → Steps system Always w₂ tr₂ w →
      ((w₁.m.wait s).2 ∈ w.m.closed → Passes system Always (Reached s) w₂ tr₂ w) ∧
      (w.calls = [] → Passes system Always (Reached s) w₂ tr₂ w →
        (w₁.m.wait s).2 ∈ w.m.closed) := by
  obtain ⟨hacc, hpend⟩ := reachable_invariant h
  refine ⟨hacc.closed_nodup, hpend, ?_⟩
  intro tr₁ tr₂ w₁ w₂ s _ h₁ hstep h₂
  have hw₁ : Accounted w₁ := (reachable_invariant h₁).1
  have hw₂ : Accounted w₂ ∧ Pending w₂ :=
    reachable_invariant (h₁.append (.single trivial hstep))
  cases hstep
  rw [wait_chan]
  rcases wait_registers hw₁ s with ⟨hr, ht⟩ | hreg
  · have ht' : Triggered w₁.m.nextChan w :=
      h₂.invariant (I := Triggered w₁.m.nextChan) (fun _ _ _ hi _ hs => step_triggered hs hi) ht
    exact ⟨fun _ => passes_of_start h₂ hr, fun hidle _ => hacc.closed_of_triggered hidle ht'⟩
  · rcases run_registered h₂ hw₂.1 hw₂.2 hreg with ⟨hnot, hreg'⟩ | ⟨hpass, ht'⟩
    · have hopen := hacc.not_closed_of_waiter hreg'
      exact ⟨fun hc => absurd hc hopen, fun _ hp => absurd hp hnot⟩
    · exact ⟨fun _ => hpass, fun hidle _ => hacc.closed_of_triggered hidle ht'⟩

/-- One waiter for `Running`; the machine goes to `Starting` and then to `Running`. -/
def bootRun : List Action :=
  [.wait .running, .setState .starting, .finish 0, .setState .running, .close 0, .finish 0]

theorem wait_channels_bootRun :
    ∃ w, Steps system Always system.init bootRun w ∧ w.calls = [] ∧ w.m.closed.Nodup ∧
      0 ∈ w.m.closed := by
  obtain ⟨w₁, w₂, h₁, h₂, hw₁, hidle⟩ := exists_steps_twice system Always system.init
    [.wait .running] bootRun.tail (fun w => w.m.nextChan = 1)
    (fun w => w.calls = [] ∧ .running ≤ w.m.state) (by decide)
  have hrun : Steps system Always system.init bootRun w₂ := h₁.append h₂
  obtain ⟨hnodup, -, hwait⟩ := wait_channels hrun
  cases h₁ with
  | cons _ hstep rest =>
    cases rest
    refine ⟨w₂, hrun, hidle.1, hnodup, ?_⟩
    refine (hwait [] bootRun.tail system.init w₁ .running rfl (.nil _) hstep h₂).2 hidle.1 ?_
    exact ⟨bootRun.tail, [], w₂, (List.append_nil _).symm, h₂, .nil _, hidle.2⟩

end Bigmachine.Machine.Waiters
