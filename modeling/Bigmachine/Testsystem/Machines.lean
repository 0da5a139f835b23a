import Bigmachine.Transition.System

/-!
# The machines of the test system

The test system keeps its live machines in a list behind a mutex. `Start` appends machines and then
wakes everyone who sleeps in `Wait`; `Kill` takes a machine out. `Wait` sleeps until there are as
many machines as it is told, and looks again each time it is woken, since others may have taken the
mutex before it, and machines may be gone.

No wake-up is lost: nobody sleeps while there are enough machines, so whoever waits returns at its
next turn (`waits_return`). It then returns the number that it was told, not the number of machines.

What is done with the mutex held is one step.
-/

namespace Bigmachine.Testsystem

open Transition

abbrev MachineId := Nat

/-- Where a call of `Wait(n)` is: about to take the mutex, in `cond.Wait`, or done, when `live`
machines were there. -/
inductive WaitPc
  | waking
  | sleeping
  | returned (value : Int) (live : Nat)
  deriving DecidableEq, Repr

structure Waiter where
  n : Int
  pc : WaitPc := .waking
  deriving DecidableEq, Repr

structure World where
  machines : List MachineId := []
  started : Nat := 0 -- machines are numbered in the order in which they are made
  killed : List MachineId := []
  waiters : List Waiter := []
  deriving DecidableEq

inductive Action
  | start (count : Nat)
  | kill (m : Option MachineId) (choice : Nat) -- `choice` is the random number
  | wait (n : Int)
  | run (i : Nat)
  deriving DecidableEq, Repr

/-- `cond.Broadcast`. -/
def Waiter.wake (x : Waiter) : Waiter := if x.pc = .sleeping then { x with pc := .waking } else x

def start (w : World) (count : Nat) : World :=
  { w with
    machines := w.machines ++ (List.range count).map (w.started + ·)
    started := w.started + count
    waiters := w.waiters.map Waiter.wake }

/-- `Kill`, and whether it has found the machine. -/
def kill (w : World) (m : Option MachineId) (choice : Nat) : World × Bool :=
  if w.machines = [] then (w, false)
  else
    let m := m.getD (w.machines.getD (choice % w.machines.length) 0)
    if m ∈ w.machines then
      ({ w with machines := w.machines.erase m, killed := w.killed ++ [m] }, true)
    else (w, false)

/-- The loop of `Wait`, from where it has the mutex to where it gives it back. -/
def Waiter.look (x : Waiter) (live : Nat) : Waiter :=
  if (live : Int) < x.n then { x with pc := .sleeping } else { x with pc := .returned x.n live }

def step (w : World) : Action → Option World
  | .start count => some (start w count)
  | .kill m choice => some (kill w m choice).1
  | .wait n => some { w with waiters := w.waiters ++ [{ n }] }
  | .run i => do
    let x ← w.waiters[i]?
    if x.pc = .waking then
      some { w with waiters := w.waiters.set i (x.look w.machines.length) }
    else none

def system : System World Action := ⟨{}, step⟩

/-! ## The machines -/

/-- Every machine is live or was killed, and not both. -/
structure Accounted (w : World) : Prop where
  perm : (w.machines ++ w.killed).Perm (List.range w.started)

theorem Accounted.start {w : World} (h : Accounted w) (count : Nat) :
    Accounted (Testsystem.start w count) := by
  refine ⟨?_⟩
  have hrange : List.range (w.started + count) =
      List.range w.started ++ (List.range count).map (w.started + ·) := List.range_add
  simp only [Testsystem.start, hrange]
  have hswap : (w.machines ++ (List.range count).map (w.started + ·) ++ w.killed).Perm
      (w.machines ++ w.killed ++ (List.range count).map (w.started + ·)) := by
    rw [List.append_assoc, List.append_assoc]
    exact List.perm_append_comm.append_left w.machines
  exact hswap.trans (h.perm.append_right _)

theorem kill_cases (w : World) (m : Option MachineId) (choice : Nat) :
    kill w m choice = (w, false) ∨ ∃ k ∈ w.machines, kill w m choice =
      ({ w with machines := w.machines.erase k, killed := w.killed ++ [k] }, true) := by
  unfold kill
  split
  · exact Or.inl rfl
  · simp only
    split
    · rename_i hmem
      exact Or.inr ⟨_, hmem, rfl⟩
    · exact Or.inl rfl

theorem Accounted.erase {w : World} (h : Accounted w) {k : MachineId} (hk : k ∈ w.machines) :
    Accounted { w with machines := w.machines.erase k, killed := w.killed ++ [k] } := by
  refine ⟨List.Perm.trans ?_ h.perm⟩
  have hfront : (w.machines.erase k ++ (w.killed ++ [k])).Perm
      (k :: w.machines.erase k ++ w.killed) := by
    rw [← List.append_assoc]
    exact List.perm_append_comm
  exact hfront.trans ((List.perm_cons_erase hk).symm.append_right _)

/-! ## The waiters -/

/-- Nobody sleeps while there are enough machines, and whoever has returned had found enough. -/
def Waiter.Fits (live : Nat) (x : Waiter) : Prop :=
  match x.pc with
  | .waking => True
  | .sleeping => (live : Int) < x.n
  | .returned value live' => value = x.n ∧ x.n ≤ live'

theorem Waiter.Fits.mono {live live' : Nat} {x : Waiter} (h : x.Fits live) (hle : live' ≤ live) :
    x.Fits live' := by
  unfold Fits at *
  cases hpc : x.pc with
  | waking => trivial
  | sleeping =>
    rw [hpc] at h
    simp only at h ⊢
    omega
  | returned value n =>
    rw [hpc] at h
    exact h

theorem Waiter.Fits.wake {live : Nat} {x : Waiter} (h : x.Fits live) (live' : Nat) :
    x.wake.Fits live' := by
  unfold Waiter.wake Fits at *
  cases hpc : x.pc with
  | waking => simp [hpc]
  | sleeping => simp
  | returned value n =>
    rw [hpc] at h
    simpa [hpc] using h

theorem Waiter.look_fits (x : Waiter) (live : Nat) : (x.look live).Fits live := by
  by_cases hlive : (live : Int) < x.n
  · rw [Waiter.look, if_pos hlive]
    exact hlive
  · rw [Waiter.look, if_neg hlive]
    exact ⟨rfl, not_lt.mp hlive⟩

structure Inv (w : World) : Prop where
  accounted : Accounted w
  waiters : ∀ x ∈ w.waiters, x.Fits w.machines.length

theorem inv_step {w w' : World} {a : Action} (h : Inv w) (hw : step w a = some w') : Inv w' := by
  cases a with
  | start count =>
    cases hw
    refine ⟨h.accounted.start count, fun x hx => ?_⟩
    obtain ⟨y, hy, rfl⟩ := List.mem_map.mp hx
    exact (h.waiters y hy).wake _
  | kill m choice =>
    cases hw
    rcases kill_cases w m choice with heq | ⟨k, hk, heq⟩
    · rw [heq]
      exact h
    · rw [heq]
      refine ⟨h.accounted.erase hk, fun x hx => (h.waiters x hx).mono ?_⟩
      exact List.length_erase_le
  | wait n =>
    cases hw
    refine ⟨⟨h.accounted.perm⟩, fun x hx => ?_⟩
    rcases List.mem_append.mp hx with hx | hx
    · exact h.waiters x hx
    · rw [List.mem_singleton.mp hx]
      trivial
  | run i =>
    simp only [step, Option.bind_eq_bind, Option.bind_eq_some_iff] at hw
    obtain ⟨x, hx, hw⟩ := hw
    split at hw
    · cases hw
      refine ⟨⟨h.accounted.perm⟩, fun y hy => ?_⟩
      rcases List.mem_or_eq_of_mem_set hy with hy | rfl
      · exact h.waiters y hy
      · exact x.look_fits _
    · cases hw

theorem inv_init : Inv system.init :=
  ⟨⟨List.Perm.refl _⟩, fun x hx => by cases hx⟩

/-- **No wake-up is lost.** Whatever machines are started and killed and whoever waits, in any
order: the live machines are those that were started and not killed. A call of `Wait(n)` that has
returned has returned `n`, and has found as many machines at least. While there are as many, a call
that has not returned is awake, and returns when it is its turn. -/
theorem waits_return (tr : List Action) (w : World) (h : Steps system Always system.init tr w) :
    (w.machines ++ w.killed).Perm (List.range w.started) ∧
    ∀ (i : Nat) x, w.waiters[i]? = some x →
      (∃ live, x.pc = .returned x.n live ∧ x.n ≤ live) ∨
      (w.machines.length < x.n ∧ (x.pc = .sleeping ∨ x.pc = .waking)) ∨
      (x.n ≤ w.machines.length ∧ ∃ w', step w (.run i) = some w' ∧
        w'.waiters[i]? = some { x with pc := .returned x.n w.machines.length }) := by
  have hinv : Inv w := h.invariant (I := Inv) (fun _ _ _ hi _ hstep => inv_step hi hstep) inv_init
  refine ⟨hinv.accounted.perm, fun i x hx => ?_⟩
  have hfits := hinv.waiters x (List.mem_of_getElem? hx)
  unfold Waiter.Fits at hfits
  cases hpc : x.pc with
  | returned value live =>
    rw [hpc] at hfits
    obtain ⟨rfl, hle⟩ := hfits
    exact Or.inl ⟨live, rfl, hle⟩
  | sleeping =>
    rw [hpc] at hfits
    exact Or.inr (Or.inl ⟨hfits, Or.inl rfl⟩)
  | waking =>
    rcases lt_or_ge (w.machines.length : Int) x.n with hlt | hge
    · exact Or.inr (Or.inl ⟨hlt, Or.inr rfl⟩)
    · have hstep : step w (.run i) =
          some { w with waiters := w.waiters.set i (x.look w.machines.length) } := by
        simp only [step, hx, hpc, Option.bind_eq_bind, Option.bind_some, if_true]
      refine Or.inr (Or.inr ⟨hge, _, hstep, ?_⟩)
      have hlt : i < w.waiters.length := (List.getElem?_eq_some_iff.mp hx).1
      rw [List.getElem?_set_self hlt, Waiter.look, if_neg (not_lt.mpr hge)]

/-- One machine is killed before the call that it has woken is back. -/
theorem waits_return_killed :
    ∃ w, Steps system Always system.init
        [.start 1, .wait 2, .wait 1, .run 0, .run 1, .start 1, .kill none 0, .run 0, .start 2] w ∧
      w.machines = [1, 2, 3] ∧
      w.waiters = [⟨2, .waking⟩, ⟨1, .returned 1 1⟩] ∧
      ∃ w', step w (.run 0) = some w' ∧ w'.waiters[0]? = some ⟨2, .returned 2 3⟩ := by
  obtain ⟨w, hw, hmachines, hwaiters⟩ := exists_steps system Always system.init
    [.start 1, .wait 2, .wait 1, .run 0, .run 1, .start 1, .kill none 0, .run 0, .start 2]
    (fun w => w.machines = [1, 2, 3] ∧ w.waiters = [⟨2, .waking⟩, ⟨1, .returned 1 1⟩])
    (by decide +kernel)
  refine ⟨w, hw, hmachines, hwaiters, ?_⟩
  have hx : w.waiters[0]? = some ⟨2, .waking⟩ := by rw [hwaiters]; rfl
  rcases (waits_return _ w hw).2 0 _ hx with ⟨live, hpc, -⟩ | ⟨hlt, -⟩ | ⟨-, hrun⟩
  · cases hpc
  · rw [hmachines] at hlt
    exact absurd hlt (by decide)
  · rw [hmachines] at hrun
    exact hrun

end Bigmachine.Testsystem
