import Bigmachine.Concurrent.CounterTree

/-!
# What the counters of a tree hold

Every task of a run is in one place: finished, or left to a thread (`account_of_steps`). The
counters that threads add to hold, at every moment, the sum over the finished tasks
(`sums_of_steps`): the step that adds is also the one that finishes the task.

A maximum is raised by a read and a write, and another thread can write between them. In the
runs where the write finds what the read has found (`Undisturbed`), the maxima hold the
maximum over the finished tasks, with 0 (`peaks_of_steps`).

Once no thread has anything left, the finished tasks are all the tasks that were given, in
some order, and neither a sum nor a maximum depends on the order.
-/

namespace Bigmachine.Concurrent

open Transition

/-! ## Tasks seen from one counter -/

section Tasks

variable {K V : Type}

def Op.name : Op K V → K
  | .add name _ | .max name _ | .get name _ => name

def Op.val : Op K V → V
  | .add _ val | .max _ val | .get _ val => val

variable [DecidableEq K]

/-- The value that the task adds to the counter `k` at the end of the path `p`, or raises it
to. -/
def Task.value (task : Task K V) (p : List K) (k : K) : Option V :=
  if p = task.path ∧ k = task.op.name then some task.op.val else none

theorem Task.value_eq_some_iff {task : Task K V} {p : List K} {k : K} {x : V} :
    task.value p k = some x ↔ p = task.path ∧ k = task.op.name ∧ x = task.op.val := by
  simp [Task.value, and_assoc, eq_comm (a := x)]

theorem Task.value_eq_none_iff {task : Task K V} {p : List K} {k : K} :
    task.value p k = none ↔ ¬ (p = task.path ∧ k = task.op.name) := by
  simp [Task.value]

def recorded (tasks : List (Task K V)) (p : List K) (k : K) : List V :=
  tasks.filterMap fun task => task.value p k

@[simp] theorem recorded_nil (p : List K) (k : K) :
    recorded ([] : List (Task K V)) p k = [] := rfl

@[simp] theorem recorded_cons (task : Task K V) (tasks : List (Task K V)) (p : List K) (k : K) :
    recorded (task :: tasks) p k = (task.value p k).toList ++ recorded tasks p k := by
  cases h : task.value p k <;> simp [recorded, h]

@[simp] theorem recorded_ite (c : Prop) [Decidable c] (tasks tasks' : List (Task K V))
    (p : List K) (k : K) : recorded (if c then tasks else tasks') p k =
      if c then recorded tasks p k else recorded tasks' p k := by
  split <;> rfl

@[simp] theorem recorded_append (tasks tasks' : List (Task K V)) (p : List K) (k : K) :
    recorded (tasks ++ tasks') p k = recorded tasks p k ++ recorded tasks' p k :=
  List.filterMap_append ..

theorem recorded_flatMap {α : Type} (l : List α) (f : α → List (Task K V)) (p : List K) (k : K) :
    recorded (l.flatMap f) p k = l.flatMap fun a => recorded (f a) p k :=
  List.filterMap_flatMap ..

theorem recorded_perm {tasks tasks' : List (Task K V)} (h : tasks.Perm tasks') (p : List K)
    (k : K) : (recorded tasks p k).Perm (recorded tasks' p k) :=
  h.filterMap _

end Tasks

variable {K V : Type} [DecidableEq K] [AddCommMonoid V] [LinearOrder V] {L : Layout K}

/-! ## Finished and unfinished tasks -/

theorem flatMap_set_perm {α β : Type} {l : List α} {i : Nat} {a : α} (h : l[i]? = some a) (b : α)
    (f : α → List β) : (f a ++ (l.set i b).flatMap f).Perm (f b ++ l.flatMap f) := by
  obtain ⟨hi, rfl⟩ := List.getElem?_eq_some_iff.mp h
  have hset := (List.set_perm_cons_eraseIdx hi b).flatMap_right f
  have hget := (List.getElem_cons_eraseIdx_perm hi).flatMap_right f
  simp only [List.flatMap_cons] at hset hget
  exact (hset.append_left _).trans
    ((List.perm_append_comm_assoc _ _ _).trans (hget.append_left _))

/-- Every task given is finished or left to a thread. -/
def Account (w : World K V) : Prop :=
  (w.done ++ w.threads.flatMap Thread.left).Perm w.log

theorem account_step (w : World K V) (a : Action K V) (w' : World K V)
    (h : Inv L w ∧ Account w) (hok : Given L w a) (hw : system.step w a = some w') :
    Inv L w' ∧ Account w' := by
  refine ⟨inv_step w a w' h.1 hok hw, ?_⟩
  cases a with
  | spawn tasks =>
    cases hw
    have hleft := Thread.left_load hok
    simp only [Account, List.flatMap_append, List.flatMap_singleton, hleft, ← List.append_assoc]
    exact h.2.append_right tasks
  | assign i tasks =>
    simp only [system, step] at hw
    split at hw <;> cases hw
    rename_i hth
    have hset := flatMap_set_perm hth (Thread.load tasks) Thread.left
    rw [Thread.left_load hok] at hset
    -- the thread had nothing left
    have hold : (w.done ++ (w.threads.flatMap Thread.left ++ tasks)).Perm (w.log ++ tasks) := by
      rw [← List.append_assoc]
      exact h.2.append_right tasks
    exact ((hset.trans List.perm_append_comm).append_left w.done).trans hold
  | run i =>
    obtain ⟨th, pc, t', next, hth, hpc, hran, rfl⟩ := ran_of_step h.1 hw
    have hset := flatMap_set_perm hth (th.move next) Thread.left
    have hleft : th.left = pc.task :: th.todo := by simp [Thread.left, hpc]
    rw [hleft] at hset
    cases next with
    | some q =>
      have hleft' : (th.move (some q)).left = pc.task :: th.todo := by
        simp [Thread.left, Thread.move, hran.task_eq]
      rw [hleft'] at hset
      have hsame := (List.perm_append_left_iff _).mp hset
      simpa [Account] using (hsame.append_left w.done).trans h.2
    | none =>
      have hfits := (h.1.threads i th hth).fits
      rw [hleft] at hfits
      have hleft' : (th.move none).left = th.todo :=
        Thread.left_load fun task htask => hfits task (List.mem_cons_of_mem _ htask)
      rw [hleft'] at hset
      have hone := (List.perm_append_left_iff th.todo).mp (List.perm_middle.trans hset)
      simpa [Account] using (hone.append_left w.done).trans h.2

theorem account_of_steps {tr : List (Action K V)} {w : World K V}
    (h : Steps system (Given L) system.init tr w) : Account w :=
  (h.invariant account_step ⟨inv_init, .nil⟩).2

/-- No thread has anything left to do. -/
def World.Quiet (w : World K V) : Prop := ∀ th ∈ w.threads, th.left = []

theorem done_perm_log {tr : List (Action K V)} {w : World K V}
    (h : Steps system (Given L) system.init tr w) (hquiet : w.Quiet) : w.done.Perm w.log := by
  have hnone : w.threads.flatMap Thread.left = [] := List.flatMap_eq_nil_iff.mpr hquiet
  have haccount := account_of_steps h
  rwa [Account, hnone, List.append_nil] at haccount

/-! ## One step seen from one counter -/

/-- The counter that a thread is about to write still holds what the thread has read. -/
def Pc.Still (t : Tree K V) : Pc K V → Prop
  | .set _ n name _ seen => t.vars n name = some (.int seen)
  | _ => True

namespace Ran

variable {t t' : Tree K V} {pc : Pc K V}

theorem count_of_some (h : t.WellFormed L) {q : Pc K V} (hran : Ran L t pc t' (some q))
    (p : List K) (k : K) : t'.count p k = t.count p k := by
  cases hran with
  | look | lock | unlock => rfl
  | make hv hnone => exact Tree.grow_count h hv.1 hnone p k
  | touch hp hleaf =>
    rw [Tree.putInt_count h hp hleaf]
    split
    · rename_i heq
      rw [heq.1, heq.2]
    · rfl

variable {p : List K} {k : K} {x : V}

theorem count_of_other (h : t.WellFormed L) (hran : Ran L t pc t' none)
    (hval : pc.task.value p k = none) : t'.count p k = t.count p k := by
  have hne := Task.value_eq_none_iff.mp hval
  cases hran with
  | add hq hleaf =>
    rw [Tree.putInt_count h hq hleaf]
    exact if_neg fun heq => hne ⟨heq.1.trans (List.append_nil _).symm, heq.2⟩
  | set hq hleaf =>
    rw [Tree.putInt_count h hq hleaf]
    exact if_neg hne
  | reached => rfl

theorem count_of_sum (h : t.WellFormed L) (hran : Ran L t pc t' none) (hk : ¬ L.Maximum k)
    (hval : pc.task.value p k = some x) : t'.count p k = t.count p k + x := by
  obtain ⟨rfl, rfl, rfl⟩ := Task.value_eq_some_iff.mp hval
  cases hran with
  | add hq hleaf =>
    rw [Tree.putInt_count h hq hleaf, if_pos ⟨List.append_nil _, rfl⟩]
    simp [Pc.task, Op.origin, Op.name, Op.val]
  | reached hmax | set _ _ hmax => exact absurd hmax hk

/-- The write of a maximum finds what the read has found. -/
theorem count_of_maximum (h : t.WellFormed L) (hran : Ran L t pc t' none) (hk : L.Maximum k)
    (hstill : pc.Still t) (hval : pc.task.value p k = some x) :
    t'.count p k = max (t.count p k) x := by
  obtain ⟨rfl, rfl, rfl⟩ := Task.value_eq_some_iff.mp hval
  cases hran with
  | add _ _ hsum => exact absurd hk hsum
  | reached _ hle => exact (max_eq_left hle).symm
  | set hq hleaf _ hlt =>
    have hseen := Tree.count_eq_of_int hq hstill
    rw [Tree.putInt_count h hq hleaf, if_pos ⟨rfl, rfl⟩]
    simp only [Pc.task, Op.name, Op.val, hseen]
    exact (max_eq_right hlt.le).symm

end Ran

/-- A step finishes a task, or changes no counter. -/
theorem finishes_or_keeps {w w' : World K V} {a : Action K V} (h : Inv L w)
    (hw : system.step w a = some w') :
    ((∀ p k, w'.tree.count p k = w.tree.count p k) ∧ w'.done = w.done) ∨
    ∃ i th pc, a = .run i ∧ w.threads[i]? = some th ∧ th.pc = some pc ∧
      Ran L w.tree pc w'.tree none ∧ w'.done = w.done ++ [pc.task] := by
  cases a with
  | spawn tasks =>
    cases hw
    exact Or.inl ⟨fun _ _ => rfl, rfl⟩
  | assign i tasks =>
    simp only [system, step] at hw
    split at hw <;> cases hw
    exact Or.inl ⟨fun _ _ => rfl, rfl⟩
  | run i =>
    obtain ⟨th, pc, t', next, hth, hpc, hran, rfl⟩ := ran_of_step h hw
    cases next with
    | some q => exact Or.inl ⟨hran.count_of_some h.tree, List.append_nil _⟩
    | none => exact Or.inr ⟨i, th, pc, rfl, hth, hpc, hran, rfl⟩

/-! ## Sums -/

/-- The counters hold the sums over the finished tasks. -/
def Sums (L : Layout K) (w : World K V) : Prop :=
  ∀ p k, ¬ L.Maximum k → w.tree.count p k = (recorded w.done p k).sum

theorem sums_step (w : World K V) (a : Action K V) (w' : World K V) (h : Inv L w ∧ Sums L w)
    (hok : Given L w a) (hw : system.step w a = some w') : Inv L w' ∧ Sums L w' := by
  refine ⟨inv_step w a w' h.1 hok hw, fun p k hk => ?_⟩
  rcases finishes_or_keeps h.1 hw with ⟨hcount, hdone⟩ | ⟨i, th, pc, -, -, -, hran, hdone⟩
  · rw [hcount, hdone, h.2 p k hk]
  · rw [hdone, recorded_append, List.sum_append, ← h.2 p k hk]
    cases hval : pc.task.value p k with
    | none => simp [hval, hran.count_of_other h.1.tree hval]
    | some x => simp [hval, hran.count_of_sum h.1.tree hk hval]

theorem sums_of_steps {tr : List (Action K V)} {w : World K V}
    (h : Steps system (Given L) system.init tr w) : Sums L w :=
  (h.invariant sums_step ⟨inv_init, fun p k _ => Tree.empty_count p k⟩).2

/-- **Once all threads are done, a counter holds the sum over all tasks.** -/
theorem count_eq_sum {tr : List (Action K V)} {w : World K V}
    (h : Steps system (Given L) system.init tr w) (hquiet : w.Quiet) (p : List K) {k : K}
    (hk : ¬ L.Maximum k) : w.tree.count p k = (recorded w.log p k).sum :=
  (sums_of_steps h p k hk).trans (recorded_perm (done_perm_log h hquiet) p k).sum_eq

/-! ## Maxima -/

instance (t : Tree K V) (pc : Pc K V) : Decidable (pc.Still t) := by
  cases pc <;> unfold Pc.Still <;> infer_instance

/-- A thread that writes a maximum finds in it what it has read. -/
def Undisturbed (w : World K V) : Action K V → Prop
  | .run i => ∀ pc ∈ w.threads[i]?.bind Thread.pc, pc.Still w.tree
  | _ => True

instance (w : World K V) (a : Action K V) : Decidable (Undisturbed w a) := by
  cases a <;> unfold Undisturbed <;> infer_instance

/-- The maxima hold the maximum over the finished tasks. -/
def Peaks (L : Layout K) (w : World K V) : Prop :=
  ∀ p k, L.Maximum k → w.tree.count p k = (recorded w.done p k).foldl max 0

theorem peaks_step (w : World K V) (a : Action K V) (w' : World K V) (h : Inv L w ∧ Peaks L w)
    (hok : Given L w a ∧ Undisturbed w a) (hw : system.step w a = some w') :
    Inv L w' ∧ Peaks L w' := by
  refine ⟨inv_step w a w' h.1 hok.1 hw, fun p k hk => ?_⟩
  rcases finishes_or_keeps h.1 hw with ⟨hcount, hdone⟩ | ⟨i, th, pc, rfl, hth, hpc, hran, hdone⟩
  · rw [hcount, hdone, h.2 p k hk]
  · have hstill : pc.Still w.tree := by simpa [Undisturbed, hth, hpc] using hok.2
    rw [hdone, recorded_append, List.foldl_append, ← h.2 p k hk]
    cases hval : pc.task.value p k with
    | none => simp [hval, hran.count_of_other h.1.tree hval]
    | some x => simp [hval, hran.count_of_maximum h.1.tree hk hstill hval]

theorem peaks_of_steps {tr : List (Action K V)} {w : World K V}
    (h : Steps system (fun w a => Given L w a ∧ Undisturbed w a) system.init tr w) : Peaks L w :=
  (h.invariant peaks_step ⟨inv_init, fun p k _ => Tree.empty_count p k⟩).2

/-- **In an undisturbed run, once all threads are done, a maximum holds the maximum over all
tasks, with 0.** -/
theorem count_eq_max {tr : List (Action K V)} {w : World K V}
    (h : Steps system (fun w a => Given L w a ∧ Undisturbed w a) system.init tr w)
    (hquiet : w.Quiet) (p : List K) {k : K} (hk : L.Maximum k) :
    w.tree.count p k = (recorded w.log p k).foldl max 0 := by
  have hperm := done_perm_log (h.mono fun _ _ hok => hok.1) hquiet
  exact (peaks_of_steps h p k hk).trans ((recorded_perm hperm p k).foldl_eq 0)

end Bigmachine.Concurrent
