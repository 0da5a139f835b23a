import Bigmachine.Concurrent.Tree
import Bigmachine.Transition.System

/-!
# Trees of counters grown by concurrent threads

Threads walk from the root of a tree along the names of a path, making the nodes that are
missing by double-checked locking, and then add to a counter or raise it to a maximum. Every
map operation, every mutex operation and every access to a counter is one step, and the steps
of any number of threads interleave. `pre` in the phases of a thread is a ghost: the names it
has walked so far.

When the tasks fit a layout, a mutex keeps all but one thread out of the making of a node
(`Inv.excl`), so the child that the holder has not found is still missing when it makes it
(`Pc.Sound` for `make`): a node is made once. Then every step is a `Tree.Change`, and two
walks along the same names, at any two moments of a run, are at the same node
(`walks_agree`).
-/

namespace Bigmachine.Concurrent

open Transition

/-! ## Threads -/

/-- What is done at the end of a path. `max` raises a counter to at least `val`: it makes sure
that the counter is there, and walks the path a second time to get it (`get`). -/
inductive Op (K V : Type)
  | add (name : K) (delta : V)
  | max (name : K) (val : V)
  | get (name : K) (val : V)
  deriving DecidableEq, Repr

structure Task (K V : Type) where
  path : List K
  op : Op K V
  deriving DecidableEq, Repr

/-- A thread at `node`, which the names `pre` lead to, on its way to the child `name`. -/
structure Visit (K V : Type) where
  pre : List K
  node : Nat
  name : K
  names : List K
  op : Op K V
  deriving DecidableEq, Repr

/-- Where a thread is in its current task. When the first look finds no child, the thread takes the
mutex of the node (`lock`), looks again while it holds it (`check`), and makes the child if there
still is none (`make`). An addition first reads the counter (`value`) and then writes what it has
computed from the value `seen` (`set`). -/
inductive Pc (K V : Type)
  | walk (pre : List K) (node : Nat) (names : List K) (op : Op K V)
  | lock (v : Visit K V)
  | check (v : Visit K V)
  | make (v : Visit K V)
  | unlock (v : Visit K V) (child : Nat)
  | value (path : List K) (node : Nat) (name : K) (val : V)
  | set (path : List K) (node : Nat) (name : K) (val seen : V)
  deriving DecidableEq, Repr

structure Thread (K V : Type) where
  pc : Option (Pc K V) := none
  todo : List (Task K V) := []
  deriving DecidableEq, Repr

/-- `log` and `done` are ghost fields: the tasks given to threads, and those of them that are
finished, in the order in which they were. -/
structure World (K V : Type) where
  tree : Tree K V := {}
  threads : List (Thread K V) := []
  log : List (Task K V) := []
  done : List (Task K V) := []

/-- Tasks are assigned to a new thread, or to one that has nothing to do; `run` is one step of the
`i`-th thread. -/
inductive Action (K V : Type)
  | spawn (tasks : List (Task K V))
  | assign (i : Nat) (tasks : List (Task K V))
  | run (i : Nat)
  deriving DecidableEq, Repr

section Phases

variable {K V : Type}

/-- The operation that a task is given with. -/
def Op.origin : Op K V → Op K V
  | .get name val => .max name val
  | op => op

def Visit.path (v : Visit K V) : List K := v.pre ++ v.name :: v.names

namespace Pc

/-- The task that a thread is at. -/
def task : Pc K V → Task K V
  | .walk pre _ names op => ⟨pre ++ names, op.origin⟩
  | .lock v | .check v | .make v | .unlock v _ => ⟨v.path, v.op.origin⟩
  | .value path _ name val | .set path _ name val _ => ⟨path, .max name val⟩

/-- The node whose mutex the thread holds. -/
def holds : Pc K V → Option Nat
  | .check v | .make v | .unlock v _ => some v.node
  | _ => none

end Pc

namespace Thread

/-- A thread at the start of its first task. -/
def load : List (Task K V) → Thread K V
  | [] => {}
  | task :: todo => { pc := some (.walk [] 0 task.path task.op), todo := todo }

/-- The thread goes on to the phase `next` of its task, or to its next task. -/
def move (th : Thread K V) : Option (Pc K V) → Thread K V
  | some pc => { th with pc := some pc }
  | none => load th.todo

/-- The tasks that the thread has not finished. -/
def left (th : Thread K V) : List (Task K V) := (th.pc.map Pc.task).toList ++ th.todo

/-- The node whose mutex the thread holds. -/
def holds (th : Thread K V) : Option Nat := th.pc.bind Pc.holds

end Thread

end Phases

section Machine

variable {K V : Type} [DecidableEq K] [AddCommMonoid V] [LinearOrder V]

namespace Tree

/-- One step of a thread in phase `pc`: the tree after it, and the next phase, if the task is
not finished. A locked mutex blocks. -/
def run (t : Tree K V) : Pc K V → Option (Tree K V × Option (Pc K V))
  | .walk pre n (name :: names) op =>
    match t.vars n name with
    | some (.node c) => some (t, some (.walk (pre ++ [name]) c names op))
    | _ => some (t, some (.lock ⟨pre, n, name, names, op⟩))
  | .walk _ n [] (.add name delta) => some (t.add n name delta, none)
  | .walk pre n [] (.max name val) =>
    some (t.add n name 0, some (.walk [] 0 pre (.get name val)))
  | .walk pre n [] (.get name val) =>
    match t.vars n name with
    | some (.int _) => some (t, some (.value pre n name val))
    | _ => some (t, none)
  | .lock v =>
    if t.mu v.node then none
    else some ({ t with mu := Function.update t.mu v.node true }, some (.check v))
  | .check v =>
    match t.vars v.node v.name with
    | some (.node c) => some (t, some (.unlock v c))
    | _ => some (t, some (.make v))
  | .make v => some (t.grow v.node v.name, some (.unlock v t.next))
  | .unlock v c =>
    some ({ t with mu := Function.update t.mu v.node false },
      some (.walk (v.pre ++ [v.name]) c v.names v.op))
  | .value path n name val =>
    match t.vars n name with
    | some (.int seen) =>
      if seen < val then some (t, some (.set path n name val seen)) else some (t, none)
    | _ => some (t, none)
  | .set _ n name val _ => some (t.put n name (.int val), none)

end Tree

/-- One step of a thread: the tree, the thread and the tasks finished by it. -/
def Thread.run (t : Tree K V) (th : Thread K V) :
    Option (Tree K V × Thread K V × List (Task K V)) :=
  match th.pc with
  | none => none
  | some pc => (t.run pc).map fun (t', next) =>
    (t', th.move next, if next.isSome then [] else [pc.task])

def step (w : World K V) : Action K V → Option (World K V)
  | .spawn tasks =>
    some { w with threads := w.threads ++ [Thread.load tasks], log := w.log ++ tasks }
  | .assign i tasks =>
    match w.threads[i]? with
    | some ⟨none, []⟩ =>
      some { w with threads := w.threads.set i (Thread.load tasks), log := w.log ++ tasks }
    | _ => none
  | .run i =>
    match w.threads[i]? with
    | none => none
    | some th =>
      (th.run w.tree).map fun (t, th', finished) =>
        { w with tree := t, threads := w.threads.set i th', done := w.done ++ finished }

def system : System (World K V) (Action K V) := ⟨{}, step⟩

end Machine

/-! ## What holds in each phase -/

section Sound

variable {K V : Type} {t t' : Tree K V}

/-- Maxima are raised, other counters are added to. -/
def Layout.Fits (L : Layout K) (task : Task K V) : Prop :=
  L.Leaf task.path ∧
    match task.op with
    | .add name _ => ¬ L.Maximum name
    | .max name _ => L.Maximum name
    | .get _ _ => False

/-- The counter that a thread is about to get is there. -/
def Op.Ready (t : Tree K V) (path : List K) : Op K V → Prop
  | .get name _ => ∃ n x, t.resolve path = some n ∧ t.vars n name = some (.int x)
  | _ => True

/-- The thread is where its ghost says. -/
def Visit.At (t : Tree K V) (v : Visit K V) : Prop :=
  t.resolve v.pre = some v.node ∧ v.op.Ready t v.path

/-- What holds of the tree while a thread is in phase `pc`. -/
def Pc.Sound [LT V] (t : Tree K V) : Pc K V → Prop
  | .walk pre n names op => t.resolve pre = some n ∧ op.Ready t (pre ++ names)
  | .lock v | .check v => v.At t
  | .make v => v.At t ∧ t.vars v.node v.name = none
  | .unlock v c => v.At t ∧ t.vars v.node v.name = some (.node c)
  | .value path n name _ => t.resolve path = some n ∧ ∃ x, t.vars n name = some (.int x)
  | .set path n name val seen =>
    t.resolve path = some n ∧ (∃ x, t.vars n name = some (.int x)) ∧ seen < val

theorem Op.Ready.mono (hk : t.Keeps t') {path : List K} {op : Op K V} (h : op.Ready t path) :
    op.Ready t' path := by
  cases op with
  | add name delta => trivial
  | max name val => trivial
  | get name val =>
    obtain ⟨n, x, hn, hx⟩ := h
    obtain ⟨y, hy⟩ := hk.counter n name x hx
    exact ⟨n, y, hk.resolve hn, hy⟩

theorem Visit.At.mono (hk : t.Keeps t') {v : Visit K V} (h : v.At t) : v.At t' :=
  ⟨hk.resolve h.1, h.2.mono hk⟩

/-- Only a thread that is about to make a node depends on something that a change can undo. -/
theorem Pc.Sound.mono [LT V] (hk : t.Keeps t') {pc : Pc K V} (h : pc.Sound t)
    (hmake : ∀ v, pc = .make v → t'.vars v.node v.name = none) : pc.Sound t' := by
  have hcounter : ∀ n k, (∃ x, t.vars n k = some (.int x)) → ∃ x, t'.vars n k = some (.int x) :=
    fun n k ⟨x, hx⟩ => hk.counter n k x hx
  cases pc with
  | walk pre n names op => exact ⟨hk.resolve h.1, h.2.mono hk⟩
  | lock v => exact Visit.At.mono hk h
  | check v => exact Visit.At.mono hk h
  | make v => exact ⟨h.1.mono hk, hmake v rfl⟩
  | unlock v c => exact ⟨h.1.mono hk, hk.child _ _ _ h.2⟩
  | value path n name val => exact ⟨hk.resolve h.1, hcounter _ _ h.2⟩
  | set path n name val seen => exact ⟨hk.resolve h.1, hcounter _ _ h.2.1, h.2.2⟩

variable {L : Layout K}

/-- On the way to a leaf, an entry that is not a child is missing. -/
theorem none_of_not_node (h : t.WellFormed L) {v : Visit K V} (hv : v.At t)
    (hleaf : L.Leaf v.path) (hno : ∀ c, t.vars v.node v.name ≠ some (.node c)) :
    t.vars v.node v.name = none := by
  cases hvar : t.vars v.node v.name with
  | none => rfl
  | some x =>
    cases x with
    | node c => exact absurd hvar (hno c)
    | int x => exact absurd hvar (h.not_int_of_dir hv.1 hleaf _ _)

theorem Layout.Fits.origin {task : Task K V} (h : L.Fits task) :
    task.op.origin = task.op := by
  obtain ⟨path, op⟩ := task
  cases op with
  | add | max => rfl
  | get => exact absurd h.2 id

/-- What holds of the tree for one thread. -/
structure Thread.Sound [LT V] (L : Layout K) (t : Tree K V) (th : Thread K V) : Prop where
  pc : ∀ pc, th.pc = some pc → pc.Sound t
  fits : ∀ task ∈ th.left, L.Fits task
  held : ∀ n, th.holds = some n → t.mu n = true

namespace Thread

theorem left_load {tasks : List (Task K V)} (h : ∀ task ∈ tasks, L.Fits task) :
    (load tasks).left = tasks := by
  cases tasks with
  | nil => rfl
  | cons task todo =>
    have horigin := (h task (List.mem_cons_self ..)).origin
    simp [load, left, Pc.task, horigin]

theorem holds_load (tasks : List (Task K V)) : (load tasks).holds = none := by
  cases tasks <;> rfl

theorem sound_load [LT V] (t : Tree K V) {tasks : List (Task K V)}
    (h : ∀ task ∈ tasks, L.Fits task) : (load tasks).Sound L t := by
  refine ⟨?_, by rwa [left_load h], by simp [holds_load]⟩
  intro pc hpc
  cases tasks with
  | nil => cases hpc
  | cons task todo =>
    cases hpc
    refine ⟨rfl, ?_⟩
    obtain ⟨path, op⟩ := task
    cases op with
    | add | max => trivial
    | get => exact absurd (h _ (List.mem_cons_self ..)).2 id

theorem holds_move (th : Thread K V) (next : Option (Pc K V)) :
    (th.move next).holds = next.bind Pc.holds := by
  cases next with
  | none => exact holds_load _
  | some q => rfl

end Thread

end Sound

/-! ## One step -/

section Step

variable {K V : Type} [DecidableEq K] [AddCommMonoid V] [LinearOrder V]
  {L : Layout K} {t t' : Tree K V} {pc : Pc K V} {next : Option (Pc K V)}

/-- What one step of a thread in a sound phase does. -/
inductive Ran (L : Layout K) (t : Tree K V) : Pc K V → Tree K V → Option (Pc K V) → Prop
  | look {pc q : Pc K V} (sound : q.Sound t) (task : q.task = pc.task)
    (holds : q.holds = pc.holds) : Ran L t pc t (some q)
  | lock {v : Visit K V} (free : t.mu v.node = false) (there : v.At t) :
    Ran L t (.lock v) { t with mu := Function.update t.mu v.node true } (some (.check v))
  | make {v : Visit K V} (there : v.At t) (none : t.vars v.node v.name = none)
    (leaf : L.Leaf v.path) : Ran L t (.make v) (t.grow v.node v.name) (some (.unlock v t.next))
  | unlock {v : Visit K V} {c : Nat} (there : v.At t)
    (child : t.vars v.node v.name = some (.node c)) :
    Ran L t (.unlock v c) { t with mu := Function.update t.mu v.node false }
      (some (.walk (v.pre ++ [v.name]) c v.names v.op))
  | add {p : List K} {n : Nat} {name : K} {delta : V} (path : t.resolve p = some n)
    (leaf : L.Leaf p) (sum : ¬ L.Maximum name) : Ran L t (.walk p n [] (.add name delta))
      (t.put n name (.int (t.count p name + delta))) none
  | touch {p : List K} {n : Nat} {name : K} {val : V} (path : t.resolve p = some n)
    (leaf : L.Leaf p) : Ran L t (.walk p n [] (.max name val))
      (t.put n name (.int (t.count p name))) (some (.walk [] 0 p (.get name val)))
  | reached {p : List K} {n : Nat} {name : K} {val : V} (maximum : L.Maximum name)
    (le : val ≤ t.count p name) : Ran L t (.value p n name val) t none
  | set {p : List K} {n : Nat} {name : K} {val seen : V} (path : t.resolve p = some n)
    (leaf : L.Leaf p) (maximum : L.Maximum name) (lt : seen < val) :
    Ran L t (.set p n name val seen) (t.put n name (.int val)) none

theorem ran_of_run (h : t.WellFormed L) (hpc : pc.Sound t) (hfit : L.Fits pc.task)
    (hrun : t.run pc = some (t', next)) : Ran L t pc t' next := by
  cases pc with
  | walk pre n names op =>
    cases names with
    | cons name names =>
      simp only [Tree.run] at hrun
      split at hrun <;> cases hrun
      · rename_i c hc
        refine .look ⟨Tree.resolve_concat_eq_some_iff.mpr ⟨n, hpc.1, hc⟩, ?_⟩ ?_ rfl
        · simpa using hpc.2
        · simp [Pc.task]
      · exact .look hpc rfl rfl
    | nil =>
      have hleaf : L.Leaf pre := by simpa [Pc.task] using hfit.1
      cases op with
      | add name delta =>
        cases hrun
        rw [Tree.add_eq_put h hpc.1 hleaf]
        exact .add hpc.1 hleaf hfit.2
      | max name val =>
        cases hrun
        rw [Tree.add_eq_put h hpc.1 hleaf, add_zero]
        exact .touch hpc.1 hleaf
      | get name val =>
        obtain ⟨m, x, hm, hx⟩ := hpc.2
        rw [List.append_nil, hpc.1] at hm
        cases hm
        simp only [Tree.run, hx] at hrun
        cases hrun
        exact .look ⟨hpc.1, x, hx⟩ (by simp [Pc.task, Op.origin]) rfl
  | lock v =>
    simp only [Tree.run] at hrun
    split at hrun <;> cases hrun
    rename_i hmu
    exact .lock (by simpa using hmu) hpc
  | check v =>
    simp only [Tree.run] at hrun
    split at hrun <;> cases hrun
    · rename_i c hc
      exact .look ⟨hpc, hc⟩ rfl rfl
    · rename_i hno
      exact .look ⟨hpc, none_of_not_node h hpc hfit.1 hno⟩ rfl rfl
  | make v =>
    cases hrun
    exact .make hpc.1 hpc.2 hfit.1
  | unlock v c =>
    cases hrun
    exact .unlock hpc.1 hpc.2
  | value path n name val =>
    obtain ⟨hp, x, hx⟩ := hpc
    simp only [Tree.run, hx] at hrun
    split at hrun <;> cases hrun
    · rename_i hlt
      exact .look ⟨hp, ⟨x, hx⟩, hlt⟩ rfl rfl
    · rename_i hle
      refine .reached hfit.2 ?_
      rw [Tree.count_eq_of_int hp hx]
      exact not_lt.mp hle
  | set path n name val seen =>
    cases hrun
    exact .set hpc.1 hfit.1 hfit.2 hpc.2.2

namespace Ran

theorem change (hran : Ran L t pc t' next) : t.Change L t' := by
  cases hran with
  | look | reached => exact .refl L t
  | lock | unlock => exact .mutex _
  | make hv hnone hleaf => exact .grow hv.1 hnone hleaf
  | add hp hleaf | touch hp hleaf | set hp hleaf => exact .int _ _ hp hleaf

theorem task_eq {q : Pc K V} (hran : Ran L t pc t' (some q)) : q.task = pc.task := by
  cases hran with
  | look _ htask => exact htask
  | lock | make => rfl
  | unlock | touch => simp [Pc.task, Visit.path, Op.origin]

theorem sound {q : Pc K V} (h : t.WellFormed L) (hran : Ran L t pc t' (some q)) :
    q.Sound t' := by
  have hk := hran.change.keeps h
  cases hran with
  | look hq => exact hq
  | lock hmu hv => exact hv.mono hk
  | @make v hv => exact ⟨hv.mono hk, Tree.grow_self ..⟩
  | @unlock v c hv hc =>
    refine ⟨Tree.resolve_concat_eq_some_iff.mpr ⟨v.node, hv.1, hc⟩, ?_⟩
    have hready := (hv.mono hk).2
    simpa [Visit.path] using hready
  | @touch p n name val hp hleaf =>
    exact ⟨rfl, n, _, (congrFun (Tree.putInt_resolve h hp hleaf name _) p).trans hp,
      Tree.put_self ..⟩

/-- What a step does to the mutexes. -/
theorem mutex (hran : Ran L t pc t' next) :
    (t'.mu = t.mu ∧ next.bind Pc.holds = pc.holds) ∨
    (∃ n, t.mu n = false ∧ t'.mu = Function.update t.mu n true ∧
      next.bind Pc.holds = some n) ∨
    (∃ n, pc.holds = some n ∧ t'.mu = Function.update t.mu n false ∧
      next.bind Pc.holds = none) := by
  cases hran with
  | look _ _ hholds => exact Or.inl ⟨rfl, hholds⟩
  | make | add | touch | reached | set => exact Or.inl ⟨rfl, rfl⟩
  | lock hmu => exact Or.inr (Or.inl ⟨_, hmu, rfl, rfl⟩)
  | unlock => exact Or.inr (Or.inr ⟨_, rfl, rfl, rfl⟩)

/-- A child that is missing on the way to a leaf is made only by the holder of the mutex. -/
theorem none_of_not_holds (h : t.WellFormed L) (hran : Ran L t pc t' next) {v : Visit K V}
    (hv : v.At t) (hleaf : L.Leaf v.path) (hnone : t.vars v.node v.name = none)
    (hholds : pc.holds ≠ some v.node) : t'.vars v.node v.name = none := by
  have hput : ∀ {p n} (k x), t.resolve p = some n → L.Leaf p →
      (t.put n k (.int x)).vars v.node v.name = none := by
    intro p n k x hp hleafp
    have hne : ¬ (v.node = n ∧ v.name = k) := by
      rintro ⟨rfl, -⟩
      rw [h.resolve_injective hp hv.1] at hleafp
      exact L.not_leaf_append hleafp _ _ hleaf
    rw [Tree.put_of_ne t _ hne, hnone]
  cases hran with
  | look | reached | lock | unlock => exact hnone
  | make => rw [Tree.grow_of_ne t fun heq => hholds (congrArg some heq.1.symm), hnone]
  | add hp hleafp | touch hp hleafp | set hp hleafp => exact hput _ _ hp hleafp

end Ran

end Step

/-! ## All threads -/

theorem get_of_get_set {α : Type} {l : List α} {i j : Nat} {a b : α}
    (h : (l.set i a)[j]? = some b) : (j = i ∧ b = a) ∨ (j ≠ i ∧ l[j]? = some b) := by
  rw [List.getElem?_set] at h
  split at h
  · rename_i hij
    split at h
    · exact Or.inl ⟨hij.symm, (Option.some.inj h).symm⟩
    · cases h
  · rename_i hij
    exact Or.inr ⟨Ne.symm hij, h⟩

section Threads

variable {K V : Type} [LinearOrder V] {L : Layout K}

structure Inv (L : Layout K) (w : World K V) : Prop where
  tree : w.tree.WellFormed L
  threads : ∀ (i : Nat) th, w.threads[i]? = some th → th.Sound L w.tree
  excl : ∀ (i j : Nat) th th' n, w.threads[i]? = some th → w.threads[j]? = some th' →
    th.holds = some n → th'.holds = some n → i = j

/-- The tasks given to threads fit the layout. -/
def Given (L : Layout K) (_ : World K V) : Action K V → Prop
  | .spawn tasks | .assign _ tasks => ∀ task ∈ tasks, L.Fits task
  | .run _ => True

/-- Threads that start new tasks. -/
theorem Inv.load {w w' : World K V} {tasks : List (Task K V)} (h : Inv L w)
    (htasks : ∀ task ∈ tasks, L.Fits task) (htree : w'.tree = w.tree)
    (hthreads : ∀ (i : Nat) th, w'.threads[i]? = some th →
      w.threads[i]? = some th ∨ th = Thread.load tasks) : Inv L w' := by
  refine ⟨htree ▸ h.tree, fun i th hth => ?_, fun i j th th' n hth hth' hn hn' => ?_⟩
  · rw [htree]
    rcases hthreads i th hth with hold | rfl
    · exact h.threads i th hold
    · exact Thread.sound_load _ htasks
  · rcases hthreads i th hth with hold | rfl
    · rcases hthreads j th' hth' with hold' | rfl
      · exact h.excl i j th th' n hold hold' hn hn'
      · simp [Thread.holds_load] at hn'
    · simp [Thread.holds_load] at hn

variable [DecidableEq K] [AddCommMonoid V]

/-- A step of the `i`-th thread is a step in its phase. -/
theorem ran_of_step {w w' : World K V} {i : Nat} (h : Inv L w) (hw : step w (.run i) = some w') :
    ∃ th pc t' next, w.threads[i]? = some th ∧ th.pc = some pc ∧ Ran L w.tree pc t' next ∧
      w' = { w with
        tree := t', threads := w.threads.set i (th.move next)
        done := w.done ++ if next.isSome then [] else [pc.task] } := by
  simp only [step] at hw
  split at hw
  · cases hw
  · rename_i th hth
    obtain ⟨_, hrun, rfl⟩ := Option.map_eq_some_iff.mp hw
    simp only [Thread.run] at hrun
    split at hrun
    · cases hrun
    · rename_i pc hpc
      obtain ⟨⟨t', next⟩, hnext, rfl⟩ := Option.map_eq_some_iff.mp hrun
      have hsound := h.threads i th hth
      have hfit : L.Fits pc.task := hsound.fits pc.task (by simp [Thread.left, hpc])
      exact ⟨th, pc, t', next, hth, hpc, ran_of_run h.tree (hsound.pc pc hpc) hfit hnext, rfl⟩

/-- The thread that moves. -/
theorem Thread.Sound.move {t t' : Tree K V} {th : Thread K V} {pc : Pc K V}
    {next : Option (Pc K V)} (h : th.Sound L t) (htree : t.WellFormed L) (hpc : th.pc = some pc)
    (hran : Ran L t pc t' next) : (th.move next).Sound L t' := by
  have hleft : th.left = pc.task :: th.todo := by simp [Thread.left, hpc]
  have hfits := h.fits
  rw [hleft] at hfits
  cases next with
  | none => exact Thread.sound_load t' fun task htask => hfits task (List.mem_cons_of_mem _ htask)
  | some q =>
    refine ⟨fun pc' hpc' => ?_, ?_, fun n hn => ?_⟩
    · cases hpc'
      exact hran.sound htree
    · have hleft' : (th.move (some q)).left = pc.task :: th.todo := by
        simp [Thread.left, Thread.move, hran.task_eq]
      rwa [hleft']
    · rw [Thread.holds_move] at hn
      rcases hran.mutex with ⟨hmu, hholds⟩ | ⟨m, -, hmu, hholds⟩ | ⟨m, -, -, hholds⟩
      · rw [hmu]
        rw [hholds] at hn
        exact h.held n (by simpa [Thread.holds, hpc] using hn)
      · rw [hholds] at hn
        cases hn
        simp [hmu]
      · rw [hholds] at hn
        cases hn

/-- A thread that does not move; `pc` is the phase of the one that does. -/
theorem Thread.Sound.frame {t t' : Tree K V} {th : Thread K V} {pc : Pc K V}
    {next : Option (Pc K V)} (h : th.Sound L t) (htree : t.WellFormed L)
    (hran : Ran L t pc t' next) (hexcl : ∀ n, th.holds = some n → pc.holds ≠ some n) :
    th.Sound L t' := by
  refine ⟨fun pc' hpc' => ?_, h.fits, fun n hn => ?_⟩
  · have hpc := h.pc pc' hpc'
    refine hpc.mono (hran.change.keeps htree) fun v hv => ?_
    subst hv
    have hfit : L.Fits (Pc.make v).task := h.fits _ (by simp [Thread.left, hpc'])
    have hheld : th.holds = some v.node := by simp [Thread.holds, hpc', Pc.holds]
    exact hran.none_of_not_holds htree hpc.1 hfit.1 hpc.2 (hexcl v.node hheld)
  · have hmu := h.held n hn
    rcases hran.mutex with ⟨heq, -⟩ | ⟨m, -, heq, -⟩ | ⟨m, hm, heq, -⟩
    · rwa [heq]
    · rw [heq, Function.update_apply]
      split
      · rfl
      · exact hmu
    · have hne : n ≠ m := by
        rintro rfl
        exact hexcl n hn hm
      rwa [heq, Function.update_of_ne hne]

theorem Inv.run {w : World K V} {i : Nat} {th : Thread K V} {pc : Pc K V} {t' : Tree K V}
    {next : Option (Pc K V)} (h : Inv L w) (hth : w.threads[i]? = some th)
    (hpc : th.pc = some pc) (hran : Ran L w.tree pc t' next) (done : List (Task K V)) :
    Inv L { w with tree := t', threads := w.threads.set i (th.move next), done := done } := by
  have hholds : th.holds = pc.holds := by simp [Thread.holds, hpc]
  -- a thread that does not move holds no mutex that the moving one holds or takes
  have hother : ∀ (j : Nat) th', j ≠ i → w.threads[j]? = some th' → ∀ n, th'.holds = some n →
      pc.holds ≠ some n ∧ next.bind Pc.holds ≠ some n := by
    intro j th' hj hth' n hn
    have hpcn : pc.holds ≠ some n := fun hp =>
      hj (h.excl j i th' th n hth' hth hn (hholds.trans hp))
    refine ⟨hpcn, fun hnext => ?_⟩
    rcases hran.mutex with ⟨-, heq⟩ | ⟨m, hfree, -, heq⟩ | ⟨m, -, -, heq⟩
    · exact hpcn (heq.symm.trans hnext)
    · rw [heq] at hnext
      cases hnext
      have hheld := (h.threads j th' hth').held n hn
      rw [hfree] at hheld
      cases hheld
    · rw [heq] at hnext
      cases hnext
  refine ⟨hran.change.wellFormed h.tree, fun j th' hth' => ?_,
    fun j k a b n ha hb hn hn' => ?_⟩
  · rcases get_of_get_set hth' with ⟨rfl, rfl⟩ | ⟨hj, hth'⟩
    · exact (h.threads j th hth).move h.tree hpc hran
    · exact (h.threads j th' hth').frame h.tree hran fun n hn => (hother j th' hj hth' n hn).1
  · rcases get_of_get_set ha with ⟨rfl, rfl⟩ | ⟨hj, ha'⟩ <;>
      rcases get_of_get_set hb with ⟨rfl, rfl⟩ | ⟨hk, hb'⟩
    · rfl
    · rw [Thread.holds_move] at hn
      exact absurd hn (hother k b hk hb' n hn').2
    · rw [Thread.holds_move] at hn'
      exact absurd hn' (hother j a hj ha' n hn).2
    · exact h.excl j k a b n ha' hb' hn hn'

theorem inv_step (w : World K V) (a : Action K V) (w' : World K V) (h : Inv L w)
    (hok : Given L w a) (hw : system.step w a = some w') : Inv L w' := by
  cases a with
  | spawn tasks =>
    cases hw
    refine h.load hok rfl fun i th hth => ?_
    rw [List.getElem?_append] at hth
    split at hth
    · exact Or.inl hth
    · exact Or.inr (by simpa using List.mem_of_getElem? hth)
  | assign i tasks =>
    simp only [system, step] at hw
    split at hw <;> cases hw
    refine h.load hok rfl fun j th hth => ?_
    rcases get_of_get_set hth with ⟨-, hnew⟩ | ⟨-, hold⟩
    · exact Or.inr hnew
    · exact Or.inl hold
  | run i =>
    obtain ⟨th, pc, t', next, hth, hpc, hran, rfl⟩ := ran_of_step h hw
    exact h.run hth hpc hran _

/-! ## Runs -/

theorem inv_init : Inv L (system.init : World K V) :=
  ⟨Tree.empty_wellFormed, fun _ _ h => (nomatch h), fun _ _ _ _ _ h => (nomatch h)⟩

theorem inv_of_steps {tr : List (Action K V)} {w : World K V}
    (h : Steps system (Given L) system.init tr w) : Inv L w :=
  h.invariant inv_step inv_init

theorem keeps_step (w : World K V) (a : Action K V) (w' : World K V) (h : Inv L w)
    (_ : Given L w a) (hw : system.step w a = some w') : w.tree.Keeps w'.tree := by
  cases a with
  | spawn tasks =>
    cases hw
    exact .refl _
  | assign i tasks =>
    simp only [system, step] at hw
    split at hw <;> cases hw
    exact .refl _
  | run i =>
    obtain ⟨th, pc, t', next, -, -, hran, rfl⟩ := ran_of_step h hw
    exact hran.change.keeps h.tree

/-- The `i`-th thread has walked along the names `p`, and is at the node `n`. -/
def World.Walked (w : World K V) (i : Nat) (p : List K) (n : Nat) : Prop :=
  ∃ th names op, w.threads[i]? = some th ∧ th.pc = some (.walk p n names op)

omit [DecidableEq K] [AddCommMonoid V] in
theorem Inv.resolve_of_walked {w : World K V} (h : Inv L w) {i : Nat} {p : List K} {n : Nat}
    (hw : w.Walked i p n) : w.tree.resolve p = some n := by
  obtain ⟨th, names, op, hth, hpc⟩ := hw
  exact ((h.threads i th hth).pc _ hpc).1

/-- **Walks along the same names, at any two moments of a run, are at the same node.** -/
theorem walks_agree {tr tr' : List (Action K V)} {u v : World K V}
    (hu : Steps system (Given L) system.init tr u) (hv : Steps system (Given L) u tr' v)
    {i j : Nat} {p : List K} {n m : Nat} (hi : u.Walked i p n) (hj : v.Walked j p m) :
    n = m := by
  have hinv := inv_of_steps hu
  have hkeeps : u.tree.Keeps v.tree :=
    hv.relation (R := fun w w' => w.tree.Keeps w'.tree) inv_step (fun w => .refl w.tree)
      (fun _ _ _ => .trans) keeps_step hinv
  have hn := hkeeps.resolve (hinv.resolve_of_walked hi)
  have hm := (inv_of_steps (hu.append hv)).resolve_of_walked hj
  exact Option.some.inj (hn.symm.trans hm)

end Threads

end Bigmachine.Concurrent
