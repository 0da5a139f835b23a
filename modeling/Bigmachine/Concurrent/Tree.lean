import Mathlib.Tactic

/-!
# Trees of counters

A tree of maps: an entry of a node is a child node or a counter. Nodes are numbered in the
order in which they are made; the root is 0. A path of names leads from the root to a node
(`Tree.resolve`).

The paths in use are the leaves of a `Layout`: none is a proper part of another, so in a
well-formed tree no node holds both children and counters, and different paths lead to
different nodes (`Tree.WellFormed.resolve_injective`). A tree changes in three ways
(`Tree.Change`): a mutex is locked or unlocked, a counter of a leaf is written, a node is made
on the way to a leaf. All three keep the tree well formed, and what a path has led to it leads
to for ever (`Tree.Keeps.resolve`).
-/

namespace Bigmachine.Concurrent

/-- An entry of a node: a child, or a counter with its value. -/
inductive Var (V : Type)
  | node (id : Nat)
  | int (v : V)
  deriving DecidableEq, Repr

structure Tree (K V : Type) where
  vars : Nat → K → Option (Var V) := fun _ _ => none
  mu : Nat → Bool := fun _ => false -- the mutex of a node is held
  next : Nat := 1

variable {K V : Type}

/-! ## Where paths lead -/

namespace Tree

/-- The child `k` of the node `n`. -/
def child (t : Tree K V) (n : Nat) (k : K) : Option Nat :=
  match t.vars n k with
  | some (.node c) => some c
  | _ => none

/-- The node that a path leads to. -/
def resolve (t : Tree K V) (path : List K) : Option Nat := path.foldlM t.child 0

@[simp] theorem resolve_nil (t : Tree K V) : t.resolve [] = some 0 := rfl

theorem resolve_concat (t : Tree K V) (path : List K) (k : K) :
    t.resolve (path ++ [k]) = (t.resolve path).bind fun n => t.child n k := by
  simp [resolve, List.foldlM_append]

theorem child_eq_some_iff {t : Tree K V} {n : Nat} {k : K} {c : Nat} :
    t.child n k = some c ↔ t.vars n k = some (.node c) := by
  unfold child
  split
  · rename_i c' hc
    simp [hc]
  · rename_i hno
    simpa using fun h => hno c h

theorem resolve_concat_eq_some_iff {t : Tree K V} {path : List K} {k : K} {c : Nat} :
    t.resolve (path ++ [k]) = some c ↔
      ∃ n, t.resolve path = some n ∧ t.vars n k = some (.node c) := by
  rw [resolve_concat, Option.bind_eq_some_iff]
  simp only [child_eq_some_iff]

end Tree

/-! ## Layouts -/

/-- The paths that tasks use, and the names of the counters that are maxima. -/
structure Layout (K : Type) where
  Leaf : List K → Prop
  Maximum : K → Prop
  prefixFree : ∀ p q, Leaf p → Leaf q → p <+: q → p = q

theorem Layout.not_leaf_append {L : Layout K} {p : List K} (hp : L.Leaf p) (k : K)
    (names : List K) : ¬ L.Leaf (p ++ k :: names) := by
  intro h
  have heq := L.prefixFree p _ hp h (List.prefix_append ..)
  simp at heq

/-- The tree is well formed: nodes are numbered below `next`, each child has one parent, and
only leaves hold counters. -/
structure Tree.WellFormed (L : Layout K) (t : Tree K V) : Prop where
  fresh : ∀ n k, t.next ≤ n → t.vars n k = none
  child : ∀ n k c, t.vars n k = some (.node c) → 0 < c ∧ c < t.next
  parent : ∀ n k n' k' c, t.vars n k = some (.node c) → t.vars n' k' = some (.node c) →
    n = n' ∧ k = k'
  counters : ∀ p n k x, t.resolve p = some n → t.vars n k = some (.int x) → L.Leaf p
  dirs : ∀ p n k c, t.resolve p = some n → t.vars n k = some (.node c) →
    ∃ names, L.Leaf (p ++ k :: names)
  pos : 0 < t.next

/-! ## Paths in a well-formed tree -/

namespace Tree

theorem empty_wellFormed {L : Layout K} : ({} : Tree K V).WellFormed L where
  fresh _ _ _ := rfl
  child _ _ _ h := nomatch h
  parent _ _ _ _ _ h := nomatch h
  counters _ _ _ _ _ h := nomatch h
  dirs _ _ _ _ _ h := nomatch h
  pos := Nat.one_pos

namespace WellFormed

variable {L : Layout K} {t : Tree K V}

theorem resolve_lt (h : t.WellFormed L) {p : List K} {n : Nat} (hp : t.resolve p = some n) :
    n < t.next := by
  rcases List.eq_nil_or_concat p with rfl | ⟨q, k, rfl⟩
  · cases hp
    exact h.pos
  · rw [List.concat_eq_append] at hp
    obtain ⟨m, -, hm⟩ := resolve_concat_eq_some_iff.mp hp
    exact (h.child m k n hm).2

/-- Different paths lead to different nodes. -/
theorem resolve_injective (h : t.WellFormed L) {p q : List K} {n : Nat}
    (hp : t.resolve p = some n) (hq : t.resolve q = some n) : p = q := by
  induction p using List.reverseRecOn generalizing q n with
  | nil =>
    cases hp
    rcases List.eq_nil_or_concat q with rfl | ⟨q', k, rfl⟩
    · rfl
    · rw [List.concat_eq_append] at hq
      obtain ⟨m, -, hm⟩ := resolve_concat_eq_some_iff.mp hq
      exact absurd (h.child m k 0 hm).1 (lt_irrefl 0)
  | append_singleton p' k ih =>
    obtain ⟨m, hm, hk⟩ := resolve_concat_eq_some_iff.mp hp
    rcases List.eq_nil_or_concat q with rfl | ⟨q', k', rfl⟩
    · cases hq
      exact absurd (h.child m k 0 hk).1 (lt_irrefl 0)
    · rw [List.concat_eq_append] at hq ⊢
      obtain ⟨m', hm', hk'⟩ := resolve_concat_eq_some_iff.mp hq
      obtain ⟨rfl, rfl⟩ := h.parent m k m' k' n hk hk'
      rw [ih hm hm']

/-- A leaf has no children. -/
theorem not_node_of_leaf (h : t.WellFormed L) {p : List K} {n : Nat} (hp : t.resolve p = some n)
    (hleaf : L.Leaf p) (k : K) (c : Nat) : t.vars n k ≠ some (.node c) := by
  intro hc
  obtain ⟨names, hnames⟩ := h.dirs p n k c hp hc
  exact L.not_leaf_append hleaf k names hnames

/-- The node on the way to a leaf holds no counter. -/
theorem not_int_of_dir (h : t.WellFormed L) {p : List K} {n : Nat} (hp : t.resolve p = some n)
    {k : K} {names : List K} (hleaf : L.Leaf (p ++ k :: names)) (j : K) (x : V) :
    t.vars n j ≠ some (.int x) := fun hx =>
  L.not_leaf_append (h.counters p n j x hp hx) k names hleaf

end WellFormed

/-! ## Changing an entry -/

variable [DecidableEq K]

def put (t : Tree K V) (n : Nat) (k : K) (x : Var V) : Tree K V :=
  { t with vars := Function.update t.vars n (Function.update (t.vars n) k (some x)) }

/-- A new node becomes the child `k` of `n`. -/
def grow (t : Tree K V) (n : Nat) (k : K) : Tree K V :=
  { t.put n k (.node t.next) with next := t.next + 1 }

theorem put_self (t : Tree K V) (n : Nat) (k : K) (x : Var V) :
    (t.put n k x).vars n k = some x := by
  simp [put]

theorem put_of_ne (t : Tree K V) {n m : Nat} {k j : K} (x : Var V) (h : ¬ (m = n ∧ j = k)) :
    (t.put n k x).vars m j = t.vars m j := by
  by_cases hm : m = n
  · subst hm
    have hj : j ≠ k := fun hj => h ⟨rfl, hj⟩
    simp [put, hj]
  · simp [put, hm]

/-! ## Writing a counter -/

section PutInt

variable {L : Layout K} {t : Tree K V} {p : List K} {n : Nat}

theorem putInt_node_iff (h : t.WellFormed L) (hp : t.resolve p = some n) (hleaf : L.Leaf p)
    (k : K) (x : V) (m : Nat) (j : K) (c : Nat) :
    (t.put n k (.int x)).vars m j = some (.node c) ↔ t.vars m j = some (.node c) := by
  by_cases hmj : m = n ∧ j = k
  · obtain ⟨rfl, rfl⟩ := hmj
    rw [put_self]
    refine ⟨fun hc => ?_, fun hc => absurd hc (h.not_node_of_leaf hp hleaf j c)⟩
    cases hc
  · rw [put_of_ne t _ hmj]

theorem putInt_resolve (h : t.WellFormed L) (hp : t.resolve p = some n) (hleaf : L.Leaf p)
    (k : K) (x : V) : (t.put n k (.int x)).resolve = t.resolve := by
  have hchild : (t.put n k (.int x)).child = t.child := by
    funext m j
    apply Option.ext
    intro c
    rw [child_eq_some_iff, child_eq_some_iff, putInt_node_iff h hp hleaf]
  funext q
  rw [resolve, resolve, hchild]

theorem putInt_wellFormed (h : t.WellFormed L) (hp : t.resolve p = some n) (hleaf : L.Leaf p)
    (k : K) (x : V) : (t.put n k (.int x)).WellFormed L := by
  have hnode := putInt_node_iff h hp hleaf k x
  have hres := putInt_resolve h hp hleaf k x
  refine ⟨?_, ?_, ?_, ?_, ?_, h.pos⟩
  · intro m j hm
    have hne : ¬ (m = n ∧ j = k) := by
      rintro ⟨rfl, -⟩
      exact absurd (h.resolve_lt hp) (not_lt.mpr hm)
    rw [put_of_ne t _ hne]
    exact h.fresh m j hm
  · intro m j c hc
    exact h.child m j c ((hnode m j c).mp hc)
  · intro m j m' j' c hc hc'
    exact h.parent m j m' j' c ((hnode m j c).mp hc) ((hnode m' j' c).mp hc')
  · intro q m j y hq hy
    rw [hres] at hq
    by_cases hmj : m = n ∧ j = k
    · obtain ⟨rfl, rfl⟩ := hmj
      rw [h.resolve_injective hq hp]
      exact hleaf
    · rw [put_of_ne t _ hmj] at hy
      exact h.counters q m j y hq hy
  · intro q m j c hq hc
    rw [hres] at hq
    exact h.dirs q m j c hq ((hnode m j c).mp hc)

end PutInt

/-! ## Making a node -/

section Make

variable {L : Layout K} {t : Tree K V} {p : List K} {n : Nat} {k : K} {names : List K}

theorem grow_self (t : Tree K V) (n : Nat) (k : K) :
    (t.grow n k).vars n k = some (.node t.next) := put_self t n k _

theorem grow_of_ne (t : Tree K V) {m : Nat} {j : K} (h : ¬ (m = n ∧ j = k)) :
    (t.grow n k).vars m j = t.vars m j := put_of_ne t _ h

theorem grow_resolve_iff (h : t.WellFormed L) (hp : t.resolve p = some n)
    (hnone : t.vars n k = none) (q : List K) (m : Nat) :
    (t.grow n k).resolve q = some m ↔
      t.resolve q = some m ∨ (q = p ++ [k] ∧ m = t.next) := by
  induction q using List.reverseRecOn generalizing m with
  | nil => simp
  | append_singleton q j ih =>
    rw [resolve_concat_eq_some_iff, resolve_concat_eq_some_iff]
    constructor
    · rintro ⟨a, ha, hm⟩
      rcases (ih a).mp ha with hold | ⟨rfl, rfl⟩
      · by_cases haj : a = n ∧ j = k
        · obtain ⟨rfl, rfl⟩ := haj
          rw [grow_self] at hm
          cases hm
          rw [h.resolve_injective hold hp]
          exact Or.inr ⟨rfl, rfl⟩
        · rw [grow_of_ne t haj] at hm
          exact Or.inl ⟨a, hold, hm⟩
      · -- the new node has no children yet
        have hne : ¬ (t.next = n ∧ j = k) := fun heq => (h.resolve_lt hp).ne' heq.1
        rw [grow_of_ne t hne, h.fresh t.next j le_rfl] at hm
        cases hm
    · rintro (⟨a, ha, hm⟩ | ⟨heq, rfl⟩)
      · have hne : ¬ (a = n ∧ j = k) := by
          rintro ⟨rfl, rfl⟩
          rw [hnone] at hm
          cases hm
        exact ⟨a, (ih a).mpr (Or.inl ha), (grow_of_ne t hne).trans hm⟩
      · obtain ⟨rfl, hj⟩ := List.append_inj' heq rfl
        cases hj
        exact ⟨n, (ih n).mpr (Or.inl hp), grow_self t n k⟩

theorem grow_wellFormed (h : t.WellFormed L) (hp : t.resolve p = some n)
    (hnone : t.vars n k = none) (hleaf : L.Leaf (p ++ k :: names)) :
    (t.grow n k).WellFormed L := by
  have hres := grow_resolve_iff (k := k) h hp hnone
  have hn : n < t.next := h.resolve_lt hp
  have hnew : ∀ m j c, t.vars m j = some (.node c) → c ≠ t.next := fun m j c hc =>
    (h.child m j c hc).2.ne
  refine ⟨?_, ?_, ?_, ?_, ?_, Nat.succ_pos _⟩
  · intro m j hm
    have hm' : t.next < m := hm
    rw [grow_of_ne t (fun heq => by omega)]
    exact h.fresh m j hm'.le
  · intro m j c hc
    by_cases hmj : m = n ∧ j = k
    · obtain ⟨rfl, rfl⟩ := hmj
      rw [grow_self] at hc
      cases hc
      exact ⟨h.pos, Nat.lt_succ_self _⟩
    · rw [grow_of_ne t hmj] at hc
      obtain ⟨hpos, hlt⟩ := h.child m j c hc
      exact ⟨hpos, Nat.lt_succ_of_lt hlt⟩
  · intro m j m' j' c hc hc'
    by_cases hmj : m = n ∧ j = k <;> by_cases hmj' : m' = n ∧ j' = k
    · exact ⟨hmj.1.trans hmj'.1.symm, hmj.2.trans hmj'.2.symm⟩
    · obtain ⟨rfl, rfl⟩ := hmj
      rw [grow_self] at hc
      rw [grow_of_ne t hmj'] at hc'
      cases hc
      exact absurd rfl (hnew m' j' _ hc')
    · obtain ⟨rfl, rfl⟩ := hmj'
      rw [grow_self] at hc'
      rw [grow_of_ne t hmj] at hc
      cases hc'
      exact absurd rfl (hnew m j _ hc)
    · rw [grow_of_ne t hmj] at hc
      rw [grow_of_ne t hmj'] at hc'
      exact h.parent m j m' j' c hc hc'
  · intro q m j x hq hx
    have hmj : ¬ (m = n ∧ j = k) := by
      rintro ⟨rfl, rfl⟩
      rw [grow_self] at hx
      cases hx
    rw [grow_of_ne t hmj] at hx
    rcases (hres q m).mp hq with hq | ⟨-, rfl⟩
    · exact h.counters q m j x hq hx
    · rw [h.fresh _ j le_rfl] at hx
      cases hx
  · intro q m j c hq hc
    by_cases hmj : m = n ∧ j = k
    · obtain ⟨rfl, rfl⟩ := hmj
      rcases (hres q m).mp hq with hq | ⟨-, heq⟩
      · rw [h.resolve_injective hq hp]
        exact ⟨names, hleaf⟩
      · exact absurd heq hn.ne
    · rw [grow_of_ne t hmj] at hc
      rcases (hres q m).mp hq with hq | ⟨-, rfl⟩
      · exact h.dirs q m j c hq hc
      · rw [h.fresh _ j le_rfl] at hc
        cases hc

end Make

/-! ## Changes -/

/-- The ways in which a tree changes. -/
inductive Change (L : Layout K) (t : Tree K V) : Tree K V → Prop
  | mutex (mu : Nat → Bool) : Change L t { t with mu := mu }
  | int {p : List K} {n : Nat} (k : K) (x : V) (hp : t.resolve p = some n) (hleaf : L.Leaf p) :
    Change L t (t.put n k (.int x))
  | grow {p : List K} {n : Nat} {k : K} {names : List K} (hp : t.resolve p = some n)
    (hnone : t.vars n k = none) (hleaf : L.Leaf (p ++ k :: names)) : Change L t (t.grow n k)

theorem Change.refl (L : Layout K) (t : Tree K V) : Change L t t := .mutex t.mu

theorem Change.wellFormed {L : Layout K} {t t' : Tree K V} (hc : Change L t t')
    (h : t.WellFormed L) : t'.WellFormed L := by
  cases hc with
  | mutex mu => exact ⟨h.fresh, h.child, h.parent, h.counters, h.dirs, h.pos⟩
  | int k x hp hleaf => exact putInt_wellFormed h hp hleaf k x
  | grow hp hnone hleaf => exact grow_wellFormed h hp hnone hleaf

/-- Children stay, and counters stay counters. -/
structure Keeps (t t' : Tree K V) : Prop where
  child : ∀ n k c, t.vars n k = some (.node c) → t'.vars n k = some (.node c)
  counter : ∀ n k x, t.vars n k = some (.int x) → ∃ y, t'.vars n k = some (.int y)

namespace Keeps

omit [DecidableEq K]

theorem refl (t : Tree K V) : Keeps t t :=
  ⟨fun _ _ _ h => h, fun _ _ x h => ⟨x, h⟩⟩

theorem trans {t u v : Tree K V} (h : Keeps t u) (h' : Keeps u v) : Keeps t v := by
  refine ⟨fun n k c hc => h'.child n k c (h.child n k c hc), fun n k x hx => ?_⟩
  obtain ⟨y, hy⟩ := h.counter n k x hx
  exact h'.counter n k y hy

theorem resolve {t t' : Tree K V} (h : Keeps t t') {p : List K} {n : Nat}
    (hp : t.resolve p = some n) : t'.resolve p = some n := by
  induction p using List.reverseRecOn generalizing n with
  | nil => exact hp
  | append_singleton p k ih =>
    obtain ⟨m, hm, hk⟩ := resolve_concat_eq_some_iff.mp hp
    exact resolve_concat_eq_some_iff.mpr ⟨m, ih hm, h.child m k n hk⟩

end Keeps

theorem Change.keeps {L : Layout K} {t t' : Tree K V} (hc : Change L t t')
    (h : t.WellFormed L) : Keeps t t' := by
  cases hc with
  | mutex mu => exact ⟨fun _ _ _ h => h, fun _ _ x h => ⟨x, h⟩⟩
  | @int p n k x hp hleaf =>
    refine ⟨fun m j c hm => (putInt_node_iff h hp hleaf k x m j c).mpr hm, fun m j y hy => ?_⟩
    by_cases hmj : m = n ∧ j = k
    · obtain ⟨rfl, rfl⟩ := hmj
      exact ⟨x, put_self t m j _⟩
    · exact ⟨y, (put_of_ne t _ hmj).trans hy⟩
  | @grow p n k names hp hnone hleaf =>
    -- the new entry takes the place of no other
    have hold : ∀ m j x, t.vars m j = some x → (t.grow n k).vars m j = some x := by
      intro m j x hx
      have hmj : ¬ (m = n ∧ j = k) := by
        rintro ⟨rfl, rfl⟩
        rw [hnone] at hx
        cases hx
      rw [grow_of_ne t hmj, hx]
    exact ⟨fun m j c => hold m j _, fun m j x hx => ⟨x, hold m j _ hx⟩⟩

/-! ## The values of counters -/

section Count

variable [Zero V] {L : Layout K} {t : Tree K V} {p : List K} {n : Nat}

/-- The counter `k` of the node that the path `p` leads to; 0 when there is none. -/
def count (t : Tree K V) (p : List K) (k : K) : V :=
  match (t.resolve p).bind fun n => t.vars n k with
  | some (.int x) => x
  | _ => 0

omit [DecidableEq K] in
theorem count_eq_of_int {k : K} {x : V} (hp : t.resolve p = some n)
    (hx : t.vars n k = some (.int x)) : t.count p k = x := by
  simp [count, hp, hx]

omit [DecidableEq K] in
theorem empty_count (p : List K) (k : K) : ({} : Tree K V).count p k = 0 := by
  cases h : ({} : Tree K V).resolve p <;> simp [count, h]

theorem putInt_count (h : t.WellFormed L) (hp : t.resolve p = some n) (hleaf : L.Leaf p) (k : K)
    (x : V) (q : List K) (j : K) :
    (t.put n k (.int x)).count q j = if q = p ∧ j = k then x else t.count q j := by
  have hres := putInt_resolve h hp hleaf k x
  by_cases hqj : q = p ∧ j = k
  · obtain ⟨rfl, rfl⟩ := hqj
    rw [if_pos ⟨rfl, rfl⟩]
    exact count_eq_of_int ((congrFun hres q).trans hp) (put_self t n j _)
  · rw [if_neg hqj, count, count, hres]
    cases hq : t.resolve q with
    | none => rfl
    | some m =>
      have hmj : ¬ (m = n ∧ j = k) := by
        rintro ⟨rfl, rfl⟩
        exact hqj ⟨h.resolve_injective hq hp, rfl⟩
      simp only [Option.bind_some, put_of_ne t _ hmj]

theorem grow_count (h : t.WellFormed L) (hp : t.resolve p = some n) {k : K}
    (hnone : t.vars n k = none) (q : List K) (j : K) : (t.grow n k).count q j = t.count q j := by
  have hres := grow_resolve_iff (k := k) h hp hnone q
  cases hq : t.resolve q with
  | some m =>
    have hq' := (hres m).mpr (Or.inl hq)
    by_cases hmj : m = n ∧ j = k
    · obtain ⟨rfl, rfl⟩ := hmj
      simp [count, hq, hq', grow_self, hnone]
    · simp only [count, hq, hq', Option.bind_some, grow_of_ne t hmj]
  | none =>
    cases hq' : (t.grow n k).resolve q with
    | none => simp [count, hq, hq']
    | some m =>
      rcases (hres m).mp hq' with hold | ⟨-, rfl⟩
      · rw [hq] at hold
        cases hold
      · -- a new node holds no counter
        have hne : ¬ (t.next = n ∧ j = k) := fun heq => (h.resolve_lt hp).ne' heq.1
        simp [count, hq, hq', grow_of_ne t hne, h.fresh t.next j le_rfl]

end Count

section Add

variable [AddZeroClass V] {L : Layout K} {t : Tree K V}

/-- Adding makes the counter when there is no entry; a child is left alone. -/
def add (t : Tree K V) (n : Nat) (k : K) (delta : V) : Tree K V :=
  match t.vars n k with
  | none => t.put n k (.int delta)
  | some (.int v) => t.put n k (.int (v + delta))
  | some (.node _) => t

theorem add_eq_put (h : t.WellFormed L) {p : List K} {n : Nat} (hp : t.resolve p = some n)
    (hleaf : L.Leaf p) (k : K) (delta : V) :
    t.add n k delta = t.put n k (.int (t.count p k + delta)) := by
  unfold add
  split
  · rename_i hnone
    simp [count, hp, hnone]
  · rename_i x hx
    rw [count_eq_of_int hp hx]
  · rename_i c hc
    exact absurd hc (h.not_node_of_leaf hp hleaf k c)

end Add

end Tree

end Bigmachine.Concurrent
