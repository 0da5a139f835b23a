import Mathlib.Tactic

/-!
# Labelled transition systems

A system is an initial state and a partial step function: `step s a = none` says that
the action `a` is not enabled in `s`. All nondeterminism (which thread moves, what a
call returns) is in the label, so a system can be run on a list of labels.

* `Steps S ok s tr t`: the labels `tr` lead from `s` to `t`, and every step meets the
  condition `ok` in the state before it. With `ok = Always` these are all the runs.
* `Steps.invariant` and `Steps.relation`: what one step preserves is preserved by a
  run; the first for properties of a state, the second for relations between an
  earlier and a later state. `Steps.avoid` turns the end of a run into a condition that
  all its steps have met.
* `System.history` is what an observer sees of a run, and `Steps.history_invariant` the
  induction rule for statements about a state and the history that led to it.
* `System.exec` runs a system; `exists_steps` and `exists_steps_twice` turn a computed
  run into `Steps`.
-/

namespace Bigmachine.Transition

universe u v

structure System (σ : Type u) (ℓ : Type v) where
  init : σ
  step : σ → ℓ → Option σ

/-- The condition on steps that every step meets. -/
def Always {σ : Type u} {ℓ : Type v} : σ → ℓ → Prop := fun _ _ => True

instance {σ : Type u} {ℓ : Type v} (s : σ) (a : ℓ) : Decidable (Always s a) :=
  inferInstanceAs (Decidable True)

/-- The runs of `S` all of whose steps meet `ok` in the state before the step. -/
inductive Steps {σ : Type u} {ℓ : Type v} (S : System σ ℓ) (ok : σ → ℓ → Prop) :
    σ → List ℓ → σ → Prop
  | nil (s : σ) : Steps S ok s [] s
  | cons {s t u : σ} {a : ℓ} {tr : List ℓ} (guard : ok s a) (step : S.step s a = some t)
      (rest : Steps S ok t tr u) : Steps S ok s (a :: tr) u

variable {σ : Type u} {ℓ : Type v} {S : System σ ℓ} {ok : σ → ℓ → Prop}

/-! ## Composition of runs -/

namespace Steps

theorem single {s t : σ} {a : ℓ} (guard : ok s a) (step : S.step s a = some t) :
    Steps S ok s [a] t :=
  .cons guard step (.nil t)

theorem append {s t u : σ} {tr tr' : List ℓ} (h : Steps S ok s tr t)
    (h' : Steps S ok t tr' u) : Steps S ok s (tr ++ tr') u := by
  induction h with
  | nil => exact h'
  | cons guard step _ ih => exact .cons guard step (ih h')

theorem mono {ok' : σ → ℓ → Prop} (hok : ∀ s a, ok s a → ok' s a) {s t : σ} {tr : List ℓ}
    (h : Steps S ok s tr t) : Steps S ok' s tr t := by
  induction h with
  | nil s => exact .nil s
  | cons guard step _ ih => exact .cons (hok _ _ guard) step ih

/-! ## Induction over runs -/

/-- What every step keeps, every run keeps. -/
theorem invariant {I : σ → Prop}
    (hstep : ∀ s a t, I s → ok s a → S.step s a = some t → I t)
    {s t : σ} {tr : List ℓ} (h : Steps S ok s tr t) (hs : I s) : I t := by
  induction h with
  | nil => exact hs
  | cons guard step _ ih => exact ih (hstep _ _ _ hs guard step)

/-- A reflexive and transitive relation that holds across every step from a state
satisfying the invariant `I` holds across every run from such a state. -/
theorem relation {I : σ → Prop} {R : σ → σ → Prop}
    (hinv : ∀ s a t, I s → ok s a → S.step s a = some t → I t)
    (hrefl : ∀ s, R s s) (htrans : ∀ s t u, R s t → R t u → R s u)
    (hstep : ∀ s a t, I s → ok s a → S.step s a = some t → R s t)
    {s t : σ} {tr : List ℓ} (h : Steps S ok s tr t) (hs : I s) : R s t := by
  induction h with
  | nil s => exact hrefl s
  | cons guard step _ ih =>
    exact htrans _ _ _ (hstep _ _ _ hs guard step) (ih (hinv _ _ _ hs guard step))

/-- When every step of `S` is, through `f`, a step of `S'`, every run is a run of `S'`. -/
theorem simulate {σ' : Type u} {ℓ' : Type v} {S' : System σ' ℓ'} {ok' : σ' → ℓ' → Prop}
    (f : σ → σ')
    (hstep : ∀ s a t, ok s a → S.step s a = some t →
      ∃ b, ok' (f s) b ∧ S'.step (f s) b = some (f t))
    {s t : σ} {tr : List ℓ} (h : Steps S ok s tr t) : ∃ tr', Steps S' ok' (f s) tr' (f t) := by
  induction h with
  | nil s => exact ⟨[], .nil _⟩
  | cons guard step _ ih =>
    obtain ⟨b, hb, hstep'⟩ := hstep _ _ _ guard step
    obtain ⟨tr', htr'⟩ := ih
    exact ⟨b :: tr', .cons hb hstep' htr'⟩

/-- What every step from a state satisfying the invariant `I` has, every label of a run has. -/
theorem forall_mem {I : σ → Prop} {Q : ℓ → Prop}
    (hstep : ∀ s a t, I s → ok s a → S.step s a = some t → I t ∧ Q a)
    {s t : σ} {tr : List ℓ} (h : Steps S ok s tr t) (hs : I s) : ∀ a ∈ tr, Q a := by
  induction h with
  | nil s => simp
  | cons guard step _ ih =>
    obtain ⟨hi, hq⟩ := hstep _ _ _ hs guard step
    simpa [hq] using ih hi

/-- What the step `a` establishes and every step keeps, from states satisfying the invariant
`J`, holds after a run with the step `a`. -/
theorem invariant_of_mem {I J : σ → Prop} {a : ℓ}
    (hinv : ∀ s b t, J s → ok s b → S.step s b = some t → J t)
    (hmade : ∀ s t, S.step s a = some t → I t)
    (hstep : ∀ s b t, J s → I s → S.step s b = some t → I t)
    {s t : σ} {tr : List ℓ} (h : Steps S ok s tr t) (hs : J s) (ha : a ∈ tr) : I t := by
  induction h with
  | nil s => cases ha
  | cons guard step rest ih =>
    have hj := hinv _ _ _ hs guard step
    rcases List.mem_cons.mp ha with rfl | hmem
    · have hboth : ∀ s b t, J s ∧ I s → ok s b → S.step s b = some t → J t ∧ I t :=
        fun s b t hi hok hb => ⟨hinv s b t hi.1 hok hb, hstep s b t hi.1 hi.2 hb⟩
      exact (rest.invariant (I := fun s => J s ∧ I s) hboth ⟨hj, hmade _ _ step⟩).2
    · exact ih hj hmem

/-- When every step that does not meet `ok'` leads into the trap `D`, and none leads out of it,
a run that does not end in the trap meets `ok'`. -/
theorem avoid {ok' : σ → ℓ → Prop} {I D : σ → Prop}
    (hinv : ∀ s a t, I s → ok s a → S.step s a = some t → I t)
    (htrap : ∀ s a t, I s → ok s a → ¬ ok' s a → S.step s a = some t → D t)
    (hkeep : ∀ s a t, I s → D s → ok s a → S.step s a = some t → D t)
    {s t : σ} {tr : List ℓ} (h : Steps S ok s tr t) (hs : I s) (ht : ¬ D t) :
    Steps S (fun s a => ok s a ∧ ok' s a) s tr t := by
  induction h with
  | nil s => exact .nil s
  | @cons s u t a tr guard step rest ih =>
    have hu : I u := hinv _ _ _ hs guard step
    by_cases hok : ok' s a
    · exact .cons ⟨guard, hok⟩ step (ih hu ht)
    · have hboth : ∀ s a t, I s ∧ D s → ok s a → S.step s a = some t → I t ∧ D t :=
        fun s a t hi hguard hstep =>
          ⟨hinv s a t hi.1 hguard hstep, hkeep s a t hi.1 hi.2 hguard hstep⟩
      have hend : I t ∧ D t :=
        rest.invariant (I := fun s => I s ∧ D s) hboth ⟨hu, htrap _ _ _ hs guard hok step⟩
      exact absurd hend.2 ht

end Steps

/-! ## States passed by a run -/

/-- The run `tr` from `s` to `t` passes through a state satisfying `P`; both ends
count. -/
def Passes (S : System σ ℓ) (ok : σ → ℓ → Prop) (P : σ → Prop) (s : σ) (tr : List ℓ)
    (t : σ) : Prop :=
  ∃ tr₁ tr₂ u, tr = tr₁ ++ tr₂ ∧ Steps S ok s tr₁ u ∧ Steps S ok u tr₂ t ∧ P u

theorem passes_nil_iff {P : σ → Prop} {s : σ} : Passes S ok P s [] s ↔ P s := by
  constructor
  · rintro ⟨tr₁, tr₂, u, htr, h₁, -, hu⟩
    obtain ⟨rfl, -⟩ := List.nil_eq_append_iff.mp htr
    cases h₁
    exact hu
  · intro hs
    exact ⟨[], [], s, rfl, .nil s, .nil s, hs⟩

theorem passes_cons_iff {P : σ → Prop} {s t u : σ} {a : ℓ} {tr : List ℓ} (guard : ok s a)
    (step : S.step s a = some t) (rest : Steps S ok t tr u) :
    Passes S ok P s (a :: tr) u ↔ P s ∨ Passes S ok P t tr u := by
  constructor
  · rintro ⟨tr₁, tr₂, v, htr, h₁, h₂, hv⟩
    cases h₁ with
    | nil => exact Or.inl hv
    | cons _ step' rest' =>
      obtain ⟨rfl, rfl⟩ := List.cons.inj htr
      cases step.symm.trans step'
      exact Or.inr ⟨_, tr₂, v, rfl, rest', h₂, hv⟩
  · rintro (hs | ⟨tr₁, tr₂, v, rfl, h₁, h₂, hv⟩)
    · exact ⟨[], _, s, rfl, .nil s, .cons guard step rest, hs⟩
    · exact ⟨a :: tr₁, tr₂, v, rfl, .cons guard step h₁, h₂, hv⟩

theorem passes_of_start {P : σ → Prop} {s t : σ} {tr : List ℓ} (h : Steps S ok s tr t)
    (hs : P s) : Passes S ok P s tr t :=
  ⟨[], tr, s, rfl, .nil s, h, hs⟩

/-! ## Histories -/

/-- What an observer, who sees `obs s a` of the step `a` in the state `s`, sees of a run. -/
def System.history {ε : Type*} (S : System σ ℓ) (obs : σ → ℓ → List ε) (s : σ) :
    List ℓ → List ε
  | [] => []
  | a :: tr =>
    match S.step s a with
    | some t => obs s a ++ S.history obs t tr
    | none => []

section History

variable {ε : Type*} {obs : σ → ℓ → List ε}

theorem System.history_cons {s t : σ} {a : ℓ} (h : S.step s a = some t) (tr : List ℓ) :
    S.history obs s (a :: tr) = obs s a ++ S.history obs t tr := by
  rw [System.history, h]

theorem Steps.history_single {s t : σ} {a : ℓ} (h : Steps S ok s [a] t) {evs : List ε}
    (hobs : obs s a = evs) : S.history obs s [a] = evs := by
  cases h with
  | cons _ step _ => rw [System.history_cons step, hobs, System.history, List.append_nil]

theorem Steps.history_append {s t : σ} {tr : List ℓ} (h : Steps S ok s tr t) (tr' : List ℓ) :
    S.history obs s (tr ++ tr') = S.history obs s tr ++ S.history obs t tr' := by
  induction h with
  | nil s => rfl
  | cons _ step _ ih =>
    rw [List.cons_append, System.history_cons step, System.history_cons step, ih,
      List.append_assoc]

/-- What every step keeps, of the state and the history so far, every run keeps. -/
theorem Steps.history_invariant {I : σ → List ε → Prop}
    (hstep : ∀ s a t evs, I s evs → ok s a → S.step s a = some t → I t (evs ++ obs s a))
    {s t : σ} {tr : List ℓ} (h : Steps S ok s tr t) {evs : List ε} (hs : I s evs) :
    I t (evs ++ S.history obs s tr) := by
  induction h generalizing evs with
  | nil s =>
    rw [System.history, List.append_nil]
    exact hs
  | cons guard step _ ih =>
    rw [System.history_cons step, ← List.append_assoc]
    exact ih (hstep _ _ _ _ hs guard step)

/-- When every step of `S` is, through `f`, a run of `S'` that looks the same, every run of `S`
is a run of `S'` that looks the same. -/
theorem Steps.refine {σ' ℓ' : Type*} {S' : System σ' ℓ'} {ok' : σ' → ℓ' → Prop}
    {obs' : σ' → ℓ' → List ε} {I : σ → Prop} (f : σ → σ')
    (hstep : ∀ s a t, I s → ok s a → S.step s a = some t → I t ∧
      ∃ tr', Steps S' ok' (f s) tr' (f t) ∧ S'.history obs' (f s) tr' = obs s a)
    {s t : σ} {tr : List ℓ} (h : Steps S ok s tr t) (hs : I s) :
    ∃ tr', Steps S' ok' (f s) tr' (f t) ∧ S'.history obs' (f s) tr' = S.history obs s tr := by
  induction h with
  | nil s => exact ⟨[], .nil _, rfl⟩
  | cons guard step _ ih =>
    obtain ⟨hi, tr₁, h₁, hobs₁⟩ := hstep _ _ _ hs guard step
    obtain ⟨tr₂, h₂, hobs₂⟩ := ih hi
    refine ⟨tr₁ ++ tr₂, h₁.append h₂, ?_⟩
    rw [h₁.history_append, hobs₁, hobs₂, System.history_cons step]

end History

/-! ## Computed runs -/

/-- Run `S`, refusing every step that does not meet `ok`. -/
def System.exec (S : System σ ℓ) (ok : σ → ℓ → Prop) [∀ s a, Decidable (ok s a)] (s : σ) :
    List ℓ → Option σ
  | [] => some s
  | a :: tr => if ok s a then (S.step s a).bind fun t => S.exec ok t tr else none

variable [∀ s a, Decidable (ok s a)]

theorem steps_of_exec {s t : σ} {tr : List ℓ} (h : S.exec ok s tr = some t) :
    Steps S ok s tr t := by
  induction tr generalizing s with
  | nil =>
    cases h
    exact .nil _
  | cons a tr ih =>
    simp only [System.exec] at h
    split at h
    · rename_i guard
      obtain ⟨v, hv, hrest⟩ := Option.bind_eq_some_iff.mp h
      exact .cons guard hv (ih hrest)
    · cases h

/-- The state computed by a run has property `P`. -/
def System.Leads (S : System σ ℓ) (ok : σ → ℓ → Prop) [∀ s a, Decidable (ok s a)] (s : σ)
    (tr : List ℓ) (P : σ → Prop) [DecidablePred P] : Bool :=
  (S.exec ok s tr).any fun t => decide (P t)

variable (S ok)

theorem exists_steps (s : σ) (tr : List ℓ) (P : σ → Prop) [DecidablePred P]
    (h : S.Leads ok s tr P = true) : ∃ t, Steps S ok s tr t ∧ P t := by
  obtain ⟨t, ht, hP⟩ := (Option.any_eq_true _ _).mp h
  exact ⟨t, steps_of_exec ht, decide_eq_true_eq.mp hP⟩

theorem exists_steps_twice (s : σ) (tr₁ tr₂ : List ℓ) (P Q : σ → Prop) [DecidablePred P]
    [DecidablePred Q] (h : S.Leads ok s tr₁ (fun t => P t ∧ S.Leads ok t tr₂ Q = true) = true) :
    ∃ t u, Steps S ok s tr₁ t ∧ Steps S ok t tr₂ u ∧ P t ∧ Q u := by
  obtain ⟨t, ht, hP, hQ⟩ := exists_steps S ok s tr₁ _ h
  obtain ⟨u, hu, hQ⟩ := exists_steps S ok t tr₂ Q hQ
  exact ⟨t, u, ht, hu, hP, hQ⟩

end Bigmachine.Transition
