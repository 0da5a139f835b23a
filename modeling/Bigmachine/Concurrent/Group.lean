import Bigmachine.Transition.System

/-!
# Groups of tasks that share an error

The tasks of a group run concurrently, each with an error of its own or none. The first error that a
task returns is the error of the group, and cancels the other tasks: from then on they may return an
error of the cancellation instead of their own. That error is never the one of the group: when all
tasks have returned, the group has an error exactly when some task has one of its own, and it is one
of these (`finished_err`).
-/

namespace Bigmachine.Concurrent.Group

open Transition

variable {ε : Type}

/-- For each task what it has returned, if it has, and the first error. -/
structure World (ε : Type) where
  returned : List (Option (Option ε))
  err : Option ε := none

/-- A task finishes with its own error or none, or is aborted with the error of the cancellation.
-/
inductive Action
  | finish (i : Nat)
  | abort (i : Nat)
  deriving DecidableEq, Repr

def step (own : List (Option ε)) (canceled : ε) (w : World ε) : Action → Option (World ε)
  | .finish i =>
    match w.returned[i]?, own[i]? with
    | some none, some r => some ⟨w.returned.set i (some r), w.err.or r⟩
    | _, _ => none
  | .abort i =>
    match w.returned[i]?, w.err with
    | some none, some e => some ⟨w.returned.set i (some (some canceled)), some e⟩
    | _, _ => none

def system (own : List (Option ε)) (canceled : ε) : System (World ε) Action :=
  ⟨⟨own.map fun _ => none, none⟩, step own canceled⟩

def World.Finished (w : World ε) : Prop := ∀ r ∈ w.returned, r.isSome = true

/-- The error of the group is one of a task, and until there is one all that was returned is the
tasks' own. -/
structure Inv (own : List (Option ε)) (w : World ε) : Prop where
  length : w.returned.length = own.length
  err : ∀ e, w.err = some e → some e ∈ own
  clean : w.err = none → ∀ (i : Nat) r, w.returned[i]? = some (some r) →
    own[i]? = some none ∧ r = none

theorem getElem?_set_some {α : Type} {l : List (Option α)} {i j : Nat} {a b : α}
    (h : (l.set i (some a))[j]? = some (some b)) :
    (i = j ∧ a = b) ∨ l[j]? = some (some b) := by
  by_cases hij : i = j
  · subst hij
    rw [List.getElem?_set_self'] at h
    cases hl : l[i]? with
    | none => simp [hl] at h
    | some x =>
      rw [hl] at h
      exact Or.inl ⟨rfl, by simpa using h⟩
  · rw [List.getElem?_set_ne hij] at h
    exact Or.inr h

theorem inv_step {own : List (Option ε)} {canceled : ε} {w w' : World ε} {a : Action}
    (h : Inv own w) (hw : step own canceled w a = some w') : Inv own w' := by
  cases a with
  | finish i =>
    simp only [step] at hw
    split at hw
    · rename_i r hret hown
      cases hw
      refine ⟨by simp [h.length], fun e he => ?_, fun hnone j r' hj => ?_⟩
      · rcases Option.or_eq_some_iff.mp he with he | ⟨-, rfl⟩
        · exact h.err e he
        · exact List.mem_of_getElem? hown
      · obtain ⟨hclean, rfl⟩ := Option.or_eq_none_iff.mp hnone
        rcases getElem?_set_some hj with ⟨rfl, rfl⟩ | hj
        · exact ⟨hown, rfl⟩
        · exact h.clean hclean j r' hj
    · cases hw
  | abort i =>
    simp only [step] at hw
    split at hw
    · rename_i e hret herr
      cases hw
      refine ⟨by simp [h.length], fun e' he' => h.err e' (herr.trans he'), fun hnone => ?_⟩
      cases hnone
    · cases hw

theorem reachable_inv {own : List (Option ε)} {canceled : ε} {tr : List Action} {w : World ε}
    (h : Steps (system own canceled) Always (system own canceled).init tr w) : Inv own w := by
  refine h.invariant (I := Inv own) (fun _ _ _ hi _ hstep => inv_step hi hstep) ?_
  refine ⟨by simp [system], (fun e he => by cases he), fun _ i r hr => ?_⟩
  simp [system, List.getElem?_replicate] at hr

/-- The error of a group that has finished. -/
theorem finished_err {own : List (Option ε)} {canceled : ε} {tr : List Action} {w : World ε}
    (h : Steps (system own canceled) Always (system own canceled).init tr w) (hfin : w.Finished) :
    (w.err = none ↔ ∀ r ∈ own, r = none) ∧ ∀ e, w.err = some e → some e ∈ own := by
  have hinv := reachable_inv h
  refine ⟨⟨fun hnone r hr => ?_, fun hown => ?_⟩, hinv.err⟩
  · obtain ⟨i, hi⟩ := List.getElem?_of_mem hr
    have hlt : i < w.returned.length := by
      rw [hinv.length]
      exact (List.getElem?_eq_some_iff.mp hi).1
    have hret : w.returned[i]? = some w.returned[i] := List.getElem?_eq_getElem hlt
    obtain ⟨r', hr'⟩ := Option.isSome_iff_exists.mp (hfin _ (List.getElem_mem hlt))
    obtain ⟨hclean, -⟩ := hinv.clean hnone i r' (hret.trans (congrArg some hr'))
    exact Option.some.inj (hi.symm.trans hclean)
  · cases herr : w.err with
    | none => rfl
    | some e => cases hown _ (hinv.err e herr)

end Bigmachine.Concurrent.Group
