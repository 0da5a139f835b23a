import Mathlib.Data.Multiset.Basic
import Mathlib.Tactic

/-!
# Pools of pending work

A pool holds, for each call in progress, the items it has still to process, in order.
A step of one call takes its next item (`pop`); a call with nothing left returns
(`retire`). Both account for the items: nothing is lost and nothing is duplicated.
-/

namespace Bigmachine.Transition

/-- The remaining items of every call in progress. -/
abbrev Pool (α : Type) := List (List α)

namespace Pool

variable {α : Type}

/-- Call `i` takes its next item. -/
def pop (p : Pool α) (i : Nat) : Option (α × Pool α) :=
  match p[i]? with
  | some (a :: as) => some (a, p.set i as)
  | _ => none

/-- Call `i` returns; it has no item left. -/
def retire (p : Pool α) (i : Nat) : Option (Pool α) :=
  match p[i]? with
  | some [] => some (p.eraseIdx i)
  | _ => none

theorem pop_eq_some {p q : Pool α} {i : Nat} {a : α} (h : p.pop i = some (a, q)) :
    ∃ as, p[i]? = some (a :: as) ∧ q = p.set i as := by
  unfold pop at h
  split at h
  · rename_i b bs hb
    obtain ⟨rfl, rfl⟩ := Prod.mk.inj (Option.some.inj h)
    exact ⟨bs, hb, rfl⟩
  · cases h

theorem retire_eq_some {p q : Pool α} {i : Nat} (h : p.retire i = some q) :
    p[i]? = some [] ∧ q = p.eraseIdx i := by
  unfold retire at h
  split at h
  · rename_i hb
    exact ⟨hb, (Option.some.inj h).symm⟩
  · cases h

/-- The items of a pool before a call takes one: that item and those that remain. -/
theorem pop_items {p q : Pool α} {i : Nat} {a : α} (h : p.pop i = some (a, q)) :
    (p.flatten : Multiset α) = a ::ₘ (q.flatten : Multiset α) := by
  obtain ⟨as, hi, rfl⟩ := pop_eq_some h
  clear h
  induction p generalizing i with
  | nil => cases hi
  | cons l p ih =>
    cases i with
    | zero =>
      cases hi
      rfl
    | succ i =>
      have hrest := ih hi
      simp only [List.set_cons_succ, List.flatten_cons, ← Multiset.coe_add, hrest,
        Multiset.add_cons]

theorem retire_items {p q : Pool α} {i : Nat} (h : p.retire i = some q) :
    q.flatten = p.flatten := by
  obtain ⟨hi, rfl⟩ := retire_eq_some h
  clear h
  induction p generalizing i with
  | nil => cases hi
  | cons l p ih =>
    cases i with
    | zero =>
      cases hi
      rfl
    | succ i => simp [ih hi]

end Pool

end Bigmachine.Transition
