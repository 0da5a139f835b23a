import Mathlib.Tactic

/-!
# Signed machine integers as integers

What the operations of `Int64` do to the integers that they stand for, in a form that linear
arithmetic can use: wrapping as a remainder, and truncated division by a positive number as
floor division.
-/

namespace Bigmachine.Fixed

/-- The representative of `x` modulo `2 ^ 64` in the signed range. -/
def wrap (x : Int) : Int := (x + 2 ^ 63) % 2 ^ 64 - 2 ^ 63

theorem bmod_eq_wrap (x : Int) : x.bmod (2 ^ 64) = wrap x := by
  rw [Int.bmod_def, wrap]
  split <;> omega

theorem wrap_of_range {x : Int} (h : -2 ^ 63 ≤ x ∧ x < 2 ^ 63) : wrap x = x := by
  unfold wrap
  omega

theorem toInt_toInt64 (x : UInt64) : x.toInt64.toInt = wrap x.toNat := by
  rw [← bmod_eq_wrap]
  exact BitVec.toInt_eq_toNat_bmod x.toBitVec

theorem toInt_add (a b : Int64) : (a + b).toInt = wrap (a.toInt + b.toInt) := by
  rw [Int64.toInt_add, bmod_eq_wrap]

theorem toInt_sub (a b : Int64) : (a - b).toInt = wrap (a.toInt - b.toInt) := by
  rw [Int64.toInt_sub, bmod_eq_wrap]

theorem toInt_range (a : Int64) : -2 ^ 63 ≤ a.toInt ∧ a.toInt < 2 ^ 63 :=
  ⟨a.le_toInt, a.toInt_lt⟩

theorem tdiv_of_nonpos {a : Int} (b : Int) (h : a ≤ 0) : a.tdiv b = -(-a / b) := by
  rw [← Int.tdiv_eq_ediv_of_nonneg (by omega), Int.neg_tdiv, neg_neg]

/-- Division by a positive number cannot overflow. -/
theorem toInt_div (a : Int64) {b : Int64} (hb : 0 < b.toInt) :
    (a / b).toInt = a.toInt.tdiv b.toInt := by
  rw [Int64.toInt_div, bmod_eq_wrap]
  have ha := toInt_range a
  refine wrap_of_range ?_
  rcases le_total 0 a.toInt with h | h
  · rw [Int.tdiv_eq_ediv_of_nonneg h]
    have hle := Int.ediv_le_self b.toInt h
    have hnn := Int.ediv_nonneg h hb.le
    omega
  · have hneg : 0 ≤ -a.toInt := by omega
    rw [tdiv_of_nonpos b.toInt h]
    have hle := Int.ediv_le_self b.toInt hneg
    have hnn := Int.ediv_nonneg hneg hb.le
    omega

end Bigmachine.Fixed
