import Mathlib.Tactic

/-!
# Rings of fixed size

Items are written in turn to the slots of an array of fixed size, the item number `k` to the slot
`k` modulo the size. As long as an item is among the last ones written, as many as there are
slots, its slot holds it (`Holds`).

A reader may compute the slot of an item modulo the number of items that are there, which is
smaller than the size until the ring is full. For the items that are there it is the same slot
(`mod_min`), so reading back from the last item gives the items in reverse (`Holds.recent`). The
reader's arithmetic is on integers and can panic: a remainder by zero, an index out of range.
-/

namespace Bigmachine.Fixed.Ring

variable {α : Type} {size : Nat}

/-! ## Arithmetic that can panic -/

inductive Panic
  | divide -- integer divide by zero
  | index (i : Int) -- index out of range
  deriving DecidableEq, Repr

/-- The remainder, with the sign of `a`. -/
def rem (a b : Int) : Except Panic Int := if b = 0 then .error .divide else .ok (a.tmod b)

def fetch (slots : Fin size → α) (i : Int) : Except Panic α :=
  if h : 0 ≤ i ∧ i.toNat < size then .ok (slots ⟨i.toNat, h.2⟩) else .error (.index i)

theorem rem_natCast (a : Nat) {b : Nat} (hb : 0 < b) : rem a b = .ok ((a % b : Nat) : Int) := by
  have hne : (b : Int) ≠ 0 := by omega
  rw [rem, if_neg hne, Int.ofNat_tmod]

theorem fetch_natCast (slots : Fin size → α) {i : Nat} (hi : i < size) :
    fetch slots i = .ok (slots ⟨i, hi⟩) := by
  simp [fetch, hi]

/-! ## Writing -/

variable [NeZero size]

/-- The item number `k` is written. -/
def put (slots : Fin size → α) (k : Nat) (x : α) : Fin size → α :=
  Function.update slots (Fin.ofNat size k) x

/-- The last items of `xs`, as many as there are slots, are in their slots. -/
def Holds (slots : Fin size → α) (xs : List α) : Prop :=
  ∀ j x, xs[j]? = some x → xs.length ≤ j + size → slots (Fin.ofNat size j) = x

theorem Holds.nil (slots : Fin size → α) : Holds slots [] := by
  intro j x hx
  cases hx

/-- Two numbers that are closer than the size have different slots. -/
theorem ofNat_ne {j k : Nat} (hlt : j < k) (hle : k < j + size) :
    Fin.ofNat size j ≠ Fin.ofNat size k := by
  intro h
  have hmod : j ≡ k [MOD size] := congrArg Fin.val h
  have hdvd : size ∣ k - j := (Nat.modEq_iff_dvd' hlt.le).mp hmod
  have := Nat.le_of_dvd (by omega) hdvd
  omega

theorem Holds.put {slots : Fin size → α} {xs : List α} (h : Holds slots xs) (x : α) :
    Holds (put slots xs.length x) (xs ++ [x]) := by
  intro j y hy hj
  rw [List.length_append, List.length_singleton] at hj
  rcases lt_trichotomy j xs.length with hlt | rfl | hgt
  · rw [List.getElem?_append_left hlt] at hy
    rw [Ring.put, Function.update_of_ne (ofNat_ne hlt (by omega)), h j y hy (by omega)]
  · rw [List.getElem?_concat_length] at hy
    rw [Ring.put, Function.update_self, Option.some.inj hy]
  · rw [List.getElem?_eq_none (by simp; omega)] at hy
    cases hy

/-! ## Reading back -/

omit [NeZero size] in
/-- For an item that is there, the slot modulo the number of items that are there is the slot
modulo the size. -/
theorem mod_min {j k : Nat} (hlt : j < k) : j % min size k = j % size := by
  rcases le_total size k with hle | hle
  · rw [min_eq_left hle]
  · rw [min_eq_right hle, Nat.mod_eq_of_lt hlt, Nat.mod_eq_of_lt (lt_of_lt_of_le hlt hle)]

omit [NeZero size] in
theorem mapM_ok {β γ ε : Type} {f : β → Except ε γ} {g : β → γ} {xs : List β}
    (h : ∀ x ∈ xs, f x = .ok (g x)) : xs.mapM f = .ok (xs.map g) := by
  induction xs with
  | nil => rfl
  | cons x xs ih =>
    rw [List.mapM_cons, h x (List.mem_cons_self ..),
      ih fun y hy => h y (List.mem_cons_of_mem _ hy)]
    rfl

/-- Reading back from the last item of `xs` gives the last items in reverse, without a panic. -/
theorem Holds.recent {slots : Fin size → α} {xs : List α} (h : Holds slots xs) :
    (List.range (min size xs.length)).mapM (fun i => do
      fetch slots (← rem ((xs.length : Int) - i - 1) (min size xs.length : Nat))) =
    .ok (xs.reverse.take size) := by
  have hread : ∀ i ∈ List.range (min size xs.length),
      (do fetch slots (← rem ((xs.length : Int) - i - 1) (min size xs.length : Nat))) =
        .ok (slots (Fin.ofNat size (xs.length - 1 - i))) := by
    intro i hi
    have hi : i < min size xs.length := List.mem_range.mp hi
    have hitem : ((xs.length : Int) - i - 1) = (xs.length - 1 - i : Nat) := by omega
    rw [hitem, rem_natCast _ (by omega), mod_min (by omega)]
    exact fetch_natCast slots (Nat.mod_lt _ (NeZero.pos size))
  rw [mapM_ok hread]
  congr 1
  apply List.ext_getElem?
  intro i
  by_cases hi : i < min size xs.length
  · have hlt : xs.length - 1 - i < xs.length := by omega
    have hx : xs[xs.length - 1 - i]? = some xs[xs.length - 1 - i] := List.getElem?_eq_getElem hlt
    rw [List.getElem?_take_of_lt (by omega), List.getElem?_reverse (by omega), hx,
      List.getElem?_map, List.getElem?_range hi, Option.map_some, h _ _ hx (by omega)]
  · rw [List.getElem?_eq_none (by simp; omega), List.getElem?_eq_none (by simp; omega)]

end Bigmachine.Fixed.Ring
