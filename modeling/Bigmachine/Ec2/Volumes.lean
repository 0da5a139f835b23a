import Bigmachine.Fixed.Signed

/-!
# Data volumes

`System.sliceConfig` divides the configured data space, an unsigned 64-bit number of GiB, into
volumes: as many of 335 GiB as are needed, and at most 25, which are then larger. The volumes
should provide at least the requested space (`Provides`).

With 25 volumes the size is rounded down, so up to 24 GiB are missing; and from `2 ^ 63 - 334`
on the signed arithmetic wraps, and the number of volumes is zero or negative.
-/

namespace Bigmachine.Ec2

open Fixed

def minDataVolumeSliceSize : Int64 := 335

def maxInstanceDataVolumes : Int64 := 25

/-- The number of volumes, and the size of each. -/
def sliceConfig (dataspace : UInt64) : Int64 × Int64 :=
  let sliceSize := minDataVolumeSliceSize
  let nslice := (dataspace.toInt64 + sliceSize - 1) / sliceSize
  if nslice ≤ maxInstanceDataVolumes then (nslice, sliceSize)
  else
    let nslice := maxInstanceDataVolumes
    (nslice, dataspace.toInt64 / nslice)

/-! ## The four ranges -/

theorem toInt_minDataVolumeSliceSize : minDataVolumeSliceSize.toInt = 335 := rfl

theorem toInt_maxInstanceDataVolumes : maxInstanceDataVolumes.toInt = 25 := rfl

/-- The number of slices of the least size, before it is limited. -/
theorem toInt_slices (dataspace : UInt64) :
    ((dataspace.toInt64 + minDataVolumeSliceSize - 1) / minDataVolumeSliceSize).toInt =
      (wrap (dataspace.toNat + 334)).tdiv 335 := by
  have hone : (1 : Int64).toInt = 1 := rfl
  have hsum : (dataspace.toInt64 + minDataVolumeSliceSize - 1).toInt =
      wrap (dataspace.toNat + 334) := by
    rw [toInt_sub, toInt_add, toInt_toInt64, toInt_minDataVolumeSliceSize, hone]
    unfold wrap
    omega
  rw [toInt_div _ (by rw [toInt_minDataVolumeSliceSize]; norm_num), hsum,
    toInt_minDataVolumeSliceSize]

theorem sliceConfig_of_le (dataspace : UInt64)
    (h : (wrap (dataspace.toNat + 334)).tdiv 335 ≤ 25) :
    (sliceConfig dataspace).1.toInt = (wrap (dataspace.toNat + 334)).tdiv 335 ∧
      (sliceConfig dataspace).2.toInt = 335 := by
  have hle : (dataspace.toInt64 + minDataVolumeSliceSize - 1) / minDataVolumeSliceSize ≤
      maxInstanceDataVolumes := by
    rw [Int64.le_iff_toInt_le, toInt_slices, toInt_maxInstanceDataVolumes]
    exact h
  simp only [sliceConfig, hle, if_true]
  exact ⟨toInt_slices dataspace, rfl⟩

/-- All the space fits into at most 25 slices of the least size. -/
theorem sliceConfig_small {dataspace : UInt64} (h : dataspace.toNat ≤ 8375) :
    (sliceConfig dataspace).1.toInt = (dataspace.toNat + 334) / 335 ∧
      (sliceConfig dataspace).2.toInt = 335 := by
  have hwrap : wrap (dataspace.toNat + 334) = dataspace.toNat + 334 :=
    wrap_of_range (by omega)
  have hdiv : (wrap (dataspace.toNat + 334)).tdiv 335 = (dataspace.toNat + 334) / 335 := by
    rw [hwrap, Int.tdiv_eq_ediv_of_nonneg (by omega)]
  rw [← hdiv]
  exact sliceConfig_of_le dataspace (by omega)

theorem sliceConfig_large {dataspace : UInt64}
    (h : 8375 < dataspace.toNat ∧ dataspace.toNat + 334 < 2 ^ 63) :
    (sliceConfig dataspace).1.toInt = 25 ∧
      (sliceConfig dataspace).2.toInt = dataspace.toNat / 25 := by
  have hwrap : wrap (dataspace.toNat + 334) = dataspace.toNat + 334 :=
    wrap_of_range (by omega)
  have hdiv : (wrap (dataspace.toNat + 334)).tdiv 335 = (dataspace.toNat + 334) / 335 := by
    rw [hwrap, Int.tdiv_eq_ediv_of_nonneg (by omega)]
  have hgt : ¬ (dataspace.toInt64 + minDataVolumeSliceSize - 1) / minDataVolumeSliceSize ≤
      maxInstanceDataVolumes := by
    rw [Int64.le_iff_toInt_le, toInt_slices, toInt_maxInstanceDataVolumes, hdiv]
    omega
  simp only [sliceConfig, hgt, if_false]
  refine ⟨rfl, ?_⟩
  rw [toInt_div _ (by rw [toInt_maxInstanceDataVolumes]; norm_num), toInt_toInt64,
    toInt_maxInstanceDataVolumes, wrap_of_range (by omega),
    Int.tdiv_eq_ediv_of_nonneg (by omega)]

/-- The sum overflows, or the data space itself is taken for a negative number. -/
theorem sliceConfig_negative {dataspace : UInt64}
    (h : 2 ^ 63 ≤ dataspace.toNat + 334 ∧ dataspace.toNat < 2 ^ 64 - 668) :
    (sliceConfig dataspace).1.toInt < 0 ∧ (sliceConfig dataspace).2.toInt = 335 := by
  have hwrap : wrap (dataspace.toNat + 334) = dataspace.toNat + 334 - 2 ^ 64 := by
    unfold wrap
    omega
  have hdiv : (wrap (dataspace.toNat + 334)).tdiv 335 =
      -((2 ^ 64 - 334 - dataspace.toNat) / 335) := by
    have hneg : -((dataspace.toNat : Int) + 334 - 2 ^ 64) = 2 ^ 64 - 334 - dataspace.toNat := by
      ring
    rw [hwrap, tdiv_of_nonpos _ (by omega), hneg]
  have hle := sliceConfig_of_le dataspace (by omega)
  rw [hdiv] at hle
  exact ⟨by omega, hle.2⟩

/-- The data space is taken for a negative number that rounds to no slice. -/
theorem sliceConfig_none {dataspace : UInt64} (h : 2 ^ 64 - 668 ≤ dataspace.toNat) :
    (sliceConfig dataspace).1.toInt = 0 ∧ (sliceConfig dataspace).2.toInt = 335 := by
  have hlt := dataspace.toNat_lt
  have hwrap : wrap (dataspace.toNat + 334) = dataspace.toNat + 334 - 2 ^ 64 := by
    unfold wrap
    omega
  have hdiv : (wrap (dataspace.toNat + 334)).tdiv 335 = 0 := by
    rw [hwrap]
    rcases le_total 0 ((dataspace.toNat : Int) + 334 - 2 ^ 64) with h0 | h0
    · rw [Int.tdiv_eq_ediv_of_nonneg h0]
      omega
    · rw [tdiv_of_nonpos _ h0]
      omega
  have hle := sliceConfig_of_le dataspace (by omega)
  rwa [hdiv] at hle

theorem sliceConfig_cases (dataspace : UInt64) :
    (dataspace.toNat ≤ 8375 ∧ (sliceConfig dataspace).1.toInt = (dataspace.toNat + 334) / 335 ∧
      (sliceConfig dataspace).2.toInt = 335) ∨
    ((8375 < dataspace.toNat ∧ dataspace.toNat + 334 < 2 ^ 63) ∧
      (sliceConfig dataspace).1.toInt = 25 ∧
      (sliceConfig dataspace).2.toInt = dataspace.toNat / 25) ∨
    ((2 ^ 63 ≤ dataspace.toNat + 334 ∧ dataspace.toNat < 2 ^ 64 - 668) ∧
      (sliceConfig dataspace).1.toInt < 0 ∧ (sliceConfig dataspace).2.toInt = 335) ∨
    (2 ^ 64 - 668 ≤ dataspace.toNat ∧ (sliceConfig dataspace).1.toInt = 0 ∧
      (sliceConfig dataspace).2.toInt = 335) := by
  by_cases hsmall : dataspace.toNat ≤ 8375
  · exact Or.inl ⟨hsmall, sliceConfig_small hsmall⟩
  · by_cases hfits : dataspace.toNat + 334 < 2 ^ 63
    · have hlarge : 8375 < dataspace.toNat ∧ dataspace.toNat + 334 < 2 ^ 63 :=
        ⟨not_le.mp hsmall, hfits⟩
      exact Or.inr (Or.inl ⟨hlarge, sliceConfig_large hlarge⟩)
    · by_cases hneg : dataspace.toNat < 2 ^ 64 - 668
      · have hover : 2 ^ 63 ≤ dataspace.toNat + 334 ∧ dataspace.toNat < 2 ^ 64 - 668 :=
          ⟨not_lt.mp hfits, hneg⟩
        exact Or.inr (Or.inr (Or.inl ⟨hover, sliceConfig_negative hover⟩))
      · have hnone : 2 ^ 64 - 668 ≤ dataspace.toNat := not_lt.mp hneg
        exact Or.inr (Or.inr (Or.inr ⟨hnone, sliceConfig_none hnone⟩))

/-! ## The space provided -/

/-- `nslice` volumes of the size `sliceSize` are within the limits and provide the data space,
and if there are fewer than 25 no fewer would do. -/
structure Provides (dataspace : UInt64) (nslice sliceSize : Int64) : Prop where
  nonneg : 0 ≤ nslice.toInt
  limit : nslice.toInt ≤ maxInstanceDataVolumes.toInt
  size : minDataVolumeSliceSize.toInt ≤ sliceSize.toInt
  space : dataspace.toNat ≤ nslice.toInt * sliceSize.toInt
  least : nslice.toInt < maxInstanceDataVolumes.toInt →
    ∀ m, m < nslice.toInt → m * sliceSize.toInt < dataspace.toNat

/-- **Data volume sizing.** The volumes provide the requested data space exactly up to 25
volumes of the least size, and beyond that when the space is a multiple of 25 and the signed
sum does not overflow. -/
theorem sliceConfig_provides_iff (dataspace : UInt64) :
    Provides dataspace (sliceConfig dataspace).1 (sliceConfig dataspace).2 ↔
      dataspace.toNat ≤ 8375 ∨ 25 ∣ dataspace.toNat ∧ dataspace.toNat + 334 < 2 ^ 63 := by
  have hmin := toInt_minDataVolumeSliceSize
  have hmax := toInt_maxInstanceDataVolumes
  obtain ⟨hr, hn, hs⟩ | ⟨hr, hn, hs⟩ | ⟨hr, hn, hs⟩ | ⟨hr, hn, hs⟩ := sliceConfig_cases dataspace
  · refine iff_of_true ⟨by omega, by omega, by omega, ?_, fun _ m hm => ?_⟩ (Or.inl hr)
    · rw [hn, hs]; omega
    · rw [hs]; omega
  · have hspace : (dataspace.toNat : Int) ≤ 25 * (dataspace.toNat / 25) ↔ 25 ∣ dataspace.toNat := by
      omega
    constructor
    · intro hp
      have hle := hp.space
      rw [hn, hs, hspace] at hle
      exact Or.inr ⟨hle, hr.2⟩
    · intro h
      have hdvd : 25 ∣ dataspace.toNat := by omega
      refine ⟨by omega, by omega, by omega, ?_, fun hlt => by omega⟩
      rw [hn, hs]
      exact hspace.mpr hdvd
  · refine iff_of_false (fun hp => ?_) (by omega)
    have h0 := hp.nonneg
    omega
  · refine iff_of_false (fun hp => ?_) (by omega)
    have hle := hp.space
    rw [hn, zero_mul] at hle
    omega

/-- 8376 GiB get 25 volumes of 335 GiB, one too few; the greatest data space gets none. -/
theorem sliceConfig_too_small :
    sliceConfig 8376 = (25, 335) ∧ sliceConfig (-1) = (0, 335) ∧
    ¬ ∀ dataspace, Provides dataspace (sliceConfig dataspace).1 (sliceConfig dataspace).2 := by
  refine ⟨by decide +kernel, by decide +kernel, fun h => ?_⟩
  have hspace := (h 8376).space
  exact absurd hspace (by decide +kernel)

end Bigmachine.Ec2
