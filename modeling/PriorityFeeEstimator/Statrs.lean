import Mathlib
import PriorityFeeEstimator.Lib.OrderStatistics

/-!
# Numbers and the statistics crate

Fees are `f64` values that the program never makes NaN, infinite or negative
zero: they are exact rationals here. A level can be NaN (the percentile of an
empty sample), so a level is a rational or `⊥`, and `f64::max`, which ignores
NaN, is the maximum of that order.

The `statrs` crate is a parameter: four functions on samples, of which
`percentile` may rearrange the sample it is given. What a result needs of them
is stated by the predicates `DependsOnMultiset`, `NanOnEmpty`, `MaxAtHundred`,
`MinAtZero` and, in full, `ExactQuantile`. `Statrs.exact` is the crate's quantile
over exact rationals.
-/

namespace PriorityFeeEstimator

/-- An `f64` that is a number or NaN. NaN is `⊥`, so that `max` ignores it. -/
abbrev F64 := WithBot ℚ

/-- NaN. -/
def F64.nan : F64 := ⊥

/-- The nearest integer with at most 53 significant bits, ties to even. -/
def roundTo53Bits (n : ℕ) : ℕ :=
  let ulp := 2 ^ (n.log2 - 52)
  let q := n / ulp
  let r := n % ulp
  if 2 * r < ulp then q * ulp
  else if ulp < 2 * r then (q + 1) * ulp
  else (q + q % 2) * ulp

/-- `n as f64` for an unsigned 64-bit integer. -/
def u64AsF64 (n : UInt64) : ℚ := roundTo53Bits n.toNat

/-- Integers below `2 ^ 53` are converted exactly. -/
theorem roundTo53Bits_eq_self {n : ℕ} (h : n < 2 ^ 53) : roundTo53Bits n = n := by
  have hlog : n.log2 - 52 = 0 := by
    rcases Nat.eq_zero_or_pos n with rfl | hpos
    · rfl
    · have := (Nat.log2_lt hpos.ne').mpr h
      omega
  simp [roundTo53Bits, hlog, Nat.mod_one]

theorem u64AsF64_nonneg (n : UInt64) : 0 ≤ u64AsF64 n := Nat.cast_nonneg _

/-- `round` of the standard library on a number: to the nearest integer, half
    away from zero. -/
def roundHalfAway (q : ℚ) : ℚ :=
  if 0 ≤ q then (⌊q + 1 / 2⌋ : ℤ) else (⌈q - 1 / 2⌉ : ℤ)

theorem roundHalfAway_natCast (n : ℕ) : roundHalfAway n = n := by
  have h : ⌊(n : ℚ) + 1 / 2⌋ = n := by
    rw [Int.floor_eq_iff]
    constructor <;> push_cast <;> linarith
  rw [roundHalfAway, if_pos (Nat.cast_nonneg n), h]
  rfl

theorem roundHalfAway_mono : Monotone roundHalfAway := by
  intro q q' hle
  rw [roundHalfAway, roundHalfAway]
  by_cases hq : 0 ≤ q
  · rw [if_pos hq, if_pos (hq.trans hle)]
    exact_mod_cast Int.floor_mono (by linarith)
  · rw [if_neg hq]
    by_cases hq' : 0 ≤ q'
    · -- a negative number is not rounded above zero, the other one not below
      rw [if_pos hq']
      have hlow : ⌈q - 1 / 2⌉ ≤ 0 := Int.ceil_le.mpr (by push_cast; linarith)
      have hhigh : 0 ≤ ⌊q' + 1 / 2⌋ := Int.floor_nonneg.mpr (by linarith)
      exact_mod_cast hlow.trans hhigh
    · rw [if_neg hq']
      exact_mod_cast Int.ceil_mono (by linarith)

theorem roundHalfAway_u64AsF64 (n : UInt64) : roundHalfAway (u64AsF64 n) = u64AsF64 n :=
  roundHalfAway_natCast _

/-- `f64::round`. -/
def F64.round (x : F64) : F64 := x.map roundHalfAway

@[simp] theorem F64.round_nan : F64.round ⊥ = ⊥ := rfl

@[simp] theorem F64.round_coe (q : ℚ) : F64.round (q : F64) = (roundHalfAway q : ℚ) := rfl

/-- The functions of the `statrs` crate that the program calls on a sample. The
    percentile is computed in place: it comes with the sample as it leaves it. -/
structure Statrs where
  percentile : List ℚ → ℕ → F64 × List ℚ
  mean : List ℚ → Option F64
  stdDev : List ℚ → Option F64
  skewness : List ℚ → Option F64

namespace Statrs

/-- A percentile depends on the values of the sample only, and leaves the same
    values behind. -/
structure DependsOnMultiset (S : Statrs) : Prop where
  perm : ∀ l p, (S.percentile l p).2.Perm l
  congr : ∀ {l l' : List ℚ} p, l.Perm l' → (S.percentile l p).1 = (S.percentile l' p).1

/-- The percentiles of an empty sample are NaN. -/
def NanOnEmpty (S : Statrs) : Prop := ∀ p, (S.percentile [] p).1 = ⊥

/-- The 100th percentile is the largest value. -/
def MaxAtHundred (S : Statrs) : Prop := ∀ l ≠ [], (S.percentile l 100).1 = l.maximum

/-- The 0th percentile is the smallest value. -/
def MinAtZero (S : Statrs) : Prop :=
  ∀ l ≠ [], ∃ m ∈ l, (S.percentile l 0).1 = (m : ℚ) ∧ ∀ x ∈ l, m ≤ x

/-- The quantile of a sample sorted upwards, NaN on an empty one: with `h = (n + 1/3) * tau + 1/3`,
    the smallest value while `⌊h⌋ ≤ 0`, the largest from `⌊h⌋ = n` on, and in
    between the interpolation from the `⌊h⌋`-th value to the next one. -/
def quantile (sorted : List ℚ) (tau : ℚ) : F64 :=
  let n := sorted.length
  let h := (n + 1 / 3) * tau + 1 / 3
  let hf := ⌊h⌋
  if sorted = [] ∨ tau < 0 ∨ 1 < tau then ⊥
  else if hf ≤ 0 ∨ tau = 0 then (sorted.getD 0 0 : ℚ)
  else if (n : ℤ) ≤ hf ∨ tau = 1 then (sorted.getD (n - 1) 0 : ℚ)
  else
    let a := sorted.getD (hf.toNat - 1) 0
    let b := sorted.getD hf.toNat 0
    (a + (h - hf) * (b - a) : ℚ)

/-- The mean, NaN on an empty sample. -/
def exactMean (l : List ℚ) : F64 :=
  match l with
  | [] => ⊥
  | _ :: _ => (l.sum / l.length : ℚ)

/-- The square root of the sample variance, NaN below two values, and with six
    decimals where it is irrational. -/
def exactStdDev (l : List ℚ) : F64 :=
  if l.length < 2 then ⊥
  else
    let mean : ℚ := l.sum / l.length
    let variance : ℚ := (l.map fun x => (x - mean) ^ 2).sum / (l.length - 1)
    let micros : ℕ := Nat.sqrt ⌊variance * 10 ^ 12⌋.toNat
    (micros / 10 ^ 6 : ℚ)

/-- The crate over exact rationals. It leaves the sample sorted, and does not
    define a skewness. -/
def exact : Statrs where
  percentile l p :=
    let sorted := l.insertionSort (· ≤ ·)
    (quantile sorted (p / 100), sorted)
  mean l := some (exactMean l)
  stdDev l := some (exactStdDev l)
  skewness _ := none

/-- The percentiles are the quantiles of the sample sorted upwards, and the
    sample comes back rearranged. -/
structure ExactQuantile (S : Statrs) : Prop where
  perm : ∀ l p, (S.percentile l p).2.Perm l
  percentile : ∀ l p, (S.percentile l p).1 = quantile (l.insertionSort (· ≤ ·)) (p / 100)

theorem exact_exactQuantile : exact.ExactQuantile where
  perm l _ := List.perm_insertionSort _ l
  percentile _ _ := rfl

theorem ExactQuantile.dependsOnMultiset {S : Statrs} (hS : S.ExactQuantile) :
    S.DependsOnMultiset where
  perm := hS.perm
  congr {l l'} p h := by
    rw [hS.percentile, hS.percentile, insertionSort_eq_of_perm h]

theorem ExactQuantile.nanOnEmpty {S : Statrs} (hS : S.ExactQuantile) : S.NanOnEmpty := by
  intro p
  simp [hS.percentile, quantile]

theorem exact_dependsOnMultiset : exact.DependsOnMultiset := exact_exactQuantile.dependsOnMultiset

theorem exact_nanOnEmpty : exact.NanOnEmpty := exact_exactQuantile.nanOnEmpty

private theorem quantile_one {sorted : List ℚ} (hne : sorted ≠ []) :
    quantile sorted 1 = (sorted.getLast hne : ℚ) := by
  have hpos : 0 < sorted.length := List.length_pos_iff.mpr hne
  have hh : ¬⌊((sorted.length : ℚ) + 1 / 3) * 1 + 1 / 3⌋ ≤ 0 := by
    have h1 : (1 : ℚ) ≤ sorted.length := by exact_mod_cast hpos
    rw [not_le, Int.floor_pos]
    linarith
  rw [quantile, if_neg (by norm_num [hne]), if_neg (by simpa using hh), if_pos (.inr rfl),
    List.getLast_eq_getElem, List.getD_eq_getElem _ _ (by omega)]

private theorem quantile_zero {sorted : List ℚ} (hne : sorted ≠ []) :
    quantile sorted 0 = (sorted.head hne : ℚ) := by
  rw [quantile, if_neg (by norm_num [hne]), if_pos (.inr rfl), List.head_eq_getElem,
    List.getD_eq_getElem _ _ (List.length_pos_iff.mpr hne)]

theorem ExactQuantile.maxAtHundred {S : Statrs} (hS : S.ExactQuantile) : S.MaxAtHundred := by
  intro l hl
  have hne := insertionSort_ne_nil hl
  have hq : (S.percentile l 100).1 = ((l.insertionSort (· ≤ ·)).getLast hne : ℚ) := by
    rw [← quantile_one hne, hS.percentile]
    norm_num
  rw [hq, eq_comm, List.maximum_eq_coe_iff]
  refine ⟨(List.mem_insertionSort _).mp (List.getLast_mem hne), fun a ha => ?_⟩
  exact (List.pairwise_insertionSort (· ≤ ·) l).rel_getLast
    ((List.mem_insertionSort _).mpr ha)

theorem exact_maxAtHundred : exact.MaxAtHundred := exact_exactQuantile.maxAtHundred

theorem ExactQuantile.minAtZero {S : Statrs} (hS : S.ExactQuantile) : S.MinAtZero := by
  intro l hl
  have hne := insertionSort_ne_nil hl
  refine ⟨(l.insertionSort (· ≤ ·)).head hne,
    (List.mem_insertionSort _).mp (List.head_mem hne), ?_, fun x hx => ?_⟩
  · rw [← quantile_zero hne]
    simp [hS.percentile]
  · exact (List.pairwise_insertionSort (· ≤ ·) l).rel_head ((List.mem_insertionSort _).mpr hx)

theorem exact_minAtZero : exact.MinAtZero := exact_exactQuantile.minAtZero

/-- The place of a quantile among the values of a sample, counted from 1. -/
def position (n : ℕ) (tau : ℚ) : ℚ := (n + 1 / 3) * tau + 1 / 3

/-- Larger shares have later places. -/
theorem position_mono (n : ℕ) : Monotone (position n) := by
  intro tau tau' hle
  have := mul_le_mul_of_nonneg_left hle (show (0 : ℚ) ≤ n + 1 / 3 by positivity)
  rw [position, position]
  linarith

/-- With `k` values more the place moves on by at most `k`. -/
theorem position_add_le (n k : ℕ) {tau : ℚ} (h : tau ≤ 1) :
    position (k + n) tau ≤ position n tau + k := by
  have := mul_le_mul_of_nonneg_left h (show (0 : ℚ) ≤ k by positivity)
  rw [position, position]
  push_cast
  linarith

/-- The clamped ends of the quantile are the ends of the order statistics: it is
    their interpolation. -/
theorem quantile_eq_interpolate {sorted : List ℚ} (hne : sorted ≠ []) {tau : ℚ} (h0 : 0 ≤ tau)
    (h1 : tau ≤ 1) :
    quantile sorted tau =
      (interpolate (orderStat sorted) (position sorted.length tau) : ℚ) := by
  have hrange : ¬(sorted = [] ∨ tau < 0 ∨ 1 < tau) := by
    rintro (h | h | h)
    · exact hne h
    · exact absurd h0 (not_le.mpr h)
    · exact absurd h1 (not_le.mpr h)
  rw [quantile, if_neg hrange, ← position]
  split
  · next hlow =>
    have hfloor : ⌊position sorted.length tau⌋ ≤ 0 := by
      rcases hlow with h | rfl
      · exact h
      · exact (Int.floor_eq_zero_iff.mpr (by norm_num [position])).le
    rw [interpolate_eq_of_eq (orderStat_of_le_one (by omega)) (orderStat_of_le_one (by omega))]
  · split
    · next hhigh =>
      have hfloor : (sorted.length : ℤ) ≤ ⌊position sorted.length tau⌋ := by
        rcases hhigh with h | rfl
        · exact h
        · rw [Int.le_floor, position]
          push_cast
          linarith
      rw [interpolate_eq_of_eq (orderStat_of_length_le hfloor)
        (orderStat_of_length_le (by omega))]
    · next hlow hhigh =>
      rw [not_or, not_le] at hlow hhigh
      have hleft : orderStat sorted ⌊position sorted.length tau⌋ =
          sorted.getD (⌊position sorted.length tau⌋.toNat - 1) 0 := by
        rw [orderStat]
        congr 1
        omega
      have hright : orderStat sorted (⌊position sorted.length tau⌋ + 1) =
          sorted.getD ⌊position sorted.length tau⌋.toNat 0 := by
        rw [orderStat]
        congr 1
        omega
      rw [interpolate, hleft, hright]

end Statrs

end PriorityFeeEstimator
