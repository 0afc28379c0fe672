import Mathlib
import PriorityFeeEstimator.LevelOrder
import PriorityFeeEstimator.Versions
import PriorityFeeEstimator.WindowServer

/-!
# Gauges

Once a second a task of its own reads the store and reports the levels of all
non-vote fees, the recommended fee, and the levels and sample sizes of the
versions. The values are cast to unsigned integers on the way.
-/

namespace PriorityFeeEstimator

open SlotPriorityFees

/-- `as u64`: the part before the point, cut off below 0 and above the largest
    value; NaN gives 0. -/
def F64.asU64 (x : F64) : UInt64 :=
  UInt64.ofNat (min ⌊x.unbotD 0⌋.toNat (2 ^ 64 - 1))

theorem F64.toNat_asU64 (x : F64) : (asU64 x).toNat = min ⌊x.unbotD 0⌋.toNat (2 ^ 64 - 1) := by
  rw [asU64, UInt64.toNat_ofNat']
  omega

/-- The cast keeps the order. -/
theorem F64.asU64_le_asU64 {x y : F64} (h : x ≤ y) : asU64 x ≤ asU64 y := by
  rw [UInt64.le_iff_toNat_le, toNat_asU64, toNat_asU64]
  have hfloor : ⌊x.unbotD 0⌋.toNat ≤ ⌊y.unbotD 0⌋.toNat := by
    induction x using WithBot.recBotCoe with
    | bot => simp
    | coe q =>
      obtain ⟨r, rfl, hqr⟩ := WithBot.coe_le_iff.mp h
      exact Int.toNat_le_toNat (Int.floor_mono hqr)
  omega

/-- `as_tag`. -/
def TransactionVersion.asTag : TransactionVersion → String
  | .legacyV0 => "legacy_v0"
  | .v1 => "v1"

/-- A gauge as it is sent, with its tags. -/
structure Gauge where
  name : String
  value : UInt64
  tags : List (String × String)
deriving DecidableEq

/-- The gauges of all non-vote fees. -/
def generalGauges (globalFees : MicroLamportPriorityFeeEstimates) : List Gauge :=
  [⟨"min_priority_fee", F64.asU64 globalFees.min, [("account", "none")]⟩,
    ⟨"low_priority_fee", F64.asU64 globalFees.low, [("account", "none")]⟩,
    ⟨"medium_priority_fee", F64.asU64 globalFees.medium, [("account", "none")]⟩,
    ⟨"high_priority_fee", F64.asU64 globalFees.high, [("account", "none")]⟩,
    ⟨"very_high_priority_fee", F64.asU64 globalFees.veryHigh, [("account", "none")]⟩,
    ⟨"unsafe_max_priority_fee", F64.asU64 globalFees.unsafeMax, [("account", "none")]⟩,
    ⟨"recommended_priority_fee", F64.asU64 (getRecommendedFee globalFees),
      [("account", "none")]⟩]

/-- The gauges of a version. -/
def versionGauges (version : TransactionVersion)
    (result : MicroLamportPriorityFeeEstimates × ℕ) : List Gauge :=
  let (fees, count) := result
  [("min", fees.min), ("low", fees.low), ("medium", fees.medium), ("high", fees.high),
    ("very_high", fees.veryHigh), ("unsafe_max", fees.unsafeMax)].map
      (fun (level, value) => ⟨"priority_fee_by_version", F64.asU64 value,
        [("transaction_version", version.asTag), ("level", level)]⟩) ++
    [⟨"priority_fee_sample_count_by_version", UInt64.ofNat count,
      [("transaction_version", version.asTag)]⟩]

namespace PriorityFeeTracker

def recordVersionFees (S : Statrs) (versions : TransactionVersion → IterOrder SlotPriorityFees)
    (t : PriorityFeeTracker) : List Gauge :=
  TransactionVersion.all.flatMap fun version =>
    match calculateVersionPriorityFee S (versions version) t.priorityFees version with
    | some result => versionGauges version result
    | none => []

/-- What the task reports. Each calculation traverses the store in an order of its
    own. -/
def recordGeneralFees (S : Statrs) (slots : IterOrder Slot) (groups : IterOrder Group)
    (versions : TransactionVersion → IterOrder SlotPriorityFees) (t : PriorityFeeTracker) :
    List Gauge :=
  let globalFees := calculatePriorityFee S slots groups (.calculation2 [] false false none)
    t.priorityFees
  generalGauges globalFees ++ t.recordVersionFees S versions

end PriorityFeeTracker

/-- The non-vote fees of a version in the window. -/
def windowVersionSample {n : ℕ} (w : Window n) (v : TransactionVersion) : Multiset ℚ :=
  ∑ s ∈ w.keys.toFinset, feesOf ((countedTxns false (w.log s)).filter fun t => t.version = v)

/-- The non-vote fees in the window. -/
def windowFees {n : ℕ} (w : Window n) : Multiset ℚ :=
  ∑ s ∈ w.keys.toFinset, feesOf (countedTxns false (w.log s))

/-- The levels of a sample. -/
noncomputable def levelsOfSample (S : Statrs) (sample : Multiset ℚ) :
    MicroLamportPriorityFeeEstimates :=
  levelsOf S [.global] fun _ => sample

/-- The gauges of the window. -/
noncomputable def windowGauges (S : Statrs) {n : ℕ} (w : Window n) : List Gauge :=
  generalGauges (levelsOfSample S (windowFees w)) ++
    TransactionVersion.all.flatMap fun v =>
      if windowVersionSample w v = 0 then []
      else versionGauges v (levelsOfSample S (windowVersionSample w v),
        (windowVersionSample w v).card)

namespace Simulates

variable {n : ℕ} {t : PriorityFeeTracker} {w : Window n}

/-- The sample of a version is that of the window. -/
theorem coe_versionSample (h : Simulates t w) (o : IterOrder SlotPriorityFees)
    (v : TransactionVersion) :
    (versionSample o t.priorityFees v : Multiset ℚ) = windowVersionSample w v := by
  have hperm : (o.visit (t.priorityFees.entries.map fun e => e.2)).Perm
      (lookbackValues (IterOrder.stored Slot) none t.priorityFees) :=
    (o.perm _).trans (lookbackValues_none_perm h.stored.wellKeyed _).symm
  rw [versionSample, Multiset.coe_eq_coe.mpr (hperm.flatMap_right _),
    coe_flatMap_lookbackValues h.stored.wellKeyed, h.toFinset_lookbackSlots, pickedSlots_none,
    windowVersionSample]
  refine Finset.sum_congr rfl fun s hs => ?_
  cases hv : t.priorityFees.lookup s with
  | none =>
    rw [h.store, ofLog_eq_none_iff] at hv
    exact absurd (List.mem_toFinset.mp hs) ((w.log_eq_nil_iff s).mp hv)
  | some entry =>
    rw [h.store] at hv
    have hfees := coe_counted_ofTxns false ((w.log s).filter fun t => t.version = v)
    rw [Option.elim_some, (logged_of_ofLog hv).ofVersion_eq, countedTxns, List.filter_comm]
    rw [countedTxns] at hfees
    exact hfees

/-- What is reported is read off the window. -/
theorem recordGeneralFees_eq (h : Simulates t w) {S : Statrs} (hS : S.DependsOnMultiset)
    (hnan : S.NanOnEmpty) (slots : IterOrder Slot) (groups : IterOrder Group)
    (versions : TransactionVersion → IterOrder SlotPriorityFees) :
    t.recordGeneralFees S slots groups versions = windowGauges S w := by
  have hgeneral : calculatePriorityFee S slots groups (.calculation2 [] false false none)
      t.priorityFees = levelsOfSample S (windowFees w) := by
    rw [h.calculatePriorityFee_eq hS hnan]
    have hsample : windowSample w (.calculation2 [] false false none) .global = windowFees w := by
      rw [windowSample]
      exact Finset.sum_congr (pickedSlots_none w) fun _ _ => rfl
    apply MicroLamportPriorityFeeEstimates.ext_level
    intro p
    rw [levelsOfSample, levelsOf_level, levelsOf_level, ← hsample]
    rfl
  rw [PriorityFeeTracker.recordGeneralFees, windowGauges, hgeneral]
  congr 1
  refine List.flatMap_congr fun v _ => ?_
  rw [calculateVersionPriorityFee_eq, ← h.coe_versionSample (versions v) v]
  by_cases hnil : versionSample (versions v) t.priorityFees v = []
  · rw [if_pos hnil, if_pos (by rw [hnil]; rfl)]
  · rw [if_neg hnil, if_neg (by rwa [Multiset.coe_eq_zero]), Multiset.coe_card,
      estimateMaxValues_zero_eq hS]
    rfl

end Simulates

section Order

variable {S : Statrs}

theorem levelsOfSample_level (hS : S.DependsOnMultiset) (l : List ℚ) (p : PriorityLevel) :
    (levelsOfSample S l).level p = max (sampleLevel S l p) 0 := by
  rw [levelsOfSample, levelsOf_level, List.map_singleton, List.foldr_cons, List.foldr_nil,
    sampleLevelOf_coe hS]

/-- The levels of a sample ascend. -/
theorem levelsOfSample_mono (hS : S.ExactQuantile) (sample : Multiset ℚ) {p p' : PriorityLevel}
    (hp : p.percentile ≤ p'.percentile) :
    (levelsOfSample S sample).level p ≤ (levelsOfSample S sample).level p' := by
  induction sample using Quotient.inductionOn with
  | h l =>
    change (levelsOfSample S l).level p ≤ (levelsOfSample S l).level p'
    rw [levelsOfSample_level hS.dependsOnMultiset, levelsOfSample_level hS.dependsOnMultiset]
    exact max_le_max (sampleLevel_mono hS l hp) le_rfl

/-- The extreme levels of a part of a sample are no more extreme. -/
theorem levelsOfSample_between (hS : S.ExactQuantile) {part sample : Multiset ℚ}
    (hsub : part ⊆ sample) (hpart : part ≠ 0) (hround : ∀ q ∈ sample, roundHalfAway q = q) :
    (levelsOfSample S sample).min ≤ (levelsOfSample S part).min ∧
      (levelsOfSample S part).unsafeMax ≤ (levelsOfSample S sample).unsafeMax := by
  induction part using Quotient.inductionOn with
  | h l =>
  induction sample using Quotient.inductionOn with
  | h l' =>
    change (l : Multiset ℚ) ⊆ (l' : Multiset ℚ) at hsub
    change ∀ q ∈ (l' : Multiset ℚ), _ at hround
    change (levelsOfSample S (l' : Multiset ℚ)).level .min ≤
        (levelsOfSample S (l : Multiset ℚ)).level .min ∧
      (levelsOfSample S (l : Multiset ℚ)).level .unsafeMax ≤
        (levelsOfSample S (l' : Multiset ℚ)).level .unsafeMax
    have hmem : ∀ q ∈ l, q ∈ l' := fun q hq => hsub hq
    have hne : l ≠ [] := fun he => hpart (by rw [he]; rfl)
    have hne' : l' ≠ [] := fun he => hne (List.eq_nil_iff_forall_not_mem.mpr fun q hq => by
      have := hmem q hq
      rw [he] at this
      cases this)
    simp only [levelsOfSample_level hS.dependsOnMultiset]
    constructor
    · obtain ⟨least, hleast, hlevel, -⟩ := hS.minAtZero l hne
      obtain ⟨least', hleast', hlevel', hle'⟩ := hS.minAtZero l' hne'
      have hmin : ∀ {x q}, q ∈ l' → (S.percentile x 0).1 = (q : ℚ) →
          sampleLevel S x .min = (q : ℚ) := by
        intro x q hq hx
        rw [sampleLevel, show PriorityLevel.min.percentile = 0 from rfl, hx, F64.round_coe,
          hround q hq]
      rw [hmin (hmem least hleast) hlevel, hmin hleast' hlevel']
      exact max_le_max (WithBot.coe_le_coe.mpr (hle' least (hmem least hleast))) le_rfl
    · obtain ⟨hlevel, hlargest⟩ := sampleLevel_unsafeMax hS.maxAtHundred hne
        fun q hq => hround q (hmem q hq)
      obtain ⟨hlevel', -⟩ := sampleLevel_unsafeMax hS.maxAtHundred hne' fun q hq => hround q hq
      rw [hlevel, hlevel']
      exact max_le_max (WithBot.coe_le_coe.mpr (le_largest (hmem _ hlargest))) le_rfl

end Order

/-- A fee of the window is a fee of a transaction. -/
theorem round_of_mem_windowFees {n : ℕ} {w : Window n} {q : ℚ} (hq : q ∈ windowFees w) :
    roundHalfAway q = q := by
  rw [windowFees, Multiset.mem_sum] at hq
  obtain ⟨s, -, hs⟩ := hq
  rw [feesOf, Multiset.mem_coe, List.mem_map] at hs
  obtain ⟨t, -, rfl⟩ := hs
  exact roundHalfAway_u64AsF64 t.priorityFee

theorem windowVersionSample_subset {n : ℕ} (w : Window n) (v : TransactionVersion) :
    windowVersionSample w v ⊆ windowFees w := by
  intro q hq
  rw [windowVersionSample, Multiset.mem_sum] at hq
  obtain ⟨s, hs, hq⟩ := hq
  rw [feesOf, Multiset.mem_coe, List.mem_map] at hq
  obtain ⟨t, ht, rfl⟩ := hq
  rw [windowFees, Multiset.mem_sum]
  exact ⟨s, hs, Multiset.mem_coe.mpr (List.mem_map_of_mem (List.mem_of_mem_filter ht))⟩

/-- The recommended fee is at least 10000, and at least the medium level. -/
theorem le_getRecommendedFee (fees : MicroLamportPriorityFeeEstimates) :
    ((10000 : ℚ) : F64) ≤ getRecommendedFee fees ∧ fees.medium ≤ getRecommendedFee fees := by
  have hceil : ∀ x : F64, x ≤ F64.ceil x := by
    intro x
    induction x using WithBot.recBotCoe with
    | bot => exact bot_le
    | coe q => exact WithBot.coe_le_coe.mpr (Int.le_ceil q)
  rw [getRecommendedFee]
  split
  · next hlt => exact ⟨hlt.le.trans (hceil _), hceil _⟩
  · next hle => exact ⟨hceil _, (not_lt.mp hle).trans (hceil _)⟩

/-- The level gauges reported for a version. -/
def versionValues (v : TransactionVersion) (gauges : List Gauge) : List UInt64 :=
  (gauges.filter fun g => g.name = "priority_fee_by_version" &&
    g.tags.head? = some ("transaction_version", v.asTag)).map Gauge.value

/-- The sample sizes reported for a version. -/
def versionCounts (v : TransactionVersion) (gauges : List Gauge) : List UInt64 :=
  (gauges.filter fun g => g.name = "priority_fee_sample_count_by_version" &&
    g.tags.head? = some ("transaction_version", v.asTag)).map Gauge.value

/-- The six levels as they are cast. -/
def castLevels (fees : MicroLamportPriorityFeeEstimates) : List UInt64 :=
  [F64.asU64 fees.min, F64.asU64 fees.low, F64.asU64 fees.medium, F64.asU64 fees.high,
    F64.asU64 fees.veryHigh, F64.asU64 fees.unsafeMax]

theorem versionValues_windowGauges (S : Statrs) {n : ℕ} (w : Window n) (v : TransactionVersion) :
    versionValues v (windowGauges S w) =
      if windowVersionSample w v = 0 then []
      else castLevels (levelsOfSample S (windowVersionSample w v)) := by
  cases v <;> by_cases h0 : windowVersionSample w .legacyV0 = 0 <;>
    by_cases h1 : windowVersionSample w .v1 = 0 <;>
      simp [versionValues, windowGauges, generalGauges, TransactionVersion.all, versionGauges,
        TransactionVersion.asTag, castLevels, h0, h1]

theorem versionCounts_windowGauges (S : Statrs) {n : ℕ} (w : Window n) (v : TransactionVersion) :
    versionCounts v (windowGauges S w) =
      if windowVersionSample w v = 0 then []
      else [UInt64.ofNat (windowVersionSample w v).card] := by
  cases v <;> by_cases h0 : windowVersionSample w .legacyV0 = 0 <;>
    by_cases h1 : windowVersionSample w .v1 = 0 <;>
      simp [versionCounts, windowGauges, generalGauges, TransactionVersion.all, versionGauges,
        TransactionVersion.asTag, h0, h1]

/-- The levels that are reported, from the lowest percentile to the highest. -/
def reportedLevels : List PriorityLevel := [.min, .low, .medium, .high, .veryHigh, .unsafeMax]

theorem castLevels_eq (fees : MicroLamportPriorityFeeEstimates) :
    castLevels fees = reportedLevels.map fun p => F64.asU64 (fees.level p) := rfl

theorem pairwise_castLevels {S : Statrs} (hS : S.ExactQuantile) (sample : Multiset ℚ) :
    (castLevels (levelsOfSample S sample)).Pairwise (· ≤ ·) := by
  have hpercentiles : reportedLevels.Pairwise fun p p' => p.percentile ≤ p'.percentile := by
    decide
  rw [castLevels_eq, List.pairwise_map]
  exact hpercentiles.imp fun hp => F64.asU64_le_asU64 (levelsOfSample_mono hS sample hp)

/-- The levels of a version lie between the extreme levels of all. -/
theorem castLevels_between {S : Statrs} (hS : S.ExactQuantile) {n : ℕ} {w : Window n}
    {v : TransactionVersion} (hne : windowVersionSample w v ≠ 0) {x : UInt64}
    (hx : x ∈ castLevels (levelsOfSample S (windowVersionSample w v))) :
    F64.asU64 (levelsOfSample S (windowFees w)).min ≤ x ∧
      x ≤ F64.asU64 (levelsOfSample S (windowFees w)).unsafeMax := by
  obtain ⟨hmin, hmax⟩ := levelsOfSample_between hS (windowVersionSample_subset w v) hne
    fun q hq => round_of_mem_windowFees hq
  have hextreme : ∀ p ∈ reportedLevels, PriorityLevel.min.percentile ≤ p.percentile ∧
      p.percentile ≤ PriorityLevel.unsafeMax.percentile := by
    decide
  rw [castLevels_eq, List.mem_map] at hx
  obtain ⟨p, hp, rfl⟩ := hx
  obtain ⟨hlow, hhigh⟩ := hextreme p hp
  exact ⟨F64.asU64_le_asU64 (hmin.trans (levelsOfSample_mono hS _ hlow)),
    F64.asU64_le_asU64 ((levelsOfSample_mono hS _ hhigh).trans hmax)⟩

/-- A version has no sample exactly when the window holds none but votes of it. -/
theorem windowVersionSample_eq_zero_iff {n : ℕ} (w : Window n) (v : TransactionVersion) :
    windowVersionSample w v = 0 ↔ ∀ s ∈ w.keys, ∀ t ∈ w.log s, t.version = v → t.isVote := by
  rw [windowVersionSample, Finset.sum_eq_zero_iff]
  simp only [List.mem_toFinset, feesOf, countedTxns, Multiset.coe_eq_zero, List.map_eq_nil_iff,
    List.filter_filter, List.filter_eq_nil_iff]
  refine forall₂_congr fun s _ => forall₂_congr fun t _ => ?_
  cases t.isVote <;> simp

/-- Whatever was pushed: the general gauges ascend from the lowest level to the
    highest, and the recommended fee is at least 10000 and at least the medium
    level. A version is reported exactly when a slot held has a transaction of it
    that is no vote; its gauges ascend too, lie between the lowest and the highest
    general gauge, and come with the number of these transactions. -/
theorem gauges_in_order {S : Statrs} (hS : S.ExactQuantile) {n : ℕ} (hn : 1 ≤ n)
    (ps : List (Slot × Txn)) (slots : IterOrder Slot) (groups : IterOrder Group)
    (versions : TransactionVersion → IterOrder SlotPriorityFees) :
    let w : Window n := KeyedFifo.run n ps
    let gauges := (PriorityFeeTracker.run n ps).recordGeneralFees S slots groups versions
    ∃ min low medium high veryHigh unsafeMax recommended : UInt64,
      (gauges.take 7).map (fun g => (g.name, g.value)) = [("min_priority_fee", min),
        ("low_priority_fee", low), ("medium_priority_fee", medium), ("high_priority_fee", high),
        ("very_high_priority_fee", veryHigh), ("unsafe_max_priority_fee", unsafeMax),
        ("recommended_priority_fee", recommended)] ∧
      [min, low, medium, high, veryHigh, unsafeMax].Pairwise (· ≤ ·) ∧
      10000 ≤ recommended ∧ medium ≤ recommended ∧
      ∀ v, (versionValues v gauges = [] ↔
          ∀ s ∈ w.keys, ∀ t ∈ w.log s, t.version = v → t.isVote) ∧
        (versionValues v gauges).Pairwise (· ≤ ·) ∧
        (∀ x ∈ versionValues v gauges, min ≤ x ∧ x ≤ unsafeMax) ∧
        (versionValues v gauges ≠ [] →
          versionCounts v gauges = [UInt64.ofNat (windowVersionSample w v).card]) := by
  intro w gauges
  have hgauges : gauges = windowGauges S w :=
    (Simulates.run hn ps).recordGeneralFees_eq hS.dependsOnMultiset hS.nanOnEmpty slots groups
      versions
  obtain ⟨hfloor, hmedium⟩ := le_getRecommendedFee (levelsOfSample S (windowFees w))
  have hfloor' : (10000 : UInt64) = F64.asU64 ((10000 : ℚ) : F64) := by
    rw [F64.asU64, WithBot.unbotD_coe]
    norm_num
    rfl
  rw [hgauges]
  refine ⟨_, _, _, _, _, _, _, rfl, pairwise_castLevels hS (windowFees w),
    hfloor' ▸ F64.asU64_le_asU64 hfloor, F64.asU64_le_asU64 hmedium, fun v => ?_⟩
  rw [versionValues_windowGauges, versionCounts_windowGauges, ← windowVersionSample_eq_zero_iff]
  by_cases hzero : windowVersionSample w v = 0
  · simp [hzero]
  · rw [if_neg hzero, if_neg hzero]
    refine ⟨iff_of_false (List.cons_ne_nil _ _) hzero, pairwise_castLevels hS _,
      fun x hx => castLevels_between hS hzero hx, fun _ => rfl⟩

/-- A transaction of version 1 beside a vote of the other version: the vote is not
    reported. -/
theorem gauges_in_order_vote :
    let gauges := (PriorityFeeTracker.run 1 [(5, ⟨[], 900, false, .v1⟩),
      (5, ⟨[], 7000, true, .legacyV0⟩)]).recordGeneralFees .exact (IterOrder.stored Slot)
        (IterOrder.stored Group) fun _ => IterOrder.stored SlotPriorityFees
    versionValues .legacyV0 gauges = [] ∧ versionValues .v1 gauges ≠ [] := by
  intro gauges
  obtain ⟨_, _, _, _, _, _, _, -, -, -, -, h⟩ := gauges_in_order Statrs.exact_exactQuantile
    (n := 1) (by decide) [(5, ⟨[], 900, false, .v1⟩), (5, ⟨[], 7000, true, .legacyV0⟩)]
    (IterOrder.stored Slot) (IterOrder.stored Group) fun _ => IterOrder.stored SlotPriorityFees
  exact ⟨(h .legacyV0).1.mpr (by decide +kernel), fun he => absurd ((h .v1).1.mp he)
    (by decide +kernel)⟩

end PriorityFeeEstimator
