import Mathlib
import PriorityFeeEstimator.Samples

/-!
# Levels and details

`estimate_max_values` raises six running levels to the rounded percentiles of
one sample; the result of a request folds it over the groups, in the order in
which the hash map yields them. The percentiles are taken in place, one after
another on the same vector. A level is characterised here by the bounds it
respects, so that neither the order of the groups nor the state of the vectors
enters any later argument.
-/

namespace PriorityFeeEstimator

/-- Raise the running levels to the rounded percentiles of a sample. The sample
    comes back as the percentiles leave it. -/
def estimateMaxValues (S : Statrs) (fees : List ℚ)
    (estimates : MicroLamportPriorityFeeEstimates) :
    MicroLamportPriorityFeeEstimates × List ℚ :=
  let (min, fees) := S.percentile fees PriorityLevel.min.percentile
  let (low, fees) := S.percentile fees PriorityLevel.low.percentile
  let (medium, fees) := S.percentile fees PriorityLevel.medium.percentile
  let (high, fees) := S.percentile fees PriorityLevel.high.percentile
  let (veryHigh, fees) := S.percentile fees PriorityLevel.veryHigh.percentile
  let (unsafeMax, fees) := S.percentile fees PriorityLevel.unsafeMax.percentile
  ({ min := max (F64.round min) estimates.min
     low := max (F64.round low) estimates.low
     medium := max (F64.round medium) estimates.medium
     high := max (F64.round high) estimates.high
     veryHigh := max (F64.round veryHigh) estimates.veryHigh
     unsafeMax := max (F64.round unsafeMax) estimates.unsafeMax }, fees)

/-- A group of a calculation: its type and its sample. -/
abbrev Group := (_ : DataType) × List ℚ

/-- The fold of `estimate_max_values` over the groups. -/
def foldEstimates (S : Statrs) (groups : List Group) : MicroLamportPriorityFeeEstimates :=
  groups.foldl (fun estimate data => (estimateMaxValues S data.2 estimate).1) .zero

/-- The six levels of a request. The parameters `slots` and `groups` are the
    orders in which the store and the samples are traversed. -/
def calculatePriorityFee (S : Statrs) (slots : IterOrder Slot) (groups : IterOrder Group)
    (calculation : Calculations) (priorityFees : PriorityFeesBySlot) :
    MicroLamportPriorityFeeEstimates :=
  foldEstimates S
    (groups.visit (calculation.getPriorityFeeEstimates slots priorityFees).entries)

/-- `to_string` of a group, given that of a key. -/
def DataType.toText (display : Pubkey → String) : DataType → String
  | .global => "Global"
  | .allAccounts => "All Accounts"
  | .account key => display key

/-- The details of one group. The moments are taken of the vector the
    percentiles leave behind. -/
def groupDetails (S : Statrs) (fees : List ℚ) : MicroLamportPriorityFeeDetails :=
  let (estimates, fees) := estimateMaxValues S fees .zero
  { estimates := estimates
    mean := F64.round ((S.mean fees).getD F64.nan)
    stdev := F64.round ((S.stdDev fees).getD F64.nan)
    skew := F64.round ((S.skewness fees).getD F64.nan)
    count := fees.length }

/-- The six levels and the details by group name. The levels are folded over a
    clone of the samples, which is traversed in an order of its own. -/
def calculatePriorityFeeDetails (S : Statrs) (display : Pubkey → String)
    (slots : IterOrder Slot) (cloned groups : IterOrder Group) (calculation : Calculations)
    (priorityFees : PriorityFeesBySlot) :
    MicroLamportPriorityFeeEstimates × Table String MicroLamportPriorityFeeDetails :=
  let data := calculation.getPriorityFeeEstimates slots priorityFees
  let finalResult := foldEstimates S (cloned.visit data.entries)
  let results := (groups.visit data.entries).foldl
    (fun results data => results.insert (data.1.toText display) (groupDetails S data.2)) ∅
  (finalResult, results)

/-- One round of the loop over the slots: the non-vote fees of the version are
    added to the sample. -/
def visitVersion (version : TransactionVersion) (fees : List ℚ) (slot : SlotPriorityFees) :
    List ℚ :=
  match slot.versionFees.lookup version with
  | some versionFees => fees ++ versionFees.nonVoteFees
  | none => fees

/-- The levels and the size of the non-vote sample of one version, nothing when
    the sample is empty. -/
def calculateVersionPriorityFee (S : Statrs) (slots : IterOrder SlotPriorityFees)
    (priorityFees : PriorityFeesBySlot) (version : TransactionVersion) :
    Option (MicroLamportPriorityFeeEstimates × ℕ) :=
  let fees :=
    (slots.visit (priorityFees.entries.map fun entry => entry.2)).foldl (visitVersion version) []
  let count := fees.length
  if count = 0 then none else some ((estimateMaxValues S fees .zero).1, count)

/-- The level a single sample gives, NaN when it has no such percentile. -/
def sampleLevel (S : Statrs) (fees : List ℚ) (p : PriorityLevel) : F64 :=
  F64.round (S.percentile fees p.percentile).1

theorem sampleLevel_congr {S : Statrs} (hS : S.DependsOnMultiset) {l l' : List ℚ}
    (h : l.Perm l') (p : PriorityLevel) : sampleLevel S l p = sampleLevel S l' p := by
  rw [sampleLevel, sampleLevel, hS.congr _ h]

theorem sampleLevel_nil {S : Statrs} (hS : S.NanOnEmpty) (p : PriorityLevel) :
    sampleLevel S [] p = ⊥ := by
  rw [sampleLevel, hS]
  rfl

/-- Each level is raised to the level of the sample; the percentiles taken
    before on the same vector do not matter. -/
theorem estimateMaxValues_level {S : Statrs} (hS : S.DependsOnMultiset) (fees : List ℚ)
    (e : MicroLamportPriorityFeeEstimates) (p : PriorityLevel) :
    (estimateMaxValues S fees e).1.level p = max (sampleLevel S fees p) (e.level p) := by
  have h0 := hS.perm fees PriorityLevel.min.percentile
  have h1 := (hS.perm _ PriorityLevel.low.percentile).trans h0
  have h2 := (hS.perm _ PriorityLevel.medium.percentile).trans h1
  have h3 := (hS.perm _ PriorityLevel.high.percentile).trans h2
  have h4 := (hS.perm _ PriorityLevel.veryHigh.percentile).trans h3
  cases p with
  | min => rfl
  | low => exact congrArg (fun x => max (F64.round x) _) (hS.congr _ h0)
  | medium => exact congrArg (fun x => max (F64.round x) _) (hS.congr _ h1)
  | high => exact congrArg (fun x => max (F64.round x) _) (hS.congr _ h2)
  | veryHigh => exact congrArg (fun x => max (F64.round x) _) (hS.congr _ h3)
  | unsafeMax => exact congrArg (fun x => max (F64.round x) _) (hS.congr _ h4)
  | default => exact congrArg (fun x => max (F64.round x) _) (hS.congr _ h1)

/-- The vector comes back with the values it had. -/
theorem estimateMaxValues_perm {S : Statrs} (hS : S.DependsOnMultiset) (fees : List ℚ)
    (e : MicroLamportPriorityFeeEstimates) : (estimateMaxValues S fees e).2.Perm fees :=
  (hS.perm _ _).trans ((hS.perm _ _).trans ((hS.perm _ _).trans ((hS.perm _ _).trans
    ((hS.perm _ _).trans (hS.perm _ _)))))

theorem groupDetails_level {S : Statrs} (hS : S.DependsOnMultiset) (fees : List ℚ)
    (p : PriorityLevel) :
    (groupDetails S fees).estimates.level p = max (sampleLevel S fees p) 0 := by
  rw [← MicroLamportPriorityFeeEstimates.zero_level p]
  exact estimateMaxValues_level hS fees .zero p

theorem groupDetails_count {S : Statrs} (hS : S.DependsOnMultiset) (fees : List ℚ) :
    (groupDetails S fees).count = fees.length :=
  (estimateMaxValues_perm hS fees .zero).length_eq

private theorem foldl_level_le_iff {S : Statrs} (hS : S.DependsOnMultiset) (groups : List Group)
    (e : MicroLamportPriorityFeeEstimates) (p : PriorityLevel) (x : F64) :
    (groups.foldl (fun estimate data => (estimateMaxValues S data.2 estimate).1) e).level p ≤ x ↔
      e.level p ≤ x ∧ ∀ g ∈ groups, sampleLevel S g.2 p ≤ x := by
  induction groups generalizing e with
  | nil => simp
  | cons g groups ih =>
    rw [List.foldl_cons, ih, estimateMaxValues_level hS, max_le_iff]
    simp only [List.mem_cons, forall_eq_or_imp]
    tauto

/-- A bound of a folded level is a bound of zero and of the level of every
    sample. -/
theorem foldEstimates_level_le_iff {S : Statrs} (hS : S.DependsOnMultiset) (groups : List Group)
    (p : PriorityLevel) (x : F64) :
    (foldEstimates S groups).level p ≤ x ↔
      0 ≤ x ∧ ∀ g ∈ groups, sampleLevel S g.2 p ≤ x := by
  rw [foldEstimates, foldl_level_le_iff hS, MicroLamportPriorityFeeEstimates.zero_level]

/-- A bound of a level is a bound of zero and of the level of every group. -/
theorem calculatePriorityFee_level_le_iff {S : Statrs} (hS : S.DependsOnMultiset)
    (slots : IterOrder Slot) (groups : IterOrder Group) (c : Calculations)
    (m : PriorityFeesBySlot) (p : PriorityLevel) (x : F64) :
    (calculatePriorityFee S slots groups c m).level p ≤ x ↔
      0 ≤ x ∧ ∀ d l, (c.getPriorityFeeEstimates slots m).lookup d = some l →
        sampleLevel S l p ≤ x := by
  rw [calculatePriorityFee, foldEstimates_level_le_iff hS]
  refine and_congr_right fun _ => ⟨fun h d l hl => ?_, fun h g hg => ?_⟩
  · exact h ⟨d, l⟩ ((groups.mem_visit).mpr (Table.mem_entries_iff.mpr hl))
  · exact h g.1 g.2 (Table.mem_entries_iff.mp ((groups.mem_visit).mp hg))

/-- The bounds again, by the samples of the groups that are there. -/
theorem calculatePriorityFee_level_le_iff_mem {S : Statrs} (hS : S.DependsOnMultiset)
    (slots : IterOrder Slot) (groups : IterOrder Group) (c : Calculations)
    (m : PriorityFeesBySlot) (p : PriorityLevel) (x : F64) :
    (calculatePriorityFee S slots groups c m).level p ≤ x ↔
      0 ≤ x ∧ ∀ d ∈ c.getPriorityFeeEstimates slots m,
        sampleLevel S ((c.getPriorityFeeEstimates slots m).sample d) p ≤ x := by
  rw [calculatePriorityFee_level_le_iff hS]
  refine and_congr_right fun _ => forall_congr' fun d => ?_
  constructor
  · intro h hd
    obtain ⟨l, hl⟩ := Table.mem_iff_exists_lookup.mp hd
    rw [DataStats.sample, hl]
    exact h l hl
  · intro h l hl
    have hd := h (Table.mem_iff_exists_lookup.mpr ⟨l, hl⟩)
    rwa [DataStats.sample, hl] at hd

/-- When percentiles of empty samples are NaN, absent groups can be counted as
    empty ones. -/
theorem calculatePriorityFee_level_le_iff_sample {S : Statrs} (hS : S.DependsOnMultiset)
    (hnan : S.NanOnEmpty) (slots : IterOrder Slot) (groups : IterOrder Group) (c : Calculations)
    (m : PriorityFeesBySlot) (p : PriorityLevel) (x : F64) :
    (calculatePriorityFee S slots groups c m).level p ≤ x ↔
      0 ≤ x ∧ ∀ d, sampleLevel S ((c.getPriorityFeeEstimates slots m).sample d) p ≤ x := by
  rw [calculatePriorityFee_level_le_iff hS]
  refine and_congr_right fun _ => ⟨fun h d => ?_, fun h d l hl => ?_⟩
  · cases hl : (c.getPriorityFeeEstimates slots m).lookup d with
    | none =>
      rw [DataStats.sample, hl, Option.getD_none, sampleLevel_nil hnan]
      exact bot_le
    | some l =>
      rw [DataStats.sample, hl, Option.getD_some]
      exact h d l hl
  · have := h d
    rwa [DataStats.sample, hl, Option.getD_some] at this

/-- Levels with the same bounds are the same. -/
theorem estimates_eq_of_level_le_iff {e e' : MicroLamportPriorityFeeEstimates}
    (h : ∀ p x, e.level p ≤ x ↔ e'.level p ≤ x) : e = e' :=
  MicroLamportPriorityFeeEstimates.ext_level fun p => eq_of_forall_ge_iff (h p)

/-- Two samples by group with the same values everywhere, absent groups counted
    as empty. -/
def DataStats.SameSamples (data data' : DataStats) : Prop :=
  ∀ d, (data.sample d).Perm (data'.sample d)

/-- The same samples give the same levels, whatever the traversals. -/
theorem calculatePriorityFee_congr {S : Statrs} (hS : S.DependsOnMultiset) (hnan : S.NanOnEmpty)
    {slots slots' : IterOrder Slot} {groups groups' : IterOrder Group} {c c' : Calculations}
    {m m' : PriorityFeesBySlot}
    (h : (c.getPriorityFeeEstimates slots m).SameSamples (c'.getPriorityFeeEstimates slots' m')) :
    calculatePriorityFee S slots groups c m = calculatePriorityFee S slots' groups' c' m' := by
  refine estimates_eq_of_level_le_iff fun p x => ?_
  rw [calculatePriorityFee_level_le_iff_sample hS hnan,
    calculatePriorityFee_level_le_iff_sample hS hnan]
  refine and_congr_right fun _ => forall_congr' fun d => ?_
  rw [sampleLevel_congr hS (h d)]

end PriorityFeeEstimator
