import Mathlib
import PriorityFeeEstimator.Agreement
import PriorityFeeEstimator.RelatedStores

/-!
# The order of the levels

With the exact quantile a level grows with its percentile and with the values of
the sample, and least values added to the sample do not raise it. The maximum
over the groups keeps all three: the six levels of a request ascend, from zero
to the largest value collected; raised fees raise no level less; and zeros
filled in for empty slots raise none.
-/

namespace PriorityFeeEstimator

open SlotPriorityFees

-- ════════════════════════════════════════════════════════════════════════
-- The levels of one sample
-- ════════════════════════════════════════════════════════════════════════

section Sample

variable {S : Statrs} {l l' : List ℚ}

/-- The share of the sample a level stands for. -/
def PriorityLevel.share (p : PriorityLevel) : ℚ := p.percentile / 100

theorem PriorityLevel.share_nonneg (p : PriorityLevel) : 0 ≤ p.share := by
  rw [share]
  positivity

theorem PriorityLevel.share_le_one (p : PriorityLevel) : p.share ≤ 1 := by
  cases p <;> norm_num [share, percentile]

theorem PriorityLevel.share_le_share {p p' : PriorityLevel} (h : p.percentile ≤ p'.percentile) :
    p.share ≤ p'.share := by
  rw [share, share]
  gcongr

/-- The level of a sample with values is their interpolation, rounded. -/
theorem sampleLevel_eq_interpolate (hS : S.ExactQuantile) (hne : l ≠ []) (p : PriorityLevel) :
    sampleLevel S l p =
      (roundHalfAway (interpolate (orderStat (l.insertionSort (· ≤ ·)))
        (Statrs.position l.length p.share)) : ℚ) := by
  rw [sampleLevel, hS.percentile, ← PriorityLevel.share,
    Statrs.quantile_eq_interpolate (insertionSort_ne_nil hne) p.share_nonneg p.share_le_one, F64.round_coe,
    List.length_insertionSort]

/-- A level grows with its percentile. -/
theorem sampleLevel_mono (hS : S.ExactQuantile) (l : List ℚ) {p p' : PriorityLevel}
    (hp : p.percentile ≤ p'.percentile) : sampleLevel S l p ≤ sampleLevel S l p' := by
  rcases eq_or_ne l [] with rfl | hne
  · rw [sampleLevel_nil hS.nanOnEmpty]
    exact bot_le
  · rw [sampleLevel_eq_interpolate hS hne, sampleLevel_eq_interpolate hS hne]
    apply WithBot.coe_le_coe.mpr
    apply roundHalfAway_mono
    apply interpolate_mono (orderStat_mono (List.pairwise_insertionSort _ l))
    exact Statrs.position_mono _ (PriorityLevel.share_le_share hp)

/-- A level grows with the values of the sample. -/
theorem sampleLevel_le_of_forall₂ (hS : S.ExactQuantile) (h : List.Forall₂ (· ≤ ·) l l')
    (p : PriorityLevel) : sampleLevel S l p ≤ sampleLevel S l' p := by
  rcases eq_or_ne l [] with rfl | hne
  · rw [sampleLevel_nil hS.nanOnEmpty]
    exact bot_le
  · have hne' : l' ≠ [] := by
      apply List.ne_nil_of_length_pos
      rw [← h.length_eq]
      exact List.length_pos_iff.mpr hne
    rw [sampleLevel_eq_interpolate hS hne, sampleLevel_eq_interpolate hS hne', h.length_eq]
    apply WithBot.coe_le_coe.mpr
    apply roundHalfAway_mono
    apply interpolate_le_interpolate
    exact orderStat_le_orderStat (forall₂_le_insertionSort h)

/-- A level is no larger than the values of the sample, rounded. -/
theorem sampleLevel_le_of_forall_le (hS : S.ExactQuantile) {c : ℚ} (hc : ∀ x ∈ l, x ≤ c)
    (p : PriorityLevel) : sampleLevel S l p ≤ (roundHalfAway c : ℚ) := by
  rcases eq_or_ne l [] with rfl | hne
  · rw [sampleLevel_nil hS.nanOnEmpty]
    exact bot_le
  · rw [sampleLevel_eq_interpolate hS hne]
    apply WithBot.coe_le_coe.mpr
    apply roundHalfAway_mono
    apply interpolate_le
    intro i
    exact hc _ ((List.mem_insertionSort _).mp (orderStat_mem (insertionSort_ne_nil hne) i))

/-- Zeros added to a sample without negative values do not raise a level above
    zero. -/
theorem sampleLevel_append_zeros_le (hS : S.ExactQuantile) (h0 : ∀ x ∈ l, 0 ≤ x) {k : ℕ}
    (hl' : l'.Perm (l ++ List.replicate k 0)) (p : PriorityLevel) :
    sampleLevel S l' p ≤ max (sampleLevel S l p) 0 := by
  rcases eq_or_ne l [] with rfl | hne
  · -- nothing but zeros
    have hzero : ∀ x ∈ l', x ≤ 0 := fun x hx =>
      (List.eq_of_mem_replicate (hl'.mem_iff.mp hx)).le
    refine (sampleLevel_le_of_forall_le hS hzero p).trans (le_max_of_le_right ?_)
    exact WithBot.coe_le_coe.mpr (roundHalfAway_natCast 0).le
  · have hne' : l' ≠ [] := by
      rintro rfl
      exact hne (List.append_eq_nil_iff.mp hl'.nil_eq.symm).1
    have hsort : l'.insertionSort (· ≤ ·) = List.replicate k 0 ++ l.insertionSort (· ≤ ·) := by
      rw [insertionSort_eq_of_perm hl', insertionSort_append_replicate h0]
    have hlen : l'.length = k + l.length := by
      rw [hl'.length_eq, List.length_append, List.length_replicate, Nat.add_comm]
    apply le_max_of_le_left
    rw [sampleLevel_eq_interpolate hS hne, sampleLevel_eq_interpolate hS hne', hsort, hlen]
    apply WithBot.coe_le_coe.mpr
    apply roundHalfAway_mono
    apply interpolate_orderStat_replicate_append_le (List.pairwise_insertionSort _ l)
      (insertionSort_ne_nil hne)
    · exact fun x hx => h0 x ((List.mem_insertionSort _).mp hx)
    · exact_mod_cast Statrs.position_add_le l.length k p.share_le_one

end Sample

-- ════════════════════════════════════════════════════════════════════════
-- The levels of a request
-- ════════════════════════════════════════════════════════════════════════

section Levels

variable {S : Statrs} {m m' : PriorityFeesBySlot} {c c' : Calculations}

theorem calculatePriorityFee_level_nonneg (hS : S.DependsOnMultiset) (o : IterOrder Slot)
    (g : IterOrder Group) (c : Calculations) (m : PriorityFeesBySlot) (p : PriorityLevel) :
    0 ≤ (calculatePriorityFee S o g c m).level p :=
  ((calculatePriorityFee_level_le_iff hS o g c m p _).mp le_rfl).1

/-- The level of every sample is a lower bound of the level of the request. -/
theorem sampleLevel_le_level (hS : S.DependsOnMultiset) (hnan : S.NanOnEmpty) (o : IterOrder Slot)
    (g : IterOrder Group) (c : Calculations) (m : PriorityFeesBySlot) (p : PriorityLevel)
    (d : DataType) :
    sampleLevel S ((c.getPriorityFeeEstimates o m).sample d) p ≤
      (calculatePriorityFee S o g c m).level p :=
  ((calculatePriorityFee_level_le_iff_sample hS hnan o g c m p _).mp le_rfl).2 d

/-- What holds sample by sample, zero apart, holds of the levels. -/
theorem level_le_level (hS : S.DependsOnMultiset) (hnan : S.NanOnEmpty) {o o' : IterOrder Slot}
    (g g' : IterOrder Group) {p p' : PriorityLevel}
    (h : ∀ d, sampleLevel S ((c.getPriorityFeeEstimates o m).sample d) p ≤
      max (sampleLevel S ((c'.getPriorityFeeEstimates o' m').sample d) p') 0) :
    (calculatePriorityFee S o g c m).level p ≤ (calculatePriorityFee S o' g' c' m').level p' := by
  have hpos := calculatePriorityFee_level_nonneg hS o' g' c' m' p'
  rw [calculatePriorityFee_level_le_iff_sample hS hnan]
  refine ⟨hpos, fun d => (h d).trans (max_le ?_ hpos)⟩
  exact sampleLevel_le_level hS hnan o' g' c' m' p' d

/-- A value is in the union of the groups when it is in some sample. -/
theorem mem_union_iff {data : DataStats} {q : ℚ} :
    (q ∈ data.entries.flatMap fun group => group.2) ↔ ∃ d, q ∈ data.sample d := by
  rw [List.mem_flatMap]
  constructor
  · rintro ⟨⟨d, sample⟩, hd, hq⟩
    refine ⟨d, ?_⟩
    rw [DataStats.sample, Table.mem_entries_iff.mp hd]
    exact hq
  · rintro ⟨d, hq⟩
    cases hd : data.lookup d with
    | none =>
      rw [DataStats.sample, hd] at hq
      cases hq
    | some sample =>
      rw [DataStats.sample, hd] at hq
      exact ⟨⟨d, sample⟩, Table.mem_entries_iff.mpr hd, hq⟩

/-- The highest level is the largest value of all groups, when the fees are
    natural numbers. -/
theorem unsafeMax_eq_largest (hS : S.ExactQuantile) (hm : AllFees (fun q => ∃ k : ℕ, q = k) m)
    (o : IterOrder Slot) (g : IterOrder Group) (c : Calculations) :
    (calculatePriorityFee S o g c m).unsafeMax =
      (largest ((c.getPriorityFeeEstimates o m).entries.flatMap fun group => group.2) : ℚ) := by
  set data := c.getPriorityFeeEstimates o m with hdata
  set union := data.entries.flatMap fun group => group.2 with hunion
  have hnat : ∀ d, ∀ q ∈ data.sample d, ∃ k : ℕ, q = k := fun d q hq =>
    hm.sample ⟨0, Nat.cast_zero.symm⟩ hq
  have hround : ∀ d, ∀ q ∈ data.sample d, roundHalfAway q = q := by
    intro d q hq
    obtain ⟨k, rfl⟩ := hnat d q hq
    exact roundHalfAway_natCast k
  have hlevel : ∀ d, data.sample d ≠ [] →
      sampleLevel S (data.sample d) .unsafeMax = (largest (data.sample d) : ℚ) := fun d hne =>
    (sampleLevel_unsafeMax hS.maxAtHundred hne (hround d)).1
  show (calculatePriorityFee S o g c m).level .unsafeMax = _
  apply le_antisymm
  · rw [calculatePriorityFee_level_le_iff_sample hS.dependsOnMultiset hS.nanOnEmpty]
    constructor
    · rcases eq_or_ne union [] with he | hne
      · rw [he]
        exact le_rfl
      · obtain ⟨d, hd⟩ := mem_union_iff.mp (largest_mem hne)
        obtain ⟨k, hk⟩ := hnat d _ hd
        rw [hk]
        exact WithBot.coe_le_coe.mpr (Nat.cast_nonneg k)
    · intro d
      rcases eq_or_ne (data.sample d) [] with he | hne
      · rw [← hdata, he, sampleLevel_nil hS.nanOnEmpty]
        exact bot_le
      · rw [← hdata, hlevel d hne]
        exact WithBot.coe_le_coe.mpr (le_largest (mem_union_iff.mpr ⟨d, largest_mem hne⟩))
  · rcases eq_or_ne union [] with he | hne
    · rw [he]
      exact calculatePriorityFee_level_nonneg hS.dependsOnMultiset o g c m .unsafeMax
    · obtain ⟨d, hd⟩ := mem_union_iff.mp (largest_mem hne)
      have hbound := sampleLevel_le_level hS.dependsOnMultiset hS.nanOnEmpty o g c m .unsafeMax d
      rw [← hdata, hlevel d (List.ne_nil_of_mem hd)] at hbound
      exact (WithBot.coe_le_coe.mpr (le_largest hd)).trans hbound

/-- The fees of a reachable store are natural numbers. -/
theorem Stored.allFees (h : Stored m) : AllFees (fun q => ∃ k : ℕ, q = k) m := by
  have hof : ∀ l : List Txn, (Fees.ofTxns l).All fun q => ∃ k : ℕ, q = k := by
    intro l
    constructor <;> intro q hq <;> obtain ⟨t, -, rfl⟩ := List.mem_map.mp hq <;>
      exact ⟨roundTo53Bits t.priorityFee.toNat, rfl⟩
  intro s v hv
  obtain ⟨l, hl⟩ := h s v hv
  have hlog := logged_of_ofLog hl
  refine ⟨hlog.fees_eq ▸ hof l, fun a f hf => ?_⟩
  rw [hlog.lookup_account, Fees.recorded] at hf
  split at hf
  · cases hf
  · exact Option.some.inj hf ▸ hof _

/-- In every store whose fees are natural numbers the six levels of a request
    ascend from zero on, and the highest is the largest value of all groups. -/
theorem levels_ascend (hS : S.ExactQuantile) (hm : AllFees (fun q => ∃ k : ℕ, q = k) m)
    (o : IterOrder Slot) (g : IterOrder Group) (c : Calculations) :
    let e := calculatePriorityFee S o g c m
    let union := (c.getPriorityFeeEstimates o m).entries.flatMap fun group => group.2
    0 ≤ e.min ∧ e.min ≤ e.low ∧ e.low ≤ e.medium ∧ e.medium ≤ e.high ∧ e.high ≤ e.veryHigh ∧
      e.veryHigh ≤ e.unsafeMax ∧ e.unsafeMax = (largest union : ℚ) := by
  intro e union
  have hmono : ∀ p p' : PriorityLevel, p.percentile ≤ p'.percentile → e.level p ≤ e.level p' :=
    fun p p' hp => level_le_level hS.dependsOnMultiset hS.nanOnEmpty g g fun d =>
      le_max_of_le_left (sampleLevel_mono hS _ hp)
  refine ⟨calculatePriorityFee_level_nonneg hS.dependsOnMultiset o g c m .min,
    hmono .min .low ?_, hmono .low .medium ?_, hmono .medium .high ?_, hmono .high .veryHigh ?_,
    hmono .veryHigh .unsafeMax ?_, unsafeMax_eq_largest hS hm o g c⟩ <;> decide

/-- Two slots, the dearer one without the account requested. -/
theorem levels_ascend_two :
    let key := Pubkey.filled 1
    let m := (PriorityFeeTracker.run 2
      [(1, ⟨[key], 100, false, .legacyV0⟩), (2, ⟨[], 250, false, .v1⟩)]).priorityFees
    let e := calculatePriorityFee .exact (IterOrder.stored Slot) (IterOrder.stored Group)
      (.calculation2 [key] false true none) m
    0 ≤ e.min ∧ e.min ≤ e.low ∧ e.unsafeMax = (250 : ℚ) := by
  have h := levels_ascend Statrs.exact_exactQuantile (stored_run 2
      [(1, ⟨[Pubkey.filled 1], 100, false, .legacyV0⟩), (2, ⟨[], 250, false, .v1⟩)]).allFees
    (IterOrder.stored Slot) (IterOrder.stored Group)
    (.calculation2 [Pubkey.filled 1] false true none)
  exact ⟨h.1, h.2.1, h.2.2.2.2.2.2.trans (by decide +kernel)⟩

/-- In two stores with the same slots, entries and numbers of fees, one with no
    larger fees than the other, place by place, no level of a request is larger
    in the first. -/
theorem levels_follow_fees (hS : S.ExactQuantile) (h : StoresRelBy (List.Forall₂ (· ≤ ·)) m m')
    (o o' : IterOrder Slot) (g g' : IterOrder Group) (c : Calculations) (p : PriorityLevel) :
    (calculatePriorityFee S o g c m).level p ≤ (calculatePriorityFee S o' g' c m').level p := by
  apply level_le_level hS.dependsOnMultiset hS.nanOnEmpty
  intro d
  apply le_max_of_le_left
  exact sampleLevel_le_of_forall₂ hS (h.sample additive_forall₂_le o o' c d) p

/-- A transaction with its fee raised from 100 to 300, beside one of 200. -/
theorem levels_follow_fees_raised :
    let key := Pubkey.filled 1
    let history := fun fee => [(5, ⟨[key], fee, false, .legacyV0⟩), (5, ⟨[], 200, false, .v1⟩)]
    let level := fun fee => (calculatePriorityFee .exact (IterOrder.stored Slot)
      (IterOrder.stored Group) (.calculation2 [key] false false none)
      (PriorityFeeTracker.run 1 (history fee)).priorityFees).level .medium
    level 100 ≤ level 300 := by
  have hfirst : Txn.RelBy (List.Forall₂ (· ≤ ·)) ⟨[Pubkey.filled 1], 100, false, .legacyV0⟩
      ⟨[Pubkey.filled 1], 300, false, .legacyV0⟩ :=
    ⟨rfl, rfl, .cons (by decide +kernel) .nil⟩
  have hsecond : Txn.RelBy (List.Forall₂ (· ≤ ·)) ⟨[], 200, false, .v1⟩ ⟨[], 200, false, .v1⟩ :=
    ⟨rfl, rfl, .cons le_rfl .nil⟩
  refine levels_follow_fees Statrs.exact_exactQuantile (storesRelBy_run additive_forall₂_le ?_ 1)
    (IterOrder.stored Slot) (IterOrder.stored Slot) (IterOrder.stored Group)
    (IterOrder.stored Group) _ .medium
  exact .cons ⟨rfl, hfirst⟩ (.cons ⟨rfl, hsecond⟩ .nil)

/-- With empty slots counted a slot contributes zeros beside what it contributes
    without. -/
theorem part_zero_fill (isV1 : Bool) (accounts : List Pubkey) (includeVote : Bool)
    (lookback : Option UInt32) (v : SlotPriorityFees) (d : DataType) :
    ∃ k, ((Calculations.ofVersion isV1 accounts includeVote true lookback).part v d).Perm
      ((Calculations.ofVersion isV1 accounts includeVote false lookback).part v d ++
        List.replicate k 0) := by
  cases isV1 with
  | true =>
    cases d with
    | global => exact ⟨0, by rw [List.replicate_zero, List.append_nil]; exact .refl _⟩
    | account a => exact ⟨0, .refl _⟩
    | allAccounts =>
      refine ⟨if accounts ≠ [] ∧ v.Untouched accounts then 1 else 0, .of_eq ?_⟩
      show v.allAccountsPart includeVote true accounts =
        v.allAccountsPart includeVote false accounts ++ _
      by_cases hfill : accounts ≠ [] ∧ v.Untouched accounts <;>
        simp [allAccountsPart, hfill]
  | false =>
    cases d with
    | global => exact ⟨0, by rw [List.replicate_zero, List.append_nil]; exact .refl _⟩
    | allAccounts => exact ⟨0, .refl _⟩
    | account a =>
      by_cases ha : a ∈ v.accountFees
      · refine ⟨0, .of_eq ?_⟩
        obtain ⟨f, hf⟩ := Table.mem_iff_exists_lookup.mp ha
        show (List.replicate (accounts.count a) (v.accountPart includeVote true a)).flatten =
          (List.replicate (accounts.count a) (v.accountPart includeVote false a)).flatten ++ []
        rw [List.append_nil, accountPart_of_lookup hf, accountPart_of_lookup hf]
      · refine ⟨accounts.count a, .of_eq ?_⟩
        simp [Calculations.ofVersion, Calculations.part, accountPart_of_notMem ha]

/-- Counting empty slots adds zeros to every sample. -/
theorem sample_zero_fill (isV1 : Bool) (accounts : List Pubkey) (includeVote : Bool)
    (lookback : Option UInt32) (o o' : IterOrder Slot) (m : PriorityFeesBySlot) (d : DataType) :
    ∃ k, (((Calculations.ofVersion isV1 accounts includeVote true
        lookback).getPriorityFeeEstimates o m).sample d).Perm
      (((Calculations.ofVersion isV1 accounts includeVote false
        lookback).getPriorityFeeEstimates o' m).sample d ++ List.replicate k 0) := by
  rw [sample_ofVersion, sample_ofVersion, lookbackValues_order o o']
  induction lookbackValues o' lookback m with
  | nil => exact ⟨0, .refl _⟩
  | cons v vs ih =>
    obtain ⟨j, hj⟩ := part_zero_fill isV1 accounts includeVote lookback v d
    obtain ⟨k, hk⟩ := ih
    refine ⟨j + k, ?_⟩
    rw [List.flatMap_cons, List.flatMap_cons, List.replicate_add]
    refine (hj.append hk).trans ?_
    rw [List.append_assoc, List.append_assoc]
    apply List.Perm.append_left
    rw [← List.append_assoc, ← List.append_assoc]
    exact List.perm_append_comm.append_right _

/-- In a store without negative fees no level of a request is larger when empty
    slots count as zero than when they do not count. -/
theorem zero_fill_lowers (hS : S.ExactQuantile) (hm : AllFees (0 ≤ ·) m) (o o' : IterOrder Slot)
    (g g' : IterOrder Group) (isV1 : Bool) (accounts : List Pubkey) (includeVote : Bool)
    (lookback : Option UInt32) (p : PriorityLevel) :
    (calculatePriorityFee S o g (.ofVersion isV1 accounts includeVote true lookback) m).level p ≤
      (calculatePriorityFee S o' g' (.ofVersion isV1 accounts includeVote false lookback)
        m).level p := by
  apply level_le_level hS.dependsOnMultiset hS.nanOnEmpty
  intro d
  obtain ⟨k, hk⟩ := sample_zero_fill isV1 accounts includeVote lookback o o' m d
  exact sampleLevel_append_zeros_le hS (fun x hx => hm.sample le_rfl hx) hk p

/-- An account that one of two slots has no entry of. -/
theorem zero_fill_lowers_unrecorded :
    let key := Pubkey.filled 1
    let m := (PriorityFeeTracker.run 2
      [(1, ⟨[key], 100, false, .legacyV0⟩), (2, ⟨[], 60, false, .v1⟩)]).priorityFees
    let low := fun fill => (calculatePriorityFee .exact (IterOrder.stored Slot)
      (IterOrder.stored Group) (.ofVersion false [key] false fill none) m).low
    low true ≤ low false ∧ low true = (60 : ℚ) ∧ low false = (100 : ℚ) := by
  have hfees : AllFees (0 ≤ ·) (PriorityFeeTracker.run 2
      [(1, ⟨[Pubkey.filled 1], 100, false, .legacyV0⟩),
        (2, ⟨[], 60, false, .v1⟩)]).priorityFees :=
    (stored_run _ _).allFees.imp fun q ⟨k, hk⟩ => hk ▸ Nat.cast_nonneg k
  have h := zero_fill_lowers Statrs.exact_exactQuantile hfees (IterOrder.stored Slot)
    (IterOrder.stored Slot) (IterOrder.stored Group) (IterOrder.stored Group) false
    [Pubkey.filled 1] false none .low
  exact ⟨h, by decide +kernel, by decide +kernel⟩

end Levels

end PriorityFeeEstimator
