import Mathlib
import PriorityFeeEstimator.Estimates
import PriorityFeeEstimator.WindowEstimates

/-!
# Where the two calculations agree

The two calculations share the Global sample. In a reachable store the fees of
an account in a slot are among the Global fees of the slot, so both report the
largest counted Global fee as the highest level. With at most one requested
account they collect the same samples, and without zero fill Calculation 1 pools
what Calculation 2 keeps apart.
-/

namespace PriorityFeeEstimator

open SlotPriorityFees

/-- The calculation with the given number, 1 or otherwise 2. -/
def Calculations.ofVersion (isV1 : Bool) (accounts : List Pubkey)
    (includeVote includeEmptySlots : Bool) (lookback : Option UInt32) : Calculations :=
  if isV1 then .calculation1 accounts includeVote includeEmptySlots lookback
  else .calculation2 accounts includeVote includeEmptySlots lookback

/-- The traversal of the store leaves the values visited as they are. -/
theorem lookbackValues_order (o o' : IterOrder Slot) (lookback : Option UInt32)
    (m : PriorityFeesBySlot) : lookbackValues o lookback m = lookbackValues o' lookback m := by
  rw [lookbackValues, lookbackValues, @lookbackSlots_congr o o' m m fun _ => rfl]

/-- The samples of a request, for either calculation. -/
theorem sample_ofVersion (o : IterOrder Slot) (isV1 : Bool) (accounts : List Pubkey)
    (includeVote includeEmptySlots : Bool) (lookback : Option UInt32) (m : PriorityFeesBySlot)
    (d : DataType) :
    ((Calculations.ofVersion isV1 accounts includeVote includeEmptySlots
        lookback).getPriorityFeeEstimates o m).sample d =
      (lookbackValues o lookback m).flatMap fun v =>
        (Calculations.ofVersion isV1 accounts includeVote includeEmptySlots lookback).part v d := by
  rw [Calculations.sample_getPriorityFeeEstimates]
  cases isV1 <;> rfl

/-- The Global sample of either calculation. -/
theorem sample_global_ofVersion (o : IterOrder Slot) (isV1 : Bool) (accounts : List Pubkey)
    (includeVote includeEmptySlots : Bool) (lookback : Option UInt32) (m : PriorityFeesBySlot) :
    ((Calculations.ofVersion isV1 accounts includeVote includeEmptySlots
        lookback).getPriorityFeeEstimates o m).sample .global =
      (lookbackValues o lookback m).flatMap (·.globalPart includeVote) := by
  rw [sample_ofVersion]
  cases isV1 <;> rfl

/-- A value visited in a reachable store holds the transactions of some log. -/
theorem exists_logged_of_mem_lookbackValues {m : PriorityFeesBySlot} (h : Stored m)
    {o : IterOrder Slot} {lookback : Option UInt32} {v : SlotPriorityFees}
    (hv : v ∈ lookbackValues o lookback m) : ∃ s l, v.Logged s l := by
  rw [lookbackValues, List.mem_filterMap] at hv
  obtain ⟨s, -, hs⟩ := hv
  obtain ⟨l, hl⟩ := h s v hs
  exact ⟨s, l, logged_of_ofLog hl⟩

/-- A counted fee of an account is a Global fee of the slot. -/
theorem SlotPriorityFees.Logged.mem_globalPart {v : SlotPriorityFees} {s : Slot} {l : List Txn}
    (h : v.Logged s l) {includeVote : Bool} {a : Pubkey} {f : Fees} {q : ℚ}
    (hf : v.accountFees.lookup a = some f) (hq : q ∈ f.counted includeVote) :
    q ∈ v.globalPart includeVote := by
  have hne : accountLog a l ≠ [] := fun he => by
    rw [h.lookup_account, he] at hf
    cases hf
  rw [h.lookup_account, Fees.recorded_of_ne_nil hne, Option.some.injEq] at hf
  rw [← hf, Fees.mem_counted_ofTxns] at hq
  obtain ⟨t, ht, hc, rfl⟩ := hq
  rw [globalPart, h.fees_eq, Fees.mem_counted_ofTxns]
  exact ⟨t, (mem_accountLog.mp ht).1, hc, rfl⟩

/-- What a slot contributes to any sample is a fill-in zero or a Global fee of
    the slot. -/
theorem SlotPriorityFees.Logged.mem_part {v : SlotPriorityFees} {s : Slot} {l : List Txn}
    (h : v.Logged s l) {c : Calculations} {d : DataType} {q : ℚ} (hq : q ∈ c.part v d) :
    q = 0 ∨ q ∈ v.globalPart c.includeVote := by
  rcases Calculations.mem_part hq with h0 | hg | ⟨a, f, hf, hq⟩
  · exact .inl h0
  · exact .inr hg
  · exact .inr (h.mem_globalPart hf hq)

/-- Every value of every sample is zero or a counted Global fee. -/
theorem mem_sample {m : PriorityFeesBySlot} (h : Stored m) {o : IterOrder Slot} {isV1 : Bool}
    {accounts : List Pubkey} {includeVote includeEmptySlots : Bool} {lookback : Option UInt32}
    {d : DataType} {q : ℚ}
    (hq : q ∈ ((Calculations.ofVersion isV1 accounts includeVote includeEmptySlots
      lookback).getPriorityFeeEstimates o m).sample d) :
    q = 0 ∨ q ∈ (lookbackValues o lookback m).flatMap (·.globalPart includeVote) := by
  have hvote : (Calculations.ofVersion isV1 accounts includeVote includeEmptySlots
      lookback).includeVote = includeVote := by
    cases isV1 <;> rfl
  rw [sample_ofVersion] at hq
  obtain ⟨v, hv, hq⟩ := List.mem_flatMap.mp hq
  obtain ⟨s, l, hlog⟩ := exists_logged_of_mem_lookbackValues h hv
  have hpart := hlog.mem_part hq
  rw [hvote] at hpart
  exact hpart.imp_right fun hg => List.mem_flatMap.mpr ⟨v, hv, hg⟩

/-- Counted Global fees of a reachable store are not negative, and rounding
    leaves them alone. -/
theorem nonneg_and_round_of_mem_global {m : PriorityFeesBySlot} (h : Stored m)
    {o : IterOrder Slot} {lookback : Option UInt32} {includeVote : Bool} {q : ℚ}
    (hq : q ∈ (lookbackValues o lookback m).flatMap (·.globalPart includeVote)) :
    0 ≤ q ∧ roundHalfAway q = q := by
  obtain ⟨v, hv, hq⟩ := List.mem_flatMap.mp hq
  obtain ⟨s, l, hlog⟩ := exists_logged_of_mem_lookbackValues h hv
  rw [globalPart, hlog.fees_eq, Fees.mem_counted_ofTxns] at hq
  obtain ⟨t, -, -, rfl⟩ := hq
  exact ⟨u64AsF64_nonneg _, roundHalfAway_u64AsF64 _⟩

/-- The largest value of a sample, 0 when there is none. -/
def largest (l : List ℚ) : ℚ := l.maximum.unbotD 0

theorem le_largest {l : List ℚ} {q : ℚ} (hq : q ∈ l) : q ≤ largest l := by
  obtain ⟨x, hx⟩ := WithBot.ne_bot_iff_exists.mp
    (List.maximum_ne_bot_of_ne_nil (List.ne_nil_of_mem hq))
  have := List.le_maximum_of_mem hq hx.symm
  rw [largest, ← hx]
  exact this

theorem largest_mem {l : List ℚ} (hne : l ≠ []) : largest l ∈ l := by
  obtain ⟨q, hq⟩ := WithBot.ne_bot_iff_exists.mp (List.maximum_ne_bot_of_ne_nil hne)
  have hl : largest l = q := by rw [largest, ← hq]; rfl
  exact hl ▸ List.maximum_mem hq.symm

/-- The 100th percentile of a sample, rounded, when rounding leaves its values
    alone. -/
theorem sampleLevel_unsafeMax {S : Statrs} (hmax : S.MaxAtHundred) {l : List ℚ} (hne : l ≠ [])
    (hround : ∀ q ∈ l, roundHalfAway q = q) :
    sampleLevel S l .unsafeMax = (largest l : ℚ) ∧ largest l ∈ l := by
  obtain ⟨q, hq⟩ := WithBot.ne_bot_iff_exists.mp (List.maximum_ne_bot_of_ne_nil hne)
  have hl : largest l = q := by rw [largest, ← hq]; rfl
  refine ⟨?_, largest_mem hne⟩
  rw [sampleLevel, show PriorityLevel.unsafeMax.percentile = 100 from rfl, hmax l hne, ← hq,
    F64.round_coe, hround q (List.maximum_mem hq.symm), hl]

/-- In a reachable store the highest level of either calculation is the largest
    counted Global fee, whatever accounts are requested. -/
theorem unsafeMax_eq {S : Statrs} (hS : S.DependsOnMultiset) (hnan : S.NanOnEmpty)
    (hmax : S.MaxAtHundred) {m : PriorityFeesBySlot} (h : Stored m) (o : IterOrder Slot)
    (g : IterOrder Group) (isV1 : Bool) (accounts : List Pubkey)
    (includeVote includeEmptySlots : Bool) (lookback : Option UInt32) :
    (calculatePriorityFee S o g (.ofVersion isV1 accounts includeVote includeEmptySlots lookback)
        m).unsafeMax =
      (largest ((lookbackValues o lookback m).flatMap (·.globalPart includeVote)) : ℚ) := by
  set c := Calculations.ofVersion isV1 accounts includeVote includeEmptySlots lookback with hc
  set global := (lookbackValues o lookback m).flatMap (·.globalPart includeVote) with hglobal
  have hprop : ∀ q ∈ global, 0 ≤ q ∧ roundHalfAway q = q :=
    fun q hq => nonneg_and_round_of_mem_global h hq
  have hsample : (c.getPriorityFeeEstimates o m).sample .global = global :=
    sample_global_ofVersion o isV1 accounts includeVote includeEmptySlots lookback m
  have hnonneg : 0 ≤ largest global := by
    by_cases hne : global = []
    · rw [hne]; exact le_rfl
    · exact (hprop _ (sampleLevel_unsafeMax hmax hne fun q hq => (hprop q hq).2).2).1
  change (calculatePriorityFee S o g c m).level .unsafeMax = _
  refine eq_of_forall_ge_iff fun x => ?_
  rw [calculatePriorityFee_level_le_iff_sample hS hnan]
  constructor
  · rintro ⟨hx0, hx⟩
    by_cases hne : global = []
    · rw [hne]; exact hx0
    · rw [← (sampleLevel_unsafeMax hmax hne fun q hq => (hprop q hq).2).1, ← hsample]
      exact hx .global
  · intro hx
    refine ⟨(WithBot.coe_le_coe.mpr hnonneg).trans hx, fun d => ?_⟩
    by_cases hne : (c.getPriorityFeeEstimates o m).sample d = []
    · rw [hne, sampleLevel_nil hnan]; exact bot_le
    · -- every value of the sample is zero or a Global fee
      have hval : ∀ q ∈ (c.getPriorityFeeEstimates o m).sample d,
          q ≤ largest global ∧ roundHalfAway q = q := by
        intro q hq
        rcases mem_sample h hq with rfl | hq
        · exact ⟨hnonneg, by simpa using roundHalfAway_natCast 0⟩
        · exact ⟨le_largest hq, (hprop q hq).2⟩
      obtain ⟨hlevel, hmem⟩ := sampleLevel_unsafeMax hmax hne fun q hq => (hval q hq).2
      rw [hlevel]
      exact (WithBot.coe_le_coe.mpr (hval _ hmem).1).trans hx

/-- One requested account: the pooled part of a slot is the part of the account. -/
theorem allAccountsPart_singleton (v : SlotPriorityFees) (includeVote includeEmptySlots : Bool)
    (a : Pubkey) : v.allAccountsPart includeVote includeEmptySlots [a] =
      v.accountPart includeVote includeEmptySlots a := by
  by_cases ha : a ∈ v.accountFees
  · obtain ⟨f, hf⟩ := Table.mem_iff_exists_lookup.mp ha
    simp [allAccountsPart, Untouched, ha, accountPart_of_lookup hf]
  · cases includeEmptySlots <;>
      simp [allAccountsPart, Untouched, ha, accountPart_of_notMem ha]

/-- Samples that are empty or occur among others exceed no bound of these. -/
theorem sampleLevel_le_of_sample_eq {S : Statrs} (hnan : S.NanOnEmpty) {data data' : DataStats}
    (hsample : ∀ d, data.sample d = [] ∨ ∃ d', data.sample d = data'.sample d')
    {p : PriorityLevel} {x : F64} (h : ∀ d, sampleLevel S (data'.sample d) p ≤ x) (d : DataType) :
    sampleLevel S (data.sample d) p ≤ x := by
  rcases hsample d with hnil | ⟨d', hd⟩
  · rw [hnil, sampleLevel_nil hnan]
    exact bot_le
  · rw [hd]
    exact h d'

section AtMostOne

variable {accounts : List Pubkey} (hlen : accounts.length ≤ 1)
  (includeVote includeEmptySlots : Bool) (lookback : Option UInt32)

include hlen

/-- With at most one account the pooled part is the part of this account. -/
theorem part_calculation1_of_length_le_one (d : DataType) :
    (∀ v, (Calculations.calculation1 accounts includeVote includeEmptySlots lookback).part v d =
      []) ∨
    ∃ d', ∀ v, (Calculations.calculation1 accounts includeVote includeEmptySlots lookback).part v d =
      (Calculations.calculation2 accounts includeVote includeEmptySlots lookback).part v d' := by
  cases d with
  | global => exact .inr ⟨.global, fun v => rfl⟩
  | account a => exact .inl fun v => rfl
  | allAccounts =>
    match accounts, hlen with
    | [], _ => exact .inl fun v => by simp [Calculations.part, allAccountsPart]
    | [a], _ =>
      refine .inr ⟨.account a, fun v => ?_⟩
      simp [Calculations.part, allAccountsPart_singleton]

theorem part_calculation2_of_length_le_one (d : DataType) :
    (∀ v, (Calculations.calculation2 accounts includeVote includeEmptySlots lookback).part v d =
      []) ∨
    ∃ d', ∀ v, (Calculations.calculation2 accounts includeVote includeEmptySlots lookback).part v d =
      (Calculations.calculation1 accounts includeVote includeEmptySlots lookback).part v d' := by
  cases d with
  | global => exact .inr ⟨.global, fun v => rfl⟩
  | allAccounts => exact .inl fun v => rfl
  | account b =>
    match accounts, hlen with
    | [], _ => exact .inl fun v => by simp [Calculations.part]
    | [a], _ =>
      by_cases hb : b = a
      · subst hb
        refine .inr ⟨.allAccounts, fun v => ?_⟩
        simp [Calculations.part, allAccountsPart_singleton]
      · refine .inl fun v => ?_
        simp [Calculations.part, List.count_cons_of_ne (Ne.symm hb)]

end AtMostOne

/-- Parts that are empty or parts of another calculation make samples that are. -/
theorem sample_eq_of_part_eq {o o' : IterOrder Slot} {m : PriorityFeesBySlot}
    {c c' : Calculations} {d : DataType}
    (h : (∀ v, c.part v d = []) ∨ ∃ d', ∀ v, c.part v d = c'.part v d')
    (hlookback : c.lookbackPeriod = c'.lookbackPeriod) :
    (c.getPriorityFeeEstimates o m).sample d = [] ∨
      ∃ d', (c.getPriorityFeeEstimates o m).sample d =
        (c'.getPriorityFeeEstimates o' m).sample d' := by
  simp only [Calculations.sample_getPriorityFeeEstimates, lookbackValues_order o' o, hlookback]
  rcases h with hnil | ⟨d', hd⟩
  · exact .inl (List.flatMap_eq_nil_iff.mpr fun v _ => hnil v)
  · exact .inr ⟨d', List.flatMap_congr fun v _ => hd v⟩

/-- With at most one requested account both calculations return the same six
    levels. -/
theorem calculatePriorityFee_eq_of_length_le_one {S : Statrs} (hS : S.DependsOnMultiset)
    (hnan : S.NanOnEmpty) (m : PriorityFeesBySlot) (o o' : IterOrder Slot)
    (g g' : IterOrder Group) {accounts : List Pubkey} (hlen : accounts.length ≤ 1)
    (includeVote includeEmptySlots : Bool) (lookback : Option UInt32) :
    calculatePriorityFee S o g
        (.calculation1 accounts includeVote includeEmptySlots lookback) m =
      calculatePriorityFee S o' g'
        (.calculation2 accounts includeVote includeEmptySlots lookback) m := by
  refine estimates_eq_of_level_le_iff fun p x => ?_
  rw [calculatePriorityFee_level_le_iff_sample hS hnan,
    calculatePriorityFee_level_le_iff_sample hS hnan]
  refine and_congr_right fun _ => ⟨?_, ?_⟩
  · exact sampleLevel_le_of_sample_eq hnan fun d => sample_eq_of_part_eq
      (part_calculation2_of_length_le_one hlen includeVote includeEmptySlots lookback d) rfl
  · exact sampleLevel_le_of_sample_eq hnan fun d => sample_eq_of_part_eq
      (part_calculation1_of_length_le_one hlen includeVote includeEmptySlots lookback d) rfl

/-- Without zero fill the pooled sample of Calculation 1 is the sum of the
    samples of Calculation 2. -/
theorem coe_sample_allAccounts (m : PriorityFeesBySlot) (o o' : IterOrder Slot)
    {accounts : List Pubkey} (hnd : accounts.Nodup) (includeVote : Bool)
    (lookback : Option UInt32) :
    (((V1.getPriorityFeeEstimates o accounts includeVote false lookback m).sample .allAccounts :
        List ℚ) : Multiset ℚ) =
      (accounts.map fun a => (((V2.getPriorityFeeEstimates o' accounts includeVote false lookback
        m).sample (.account a) : List ℚ) : Multiset ℚ)).sum := by
  rw [V1.getPriorityFeeEstimates_eq, V2.getPriorityFeeEstimates_eq, V1.sample_allAccounts,
    lookbackValues_order o' o]
  generalize lookbackValues o lookback m = vs
  have hone : ∀ a ∈ accounts, ((V2.visits accounts includeVote false vs).sample (.account a)) =
      vs.flatMap (·.accountPart includeVote false a) := fun a ha =>
    V2.sample_account_of_count_eq_one vs (List.count_eq_one_of_mem hnd ha)
  rw [List.map_congr_left fun a ha => by rw [hone a ha]]
  exact coe_flatMap_eq_sum accounts vs fun v _ => v.coe_allAccountsPart includeVote accounts

/-- In every reachable store the calculations share the Global sample and the
    highest level, which is the largest counted Global fee; with at most one
    account they return the same levels; and without zero fill the pooled sample
    is the sum of the separate ones. -/
theorem calculations_agree {S : Statrs} (hS : S.DependsOnMultiset) (hnan : S.NanOnEmpty)
    (hmax : S.MaxAtHundred) (n : ℕ) (ps : List (Slot × Txn)) (o o' : IterOrder Slot)
    (g g' : IterOrder Group) (accounts : List Pubkey) (includeVote includeEmptySlots : Bool)
    (lookback : Option UInt32) :
    let m := (PriorityFeeTracker.run n ps).priorityFees
    let v1 := V1.getPriorityFeeEstimates o accounts includeVote includeEmptySlots lookback m
    let v2 := V2.getPriorityFeeEstimates o' accounts includeVote includeEmptySlots lookback m
    let c1 := calculatePriorityFee S o g
      (.calculation1 accounts includeVote includeEmptySlots lookback) m
    let c2 := calculatePriorityFee S o' g'
      (.calculation2 accounts includeVote includeEmptySlots lookback) m
    (v1.sample .global = v2.sample .global ∧
      c1.unsafeMax = (largest (v1.sample .global) : ℚ) ∧
      c2.unsafeMax = (largest (v1.sample .global) : ℚ)) ∧
    (accounts.length ≤ 1 → c1 = c2) ∧
    (accounts.Nodup → includeEmptySlots = false → (v1.sample .allAccounts : Multiset ℚ) =
      (accounts.map fun a => (v2.sample (.account a) : Multiset ℚ)).sum) := by
  intro m v1 v2 c1 c2
  have hstored : Stored m := stored_run n ps
  have hglobal : v1.sample .global =
      (lookbackValues o lookback m).flatMap (·.globalPart includeVote) :=
    sample_global_ofVersion o true accounts includeVote includeEmptySlots lookback m
  have hglobal' : v2.sample .global =
      (lookbackValues o' lookback m).flatMap (·.globalPart includeVote) :=
    sample_global_ofVersion o' false accounts includeVote includeEmptySlots lookback m
  refine ⟨⟨?_, ?_, ?_⟩,
    fun hlen => calculatePriorityFee_eq_of_length_le_one hS hnan m o o' g g' hlen includeVote
      includeEmptySlots lookback, fun hnd hfill => ?_⟩
  · rw [hglobal, hglobal', lookbackValues_order o o']
  · rw [hglobal]
    exact unsafeMax_eq hS hnan hmax hstored o g true accounts includeVote includeEmptySlots
      lookback
  · rw [hglobal, lookbackValues_order o o']
    exact unsafeMax_eq hS hnan hmax hstored o' g' false accounts includeVote includeEmptySlots
      lookback
  · subst hfill
    exact coe_sample_allAccounts m o o' hnd includeVote lookback

/-- Two transactions of one slot, the dearer one touching an account that is not
    requested: either calculation reports its fee as the highest level. -/
theorem calculations_agree_two :
    let key := Pubkey.filled 1
    let m := (PriorityFeeTracker.run 1
      [(5, ⟨[key], 100, false, .legacyV0⟩), (5, ⟨[Pubkey.filled 2], 900, false, .v1⟩)]).priorityFees
    let o := IterOrder.stored Slot
    let g := IterOrder.stored Group
    let c1 := calculatePriorityFee .exact o g (.calculation1 [key] false true none) m
    let c2 := calculatePriorityFee .exact o g (.calculation2 [key] false true none) m
    c1 = c2 ∧ c1.unsafeMax = (900 : ℚ) ∧
      ((V1.getPriorityFeeEstimates o [key] false false none m).sample .allAccounts : Multiset ℚ) =
        ((V2.getPriorityFeeEstimates o [key] false false none m).sample (.account key) :
          Multiset ℚ) := by
  have h := calculations_agree Statrs.exact_dependsOnMultiset Statrs.exact_nanOnEmpty
    Statrs.exact_maxAtHundred 1
    [(5, ⟨[Pubkey.filled 1], 100, false, .legacyV0⟩),
      (5, ⟨[Pubkey.filled 2], 900, false, .v1⟩)] (IterOrder.stored Slot) (IterOrder.stored Slot)
    (IterOrder.stored Group) (IterOrder.stored Group) [Pubkey.filled 1] false
  refine ⟨(h true none).2.1 (by decide), (h true none).1.2.1.trans ?_, ?_⟩
  · decide +kernel
  · exact ((h false none).2.2 (by decide) rfl).trans (by simp)

end PriorityFeeEstimator
