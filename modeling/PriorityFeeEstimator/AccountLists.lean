import Mathlib
import PriorityFeeEstimator.Agreement
import PriorityFeeEstimator.Details

/-!
# Requests as lists of accounts

The accounts of a request arrive as a list, and nothing on the way to the
calculations takes repeated ones out. For distinct accounts Calculation 2 treats
them apart, so that each level is the maximum of the levels of requests for one
account and for none. A repeated account has its fees counted again, and its
zeros; that goes unnoticed exactly when there are none.
-/

namespace PriorityFeeEstimator

open SlotPriorityFees

-- ════════════════════════════════════════════════════════════════════════
-- Distinct accounts
-- ════════════════════════════════════════════════════════════════════════

section Distinct

variable {S : Statrs} {includeVote includeEmptySlots : Bool} {lookback : Option UInt32}
  {m : PriorityFeesBySlot}

/-- A bound of a level of Calculation 2 is a bound of zero, of the level of the
    Global sample and of the levels of the accounts, provided that a slot is
    visited. -/
theorem calculation2_level_le_iff (hS : S.DependsOnMultiset) (o : IterOrder Slot)
    (g : IterOrder Group) (accounts : List Pubkey) (p : PriorityLevel) (x : F64) :
    (calculatePriorityFee S o g (.calculation2 accounts includeVote includeEmptySlots lookback)
        m).level p ≤ x ↔
      0 ≤ x ∧ (lookbackValues o lookback m ≠ [] →
        sampleLevel S ((lookbackValues o lookback m).flatMap (·.globalPart includeVote)) p ≤ x ∧
        ∀ a ∈ accounts, sampleLevel S ((lookbackValues o lookback m).flatMap fun v =>
          (List.replicate (accounts.count a)
            (v.accountPart includeVote includeEmptySlots a)).flatten) p ≤ x) := by
  rw [calculatePriorityFee_level_le_iff_mem hS]
  show (0 ≤ x ∧ ∀ d ∈ V2.getPriorityFeeEstimates o accounts includeVote includeEmptySlots lookback m,
    sampleLevel S ((V2.getPriorityFeeEstimates o accounts includeVote includeEmptySlots lookback
      m).sample d) p ≤ x) ↔ _
  rw [V2.getPriorityFeeEstimates_eq]
  refine and_congr_right fun _ => ⟨fun h hne => ⟨?_, fun a ha => ?_⟩, fun h d hd => ?_⟩
  · have hglobal := h .global ((V2.mem_visits_iff _ _).mpr ⟨hne, .inl rfl⟩)
    rwa [V2.sample_global] at hglobal
  · have haccount := h (.account a) ((V2.mem_visits_iff _ _).mpr ⟨hne, .inr ⟨a, ha, rfl⟩⟩)
    rwa [V2.sample_account] at haccount
  · obtain ⟨hne, rfl | ⟨a, ha, rfl⟩⟩ := (V2.mem_visits_iff _ _).mp hd
    · rw [V2.sample_global]
      exact (h hne).1
    · rw [V2.sample_account]
      exact (h hne).2 a ha

/-- The levels of distinct accounts as the maximum of the levels of each, over
    the levels of a request for none. -/
theorem calculation2_level_eq_foldr (hS : S.DependsOnMultiset) {accounts : List Pubkey}
    (hnodup : accounts.Nodup) (o : List Pubkey → IterOrder Slot)
    (g : List Pubkey → IterOrder Group) (p : PriorityLevel) :
    (calculatePriorityFee S (o accounts) (g accounts)
        (.calculation2 accounts includeVote includeEmptySlots lookback) m).level p =
      (accounts.map fun a => (calculatePriorityFee S (o [a]) (g [a])
        (.calculation2 [a] includeVote includeEmptySlots lookback) m).level p).foldr max
      ((calculatePriorityFee S (o []) (g [])
        (.calculation2 [] includeVote includeEmptySlots lookback) m).level p) := by
  have horder : ∀ l, lookbackValues (o l) lookback m = lookbackValues (o []) lookback m :=
    fun l => lookbackValues_order (o l) (o []) lookback m
  refine eq_of_forall_ge_iff fun x => ?_
  rw [foldr_max_le_iff, calculation2_level_le_iff hS, calculation2_level_le_iff hS, horder]
  simp only [List.forall_mem_map, calculation2_level_le_iff hS, horder, List.mem_singleton,
    forall_eq, List.count_singleton_self]
  constructor
  · rintro ⟨h0, h⟩
    refine ⟨⟨h0, fun hne => ⟨(h hne).1, fun a ha => absurd ha (List.not_mem_nil)⟩⟩,
      fun a ha => ⟨h0, fun hne => ⟨(h hne).1, ?_⟩⟩⟩
    rw [← List.count_eq_one_of_mem hnodup ha]
    exact (h hne).2 a ha
  · rintro ⟨⟨h0, hglobal⟩, h⟩
    refine ⟨h0, fun hne => ⟨(hglobal hne).1, fun a ha => ?_⟩⟩
    rw [List.count_eq_one_of_mem hnodup ha]
    exact ((h a ha).2 hne).2

/-- Each level of Calculation 2 for distinct accounts is the maximum of the level
    for none and of the levels for one of them. Their order does not matter, a
    new account lowers no level, and no level is below that of a request for
    none, whatever the orders in which the hash maps are traversed. -/
theorem calculation2_decomposes (hS : S.DependsOnMultiset) (o : List Pubkey → IterOrder Slot)
    (g : List Pubkey → IterOrder Group) (includeVote includeEmptySlots : Bool)
    (lookback : Option UInt32) (m : PriorityFeesBySlot) :
    let estimates := fun accounts => calculatePriorityFee S (o accounts) (g accounts)
      (.calculation2 accounts includeVote includeEmptySlots lookback) m
    (∀ accounts : List Pubkey, accounts.Nodup → ∀ p, (estimates accounts).level p =
      (accounts.map fun a => (estimates [a]).level p).foldr max ((estimates []).level p)) ∧
    (∀ accounts accounts' : List Pubkey, accounts.Nodup → accounts.Perm accounts' →
      estimates accounts = estimates accounts') ∧
    (∀ before after : List Pubkey, ∀ a, (before ++ a :: after).Nodup → ∀ p,
      (estimates (before ++ after)).level p ≤ (estimates (before ++ a :: after)).level p) ∧
    ∀ accounts : List Pubkey, accounts.Nodup → ∀ p,
      (estimates []).level p ≤ (estimates accounts).level p := by
  intro estimates
  have hfold : ∀ accounts : List Pubkey, accounts.Nodup → ∀ p, (estimates accounts).level p =
      (accounts.map fun a => (estimates [a]).level p).foldr max ((estimates []).level p) :=
    fun accounts hnodup p => calculation2_level_eq_foldr hS hnodup o g p
  refine ⟨hfold, ?_, ?_, ?_⟩
  · intro accounts accounts' hnodup hperm
    apply MicroLamportPriorityFeeEstimates.ext_level
    intro p
    rw [hfold accounts hnodup, hfold accounts' (hperm.nodup_iff.mp hnodup)]
    exact (hperm.map _).foldr_eq _
  · intro before after a hnodup p
    have hsub : (before ++ after).Sublist (before ++ a :: after) :=
      (List.sublist_cons_self a after).append_left before
    rw [hfold _ (hnodup.sublist hsub), hfold _ hnodup, foldr_max_le_iff]
    have hbounds := (foldr_max_le_iff ((before ++ a :: after).map fun a => (estimates [a]).level p)
      ((estimates []).level p) _).mp le_rfl
    refine ⟨hbounds.1, ?_⟩
    intro y hy
    exact hbounds.2 y ((hsub.map _).subset hy)
  · intro accounts hnodup p
    rw [hfold accounts hnodup]
    exact ((foldr_max_le_iff _ _ _).mp le_rfl).1

/-- Two accounts and their reverse, in a store with an entry of each. -/
theorem calculation2_decomposes_two :
    let k := Pubkey.filled 1
    let k' := Pubkey.filled 2
    let m := (PriorityFeeTracker.run 1 [(5, ⟨[k], 100, false, .legacyV0⟩),
      (5, ⟨[k'], 900, false, .v1⟩)]).priorityFees
    let estimates := fun accounts => calculatePriorityFee .exact (IterOrder.stored Slot)
      (IterOrder.stored Group) (.calculation2 accounts false true none) m
    estimates [k, k'] = estimates [k', k] ∧
    (estimates [k, k']).level .medium = ([k, k'].map fun a =>
      (estimates [a]).level .medium).foldr max ((estimates []).level .medium) := by
  intro k k' m estimates
  have hnodup : [k, k'].Nodup := by decide
  have h := calculation2_decomposes Statrs.exact_dependsOnMultiset
    (fun _ => IterOrder.stored Slot) (fun _ => IterOrder.stored Group) false true none m
  exact ⟨h.2.1 [k, k'] [k', k] hnodup (.swap k' k []), h.1 [k, k'] hnodup .medium⟩

end Distinct

-- ════════════════════════════════════════════════════════════════════════
-- Repeated accounts
-- ════════════════════════════════════════════════════════════════════════

section Repeated

variable {before after : List Pubkey} {a : Pubkey}

/-- The group that samples an account: the one of all accounts in Calculation 1,
    its own in Calculation 2. -/
def DataType.ofVersion (isV1 : Bool) (a : Pubkey) : DataType :=
  if isV1 then .allAccounts else .account a

theorem mem_insert_iff (ha : a ∈ before ++ after) (b : Pubkey) :
    b ∈ before ++ a :: after ↔ b ∈ before ++ after := by
  simp only [List.mem_append, List.mem_cons] at ha ⊢
  constructor
  · rintro (hb | rfl | hb)
    · exact .inl hb
    · exact ha
    · exact .inr hb
  · rintro (hb | hb)
    · exact .inl hb
    · exact .inr (.inr hb)

/-- The fill-in zero of Calculation 1 is not affected by a repeated account. -/
theorem allAccountsPart_insert (v : SlotPriorityFees) (includeVote includeEmptySlots : Bool)
    (ha : a ∈ before ++ after) :
    ∃ zeros : List ℚ,
      v.allAccountsPart includeVote includeEmptySlots (before ++ after) =
        before.flatMap (v.accountPart includeVote false) ++
          after.flatMap (v.accountPart includeVote false) ++ zeros ∧
      v.allAccountsPart includeVote includeEmptySlots (before ++ a :: after) =
        before.flatMap (v.accountPart includeVote false) ++ (v.accountPart includeVote false a ++
          after.flatMap (v.accountPart includeVote false)) ++ zeros := by
  have hne : before ++ after ≠ [] := List.ne_nil_of_mem ha
  have hne' : before ++ a :: after ≠ [] := by simp
  have huntouched : v.Untouched (before ++ a :: after) ↔ v.Untouched (before ++ after) :=
    forall_congr' fun b => by rw [mem_insert_iff ha]
  refine ⟨if v.Untouched (before ++ after) ∧ includeEmptySlots = true then [0] else [], ?_, ?_⟩
  · rw [allAccountsPart, List.flatMap_append]
    simp only [ne_eq, hne, not_false_eq_true, true_and]
  · rw [allAccountsPart, List.flatMap_append, List.flatMap_cons]
    simp only [ne_eq, hne', not_false_eq_true, true_and, huntouched]

/-- A repeated account adds its part to the group that samples it. -/
theorem length_part_insert (isV1 includeVote includeEmptySlots : Bool) (lookback : Option UInt32)
    (ha : a ∈ before ++ after) (v : SlotPriorityFees) :
    ((Calculations.ofVersion isV1 (before ++ a :: after) includeVote includeEmptySlots
        lookback).part v (.ofVersion isV1 a)).length =
      ((Calculations.ofVersion isV1 (before ++ after) includeVote includeEmptySlots
        lookback).part v (.ofVersion isV1 a)).length +
      (v.accountPart includeVote (!isV1 && includeEmptySlots) a).length := by
  cases isV1 with
  | true =>
    obtain ⟨zeros, hold, hnew⟩ := allAccountsPart_insert v includeVote includeEmptySlots ha
    show (v.allAccountsPart includeVote includeEmptySlots (before ++ a :: after)).length =
      (v.allAccountsPart includeVote includeEmptySlots (before ++ after)).length +
        (v.accountPart includeVote false a).length
    rw [hold, hnew]
    simp only [List.length_append]
    omega
  | false =>
    show (List.replicate ((before ++ a :: after).count a)
        (v.accountPart includeVote includeEmptySlots a)).flatten.length =
      (List.replicate ((before ++ after).count a)
        (v.accountPart includeVote includeEmptySlots a)).flatten.length + _
    rw [List.count_append, List.count_cons_self, ← Nat.add_assoc, ← List.count_append,
      List.replicate_succ, List.flatten_cons, List.length_append, Nat.add_comm]
    rfl

/-- An account without a part adds nothing anywhere. -/
theorem part_insert (isV1 includeVote includeEmptySlots : Bool) (lookback : Option UInt32)
    (ha : a ∈ before ++ after) {v : SlotPriorityFees}
    (hv : v.accountPart includeVote (!isV1 && includeEmptySlots) a = []) (d : DataType) :
    (Calculations.ofVersion isV1 (before ++ a :: after) includeVote includeEmptySlots
        lookback).part v d =
      (Calculations.ofVersion isV1 (before ++ after) includeVote includeEmptySlots
        lookback).part v d := by
  cases isV1 with
  | true =>
    cases d with
    | global => rfl
    | account b => rfl
    | allAccounts =>
      obtain ⟨zeros, hold, hnew⟩ := allAccountsPart_insert v includeVote includeEmptySlots ha
      have hv' : v.accountPart includeVote false a = [] := hv
      show v.allAccountsPart includeVote includeEmptySlots (before ++ a :: after) =
        v.allAccountsPart includeVote includeEmptySlots (before ++ after)
      rw [hold, hnew, hv', List.nil_append]
  | false =>
    cases d with
    | global => rfl
    | allAccounts => rfl
    | account b =>
      show (List.replicate ((before ++ a :: after).count b)
          (v.accountPart includeVote includeEmptySlots b)).flatten =
        (List.replicate ((before ++ after).count b)
          (v.accountPart includeVote includeEmptySlots b)).flatten
      by_cases hb : b = a
      · have hv' : v.accountPart includeVote includeEmptySlots a = [] := hv
        rw [hb, hv', List.flatten_replicate_nil, List.flatten_replicate_nil]
      · rw [List.count_append, List.count_append, List.count_cons_of_ne (Ne.symm hb)]

/-- A slot has no part for an account when it counts no fee of it and, where the
    empty slots are filled in, has an entry of it. -/
theorem accountPart_eq_nil_iff (v : SlotPriorityFees) (includeVote includeEmptySlots : Bool)
    (a : Pubkey) :
    v.accountPart includeVote includeEmptySlots a = [] ↔
      (∀ f, v.accountFees.lookup a = some f → f.counted includeVote = []) ∧
      (includeEmptySlots = true → a ∈ v.accountFees) := by
  by_cases ha : a ∈ v.accountFees
  · obtain ⟨f, hf⟩ := Table.mem_iff_exists_lookup.mp ha
    rw [accountPart_of_lookup hf, hf]
    simp [ha]
  · rw [accountPart_of_notMem ha, AList.lookup_eq_none.mpr ha]
    simp [ha]

/-- The groups a request collects, for either calculation. -/
theorem mem_ofVersion_iff (o : IterOrder Slot) (isV1 : Bool) (accounts : List Pubkey)
    (includeVote includeEmptySlots : Bool) (lookback : Option UInt32) (m : PriorityFeesBySlot)
    (d : DataType) :
    d ∈ (Calculations.ofVersion isV1 accounts includeVote includeEmptySlots
        lookback).getPriorityFeeEstimates o m ↔
      if isV1 then d = .global ∨ d = .allAccounts
      else lookbackValues o lookback m ≠ [] ∧ (d = .global ∨ ∃ a ∈ accounts, d = .account a) := by
  cases isV1 with
  | true =>
    show d ∈ V1.getPriorityFeeEstimates o accounts includeVote includeEmptySlots lookback m ↔ _
    rw [V1.getPriorityFeeEstimates_eq, V1.mem_finish_iff]
    rfl
  | false =>
    show d ∈ V2.getPriorityFeeEstimates o accounts includeVote includeEmptySlots lookback m ↔ _
    rw [V2.getPriorityFeeEstimates_eq, V2.mem_visits_iff]
    rfl

/-- The sample of the group of a repeated account is as long as before only if no
    slot visited has a part for the account. -/
theorem length_sample_insert (o : IterOrder Slot) (isV1 includeVote includeEmptySlots : Bool)
    (lookback : Option UInt32) (m : PriorityFeesBySlot) (ha : a ∈ before ++ after) :
    (((Calculations.ofVersion isV1 (before ++ a :: after) includeVote includeEmptySlots
        lookback).getPriorityFeeEstimates o m).sample (.ofVersion isV1 a)).length =
      (((Calculations.ofVersion isV1 (before ++ after) includeVote includeEmptySlots
        lookback).getPriorityFeeEstimates o m).sample (.ofVersion isV1 a)).length +
      ((lookbackValues o lookback m).flatMap
        (·.accountPart includeVote (!isV1 && includeEmptySlots) a)).length := by
  rw [sample_ofVersion, sample_ofVersion]
  induction lookbackValues o lookback m with
  | nil => rfl
  | cons v vs ih =>
    simp only [List.flatMap_cons, List.length_append, ih,
      length_part_insert isV1 includeVote includeEmptySlots lookback ha v]
    omega

/-- A repeated account leaves all groups and samples as they are when no slot
    visited has a part for it. -/
theorem lookup_insert_of_silent {o o' : IterOrder Slot} {isV1 includeVote includeEmptySlots : Bool}
    {lookback : Option UInt32} {m : PriorityFeesBySlot} (ha : a ∈ before ++ after)
    (h : ∀ v ∈ lookbackValues o lookback m,
      v.accountPart includeVote (!isV1 && includeEmptySlots) a = []) (d : DataType) :
    ((Calculations.ofVersion isV1 (before ++ after) includeVote includeEmptySlots
        lookback).getPriorityFeeEstimates o m).lookup d =
      ((Calculations.ofVersion isV1 (before ++ a :: after) includeVote includeEmptySlots
        lookback).getPriorityFeeEstimates o' m).lookup d := by
  rw [Calculations.getPriorityFeeEstimates_order o' o]
  set data := (Calculations.ofVersion isV1 (before ++ after) includeVote includeEmptySlots
    lookback).getPriorityFeeEstimates o m with hdata
  set data' := (Calculations.ofVersion isV1 (before ++ a :: after) includeVote includeEmptySlots
    lookback).getPriorityFeeEstimates o m with hdata'
  have hmem : d ∈ data ↔ d ∈ data' := by
    rw [hdata, hdata', mem_ofVersion_iff, mem_ofVersion_iff]
    simp only [mem_insert_iff ha]
  have hsample : data.sample d = data'.sample d := by
    rw [hdata, hdata', sample_ofVersion, sample_ofVersion]
    apply List.flatMap_congr
    intro v hv
    exact (part_insert isV1 includeVote includeEmptySlots lookback ha (h v hv) d).symm
  by_cases hd : d ∈ data
  · obtain ⟨l, hl⟩ := Table.mem_iff_exists_lookup.mp hd
    obtain ⟨l', hl'⟩ := Table.mem_iff_exists_lookup.mp (hmem.mp hd)
    rw [DataStats.sample, DataStats.sample, hl, hl'] at hsample
    rw [hl, hl']
    exact congrArg some hsample
  · rw [AList.lookup_eq_none.mpr hd, AList.lookup_eq_none.mpr fun hd' => hd (hmem.mpr hd')]

/-- A request that names one of its accounts once more returns the same levels
    and details exactly when no slot visited counts a fee of the account and, in
    Calculation 2 with the empty slots filled in, every slot visited has an entry
    of it. -/
theorem repeated_account_iff {S : Statrs} (hS : S.DependsOnMultiset) {display : Pubkey → String}
    (hinj : Function.Injective display) (hglobal : ∀ k, display k ≠ "Global")
    (hall : ∀ k, display k ≠ "All Accounts") (ha : a ∈ before ++ after) (o o' : IterOrder Slot)
    (g g' cloned cloned' : IterOrder Group) (isV1 includeVote includeEmptySlots : Bool)
    (lookback : Option UInt32) (m : PriorityFeesBySlot) :
    let c := Calculations.ofVersion isV1 (before ++ after) includeVote includeEmptySlots lookback
    let c' := Calculations.ofVersion isV1 (before ++ a :: after) includeVote includeEmptySlots
      lookback
    let once := calculatePriorityFeeDetails S display o cloned g c m
    let twice := calculatePriorityFeeDetails S display o' cloned' g' c' m
    (calculatePriorityFee S o g c m = calculatePriorityFee S o' g' c' m ∧ once.1 = twice.1 ∧
      ∀ name, once.2.lookup name = twice.2.lookup name) ↔
    ∀ v ∈ lookbackValues o lookback m,
      (∀ f, v.accountFees.lookup a = some f → f.counted includeVote = []) ∧
      (isV1 = false → includeEmptySlots = true → a ∈ v.accountFees) := by
  intro c c' once twice
  have hname := DataType.toText_injective hinj hglobal hall
  have hsilent : (∀ v ∈ lookbackValues o lookback m,
      (∀ f, v.accountFees.lookup a = some f → f.counted includeVote = []) ∧
      (isV1 = false → includeEmptySlots = true → a ∈ v.accountFees)) ↔
      ∀ v ∈ lookbackValues o lookback m,
        v.accountPart includeVote (!isV1 && includeEmptySlots) a = [] := by
    refine forall₂_congr fun v _ => ?_
    rw [accountPart_eq_nil_iff]
    simp
  rw [hsilent]
  constructor
  · rintro ⟨-, -, hdetails⟩
    rcases eq_or_ne (lookbackValues o lookback m) [] with hnone | hne
    · rw [hnone]
      exact fun v hv => absurd hv List.not_mem_nil
    have hgroup : ∀ accounts : List Pubkey, a ∈ accounts → ∃ l,
        ((Calculations.ofVersion isV1 accounts includeVote includeEmptySlots
          lookback).getPriorityFeeEstimates o m).lookup (.ofVersion isV1 a) = some l := by
      intro accounts hmem
      rw [← Table.mem_iff_exists_lookup, mem_ofVersion_iff]
      cases isV1 with
      | true => exact .inr rfl
      | false => exact ⟨hne, .inr ⟨a, hmem, rfl⟩⟩
    obtain ⟨l, hl⟩ := hgroup (before ++ after) ha
    obtain ⟨l', hl'⟩ := hgroup (before ++ a :: after) (by simp)
    have hcount := hdetails ((DataType.ofVersion isV1 a).toText display)
    rw [lookup_details hname, lookup_details hname, hl,
      Calculations.getPriorityFeeEstimates_order o' o, hl', Option.map_some, Option.map_some,
      Option.some.injEq] at hcount
    have hlength : l.length = l'.length := by
      rw [← groupDetails_count hS l, hcount, groupDetails_count hS]
    have hgrow := length_sample_insert o isV1 includeVote includeEmptySlots lookback m ha
    rw [DataStats.sample, DataStats.sample, hl, hl', Option.getD_some, Option.getD_some, hlength,
      Nat.left_eq_add, List.length_eq_zero_iff, List.flatMap_eq_nil_iff] at hgrow
    exact hgrow
  · intro h
    have hlookup : ∀ d, (c.getPriorityFeeEstimates o m).lookup d =
        (c'.getPriorityFeeEstimates o' m).lookup d := lookup_insert_of_silent ha h
    have hlevels : ∀ (g g' : IterOrder Group),
        calculatePriorityFee S o g c m = calculatePriorityFee S o' g' c' m := by
      intro g g'
      refine estimates_eq_of_level_le_iff fun p x => ?_
      rw [calculatePriorityFee_level_le_iff hS, calculatePriorityFee_level_le_iff hS]
      simp only [c, c', hlookup]
    exact ⟨hlevels g g', hlevels cloned cloned',
      lookup_details_congr hname S hlookup cloned cloned' g g'⟩

/-- An account that is recorded nowhere, without fill-in zeros. -/
theorem repeated_account_iff_unrecorded :
    let k := Pubkey.filled 2
    let m := (PriorityFeeTracker.run 1 [(1, ⟨[Pubkey.filled 1], 100, false, .v1⟩)]).priorityFees
    let details := fun accounts => calculatePriorityFeeDetails .exact Pubkey.toBase58
      (IterOrder.stored Slot) (IterOrder.stored Group) (IterOrder.stored Group)
      (.ofVersion false accounts false false none) m
    ∀ name, (details [k]).2.lookup name = (details [k, k]).2.lookup name := by
  intro k m details
  have hparts : ∀ v ∈ lookbackValues (IterOrder.stored Slot) none m,
      v.accountPart false false k = [] := by
    decide +kernel
  have hk : k ∈ [] ++ [k] := List.mem_singleton_self k
  refine ((repeated_account_iff Statrs.exact_dependsOnMultiset Pubkey.toBase58_injective
    (Pubkey.toBase58_ne_of_mem (x := 'l') (by decide) (by decide))
    (Pubkey.toBase58_ne_of_mem (x := 'l') (by decide) (by decide)) hk
    (IterOrder.stored Slot) (IterOrder.stored Slot) (IterOrder.stored Group)
    (IterOrder.stored Group) (IterOrder.stored Group) (IterOrder.stored Group) false false false
    none m).mpr ?_).2.2
  intro v hv
  exact ⟨((accountPart_eq_nil_iff v false false k).mp (hparts v hv)).1, by simp⟩

/-- Three transactions under an account named twice: six are counted, and the
    high level rises. -/
theorem repeated_account_counts_twice :
    let k := Pubkey.filled 1
    let m := (PriorityFeeTracker.run 1 [(1, ⟨[k], 100, false, .legacyV0⟩),
      (1, ⟨[k], 200, false, .v1⟩), (1, ⟨[k], 300, false, .v1⟩)]).priorityFees
    let high := fun isV1 accounts => (calculatePriorityFee .exact (IterOrder.stored Slot)
      (IterOrder.stored Group) (.ofVersion isV1 accounts false false none) m).high
    let count := fun isV1 accounts name => ((calculatePriorityFeeDetails .exact Pubkey.toBase58
      (IterOrder.stored Slot) (IterOrder.stored Group) (IterOrder.stored Group)
      (.ofVersion isV1 accounts false false none) m).2.lookup name).map fun d => d.count
    (∀ isV1, high isV1 [k] = (283 : ℚ) ∧ high isV1 [k, k] = (300 : ℚ)) ∧
    count true [k] "All Accounts" = some 3 ∧ count true [k, k] "All Accounts" = some 6 ∧
    count false [k] k.toBase58 = some 3 ∧ count false [k, k] k.toBase58 = some 6 := by
  decide +kernel

end Repeated

end PriorityFeeEstimator
