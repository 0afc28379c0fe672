import Mathlib
import PriorityFeeEstimator.Agreement
import PriorityFeeEstimator.Contributions
import PriorityFeeEstimator.Details
import PriorityFeeEstimator.Rpc

/-!
# The window server

What the service is for, said without its store: it holds a window of slots with
the transactions logged for them, and answers a request from the fees of the
slots picked. A request that is not refused asks for a calculation; the sample of
each group of the calculation is a sum over the picked slots of what the log of
the slot contributes, and a level is the largest one of the groups.

What the details say of mean, deviation and skewness depends on the order of the
values, and is left out.
-/

namespace PriorityFeeEstimator

open SlotPriorityFees

/-- Without a lookback all slots of the window are picked. -/
@[simp] theorem pickedSlots_none {n : ℕ} (w : Window n) : pickedSlots w none = w.keys.toFinset :=
  highest_eq_self_of_card_le (List.toFinset_card_le _)

/-- The sample of a group over the window. -/
def windowSample {n : ℕ} (w : Window n) (c : Calculations) (d : DataType) : Multiset ℚ :=
  ∑ s ∈ pickedSlots w c.lookbackPeriod, c.contribution (w.log s) d

namespace Simulates

variable {n : ℕ} {t : PriorityFeeTracker} {w : Window n}

/-- The samples of any calculation are those of the window. -/
theorem coe_sample (h : Simulates t w) (o : IterOrder Slot) (c : Calculations) (d : DataType) :
    (((c.getPriorityFeeEstimates o t.priorityFees).sample d : List ℚ) : Multiset ℚ) =
      windowSample w c d := by
  rw [Calculations.sample_getPriorityFeeEstimates, coe_flatMap_lookbackValues h.stored.wellKeyed,
    h.toFinset_lookbackSlots, windowSample]
  refine Finset.sum_congr rfl fun s hs => ?_
  have hkey : s ∈ w.keys := List.mem_toFinset.mp (highest_subset _ _ hs)
  cases hv : t.priorityFees.lookup s with
  | none =>
    rw [h.store, ofLog_eq_none_iff] at hv
    exact absurd hkey ((w.log_eq_nil_iff s).mp hv)
  | some v =>
    rw [h.store] at hv
    exact (logged_of_ofLog hv).coe_part c d

end Simulates

/-- The level that a sample gives, whatever the order of its values. -/
noncomputable def sampleLevelOf (S : Statrs) (sample : Multiset ℚ) (p : PriorityLevel) : F64 :=
  sampleLevel S sample.toList p

theorem sampleLevelOf_coe {S : Statrs} (hS : S.DependsOnMultiset) (l : List ℚ)
    (p : PriorityLevel) : sampleLevelOf S l p = sampleLevel S l p :=
  sampleLevel_congr hS (Multiset.coe_eq_coe.mp (Multiset.coe_toList _)) p

/-- The levels of some groups: each is the largest one of the samples, but not
    below zero. -/
noncomputable def levelsOf (S : Statrs) (groups : List DataType) (sample : DataType → Multiset ℚ) :
    MicroLamportPriorityFeeEstimates :=
  let level p := (groups.map fun d => sampleLevelOf S (sample d) p).foldr max 0
  { min := level .min
    low := level .low
    medium := level .medium
    high := level .high
    veryHigh := level .veryHigh
    unsafeMax := level .unsafeMax }

theorem levelsOf_level (S : Statrs) (groups : List DataType) (sample : DataType → Multiset ℚ)
    (p : PriorityLevel) :
    (levelsOf S groups sample).level p =
      (groups.map fun d => sampleLevelOf S (sample d) p).foldr max 0 := by
  cases p <;> rfl

/-- The details without the moments of the sample. -/
def MicroLamportPriorityFeeDetails.withoutMoments (d : MicroLamportPriorityFeeDetails) :
    MicroLamportPriorityFeeDetails :=
  { d with mean := F64.nan, stdev := F64.nan, skew := F64.nan }

/-- The details of one sample. -/
noncomputable def detailsOf (S : Statrs) (sample : Multiset ℚ) :
    MicroLamportPriorityFeeDetails where
  estimates := levelsOf S [.global] fun _ => sample
  mean := F64.nan
  stdev := F64.nan
  skew := F64.nan
  count := sample.card

/-- The levels of one sample, raised from zero. -/
theorem estimateMaxValues_zero_eq {S : Statrs} (hS : S.DependsOnMultiset) (l : List ℚ) :
    (estimateMaxValues S l .zero).1 = levelsOf S [.global] fun _ => (l : Multiset ℚ) := by
  apply MicroLamportPriorityFeeEstimates.ext_level
  intro p
  rw [estimateMaxValues_level hS, levelsOf_level, List.map_singleton, List.foldr_cons,
    List.foldr_nil, sampleLevelOf_coe hS, MicroLamportPriorityFeeEstimates.zero_level]

theorem withoutMoments_groupDetails {S : Statrs} (hS : S.DependsOnMultiset) (l : List ℚ) :
    (groupDetails S l).withoutMoments = detailsOf S l := by
  have hlevels : (groupDetails S l).estimates = levelsOf S [.global] fun _ => (l : Multiset ℚ) :=
    estimateMaxValues_zero_eq hS l
  simp only [MicroLamportPriorityFeeDetails.withoutMoments, detailsOf, hlevels,
    groupDetails_count hS, Multiset.coe_card]

/-- The groups that the details have: none while the window is empty, but
    Calculation 1 always has both of its own. -/
def presentGroups {n : ℕ} (w : Window n) : Calculations → List DataType
  | .calculation1 _ _ _ _ => [.global, .allAccounts]
  | .calculation2 accounts _ _ lookbackPeriod =>
    if pickedSlots w lookbackPeriod = ∅ then [] else .global :: accounts.dedup.map .account

/-- The details of a request. -/
noncomputable def windowDetails (S : Statrs) (display : Pubkey → String) {n : ℕ} (w : Window n)
    (c : Calculations) : List (String × MicroLamportPriorityFeeDetails) :=
  sortByName ((presentGroups w c).map fun d => (d.toText display, detailsOf S (windowSample w c d)))

theorem nodup_presentGroups {n : ℕ} (w : Window n) (c : Calculations) :
    (presentGroups w c).Nodup := by
  cases c with
  | calculation1 accounts includeVote includeEmptySlots lookback =>
    show [DataType.global, .allAccounts].Nodup
    decide
  | calculation2 accounts includeVote includeEmptySlots lookback =>
    change (if pickedSlots w lookback = ∅ then []
      else DataType.global :: accounts.dedup.map .account).Nodup
    by_cases he : pickedSlots w lookback = ∅
    · rw [if_pos he]
      exact List.nodup_nil
    · rw [if_neg he, List.nodup_cons]
      refine ⟨by simp, accounts.nodup_dedup.map fun a b h => ?_⟩
      exact DataType.account.inj h

theorem pairwise_sortByName {α : Type*} (l : List (String × α)) :
    (sortByName l).Pairwise fun a b => b.1 ≤ a.1 := by
  have hle : (sortByName l).Pairwise fun a b => decide (b.1 ≤ a.1) = true :=
    List.pairwise_mergeSort
      (fun a b c hab hbc => by simp only [decide_eq_true_eq] at *; exact hbc.trans hab)
      (fun a b => by simpa using le_total b.1 a.1) l
  simpa only [decide_eq_true_eq] using hle

/-- Sorting makes one list of all that have the same entries under distinct
    names. -/
theorem sortByName_congr {α : Type*} {l l' : List (String × α)} (h : l.Perm l')
    (hnames : (l.map Prod.fst).Nodup) : sortByName l = sortByName l' := by
  have hperm : (sortByName l).Perm (sortByName l') :=
    (List.mergeSort_perm _ _).trans (h.trans (List.mergeSort_perm _ _).symm)
  refine hperm.eq_of_pairwise (fun a b ha hb hab hba => ?_) (pairwise_sortByName l)
    (pairwise_sortByName l')
  have ha' : a ∈ l := (List.mergeSort_perm _ _).mem_iff.mp ha
  have hb' : b ∈ l := h.mem_iff.mpr ((List.mergeSort_perm _ _).mem_iff.mp hb)
  exact List.inj_on_of_nodup_map hnames ha' hb' (le_antisymm hba hab)

namespace Simulates

variable {n : ℕ} {t : PriorityFeeTracker} {w : Window n} {S : Statrs}

/-- The levels of any calculation are those of the window. -/
theorem calculatePriorityFee_eq (h : Simulates t w) (hS : S.DependsOnMultiset)
    (hnan : S.NanOnEmpty) (o : IterOrder Slot) (g : IterOrder Group) (c : Calculations) :
    calculatePriorityFee S o g c t.priorityFees = levelsOf S c.groups (windowSample w c) := by
  have hlevel : ∀ d p, sampleLevel S ((c.getPriorityFeeEstimates o t.priorityFees).sample d) p =
      sampleLevelOf S (windowSample w c d) p := fun d p => by
    rw [← h.coe_sample o c d, sampleLevelOf_coe hS]
  refine estimates_eq_of_level_le_iff fun p x => ?_
  rw [calculatePriorityFee_level_le_iff_sample hS hnan, levelsOf_level, foldr_max_le_iff]
  refine and_congr_right fun _ => ?_
  simp only [List.forall_mem_map, hlevel]
  refine ⟨fun hx d _ => hx d, fun hx d => ?_⟩
  by_cases hd : d ∈ c.groups
  · exact hx d hd
  · have hnone : windowSample w c d = ((([] : List ℚ)) : Multiset ℚ) :=
      Finset.sum_eq_zero fun s _ => Calculations.contribution_of_notMem hd _
    rw [hnone, sampleLevelOf_coe hS, sampleLevel_nil hnan]
    exact bot_le

theorem mem_presentGroups_iff (h : Simulates t w) (o : IterOrder Slot) (c : Calculations)
    (d : DataType) :
    d ∈ c.getPriorityFeeEstimates o t.priorityFees ↔ d ∈ presentGroups w c := by
  cases c with
  | calculation1 accounts includeVote includeEmptySlots lookback =>
    change d ∈ V1.getPriorityFeeEstimates _ _ _ _ _ _ ↔ _
    rw [V1.getPriorityFeeEstimates_eq, V1.mem_finish_iff]
    simp [presentGroups]
  | calculation2 accounts includeVote includeEmptySlots lookback =>
    change d ∈ V2.getPriorityFeeEstimates _ _ _ _ _ _ ↔ _
    rw [h.mem_estimates_iff o, presentGroups, Finset.nonempty_iff_ne_empty]
    split
    · next he => simp [he]
    · next hne => simp [hne, eq_comm]

/-- The details of any calculation, up to moments, are those of the window. -/
theorem details_eq (h : Simulates t w) (hS : S.DependsOnMultiset) {display : Pubkey → String}
    (hname : Function.Injective (DataType.toText display)) (o : IterOrder Slot)
    (cloned g : IterOrder Group) (c : Calculations) :
    (sortByName ((calculatePriorityFeeDetails S display o cloned g c
        t.priorityFees).2.entries.map fun e => (e.1, e.2))).map
        (fun e => (e.1, e.2.withoutMoments)) =
      windowDetails S display w c := by
  set data := c.getPriorityFeeEstimates o t.priorityFees with hdata
  -- the entries, by the groups of the window
  have hgroups : data.keys.Perm (presentGroups w c) :=
    (List.perm_ext_iff_of_nodup data.keys_nodup (nodup_presentGroups w c)).mpr fun d => by
      rw [← AList.mem_keys, hdata, h.mem_presentGroups_iff]
  have hentries : (((calculatePriorityFeeDetails S display o cloned g c
      t.priorityFees).2.entries.map fun e => (e.1, e.2)).map
        fun e => (e.1, e.2.withoutMoments)).Perm
      ((presentGroups w c).map fun d => (d.toText display, detailsOf S (windowSample w c d))) := by
    refine (((entries_details hname S o cloned g c t.priorityFees).map _).map _).trans ?_
    refine List.Perm.trans ?_ (hgroups.map _)
    rw [List.map_map, List.map_map, AList.keys, List.keys, List.map_map]
    refine List.Perm.of_eq (List.map_congr_left fun e he => ?_)
    have hsample : (e.2 : Multiset ℚ) = windowSample w c e.1 := by
      rw [← h.coe_sample o c e.1, ← hdata, DataStats.sample, Table.mem_entries_iff.mp he]
      rfl
    simp only [Function.comp_apply, withoutMoments_groupDetails hS, hsample]
  have hnames : ((((calculatePriorityFeeDetails S display o cloned g c
      t.priorityFees).2.entries.map fun e => (e.1, e.2)).map
        fun e => (e.1, e.2.withoutMoments)).map Prod.fst).Nodup := by
    rw [(hentries.map Prod.fst).nodup_iff, List.map_map]
    exact (nodup_presentGroups w c).map hname
  rw [windowDetails, ← sortByName_congr hentries hnames]
  exact List.map_mergeSort (fun a _ b _ => rfl)

end Simulates

/-- The calculation that a request asks for, or the first objection to it. -/
def calculationOf (crates : Crates) (rpcClient : Option RpcClient) (maxLookbackSlots : ℕ)
    (request : GetPriorityFeeEstimateRequest) (isV1 : Bool) : Except ErrorObject Calculations :=
  match validateGetPriorityFeeEstimateRequest request with
  | some reason => .error reason
  | none => do
    let accounts ← getAccounts crates rpcClient request
    let lookbackSlots := request.options.bind fun o => o.lookbackSlots
    if lookbackSlots.any fun lookbackSlots =>
        lookbackSlots < 1 || maxLookbackSlots < lookbackSlots.toNat then
      .error (invalidRequest "lookback_slots must be between 1 and 150")
    else if isV1 then
      .ok (.calculation1 (pricedAccounts crates accounts) (shouldIncludeVote request.options)
        (shouldIncludeEmptySlots request.options) lookbackSlots)
    else
      .ok (.calculation2 (pricedAccounts crates accounts) (shouldIncludeVote request.options)
        (shouldIncludeEmptySlots request.options) lookbackSlots)

/-- The request asks for details. -/
def GetPriorityFeeEstimateRequest.wantsDetails (request : GetPriorityFeeEstimateRequest) : Bool :=
  (request.options.bind fun o => o.includeDetails).getD false

/-- The response to a request that asks for a calculation. -/
def calculate (S : Statrs) (display : Pubkey → String) (orders : Traversals)
    (store : PriorityFeesBySlot) (request : GetPriorityFeeEstimateRequest) (c : Calculations) :
    GetPriorityFeeEstimateResponse :=
  if request.wantsDetails then
    let result := calculatePriorityFeeDetails S display orders.slots orders.cloned orders.groups
      c store
    respond request.options result.1 (some (sortByName (result.2.entries.map fun e => (e.1, e.2))))
  else
    respond request.options (calculatePriorityFee S orders.slots orders.groups c store) none

/-- Whether a request is refused, and what for, does not depend on the store. -/
theorem executePriorityFeeEstimateCoordinator_eq (S : Statrs) (crates : Crates)
    (orders : Traversals) (server : AtlasPriorityFeeEstimator)
    (request : GetPriorityFeeEstimateRequest) (isV1 : Bool) :
    executePriorityFeeEstimateCoordinator S crates orders server request isV1 =
      (calculationOf crates server.rpcClient server.maxLookbackSlots request isV1).map
        (calculate S crates.display orders server.priorityFeeTracker.priorityFees request) := by
  unfold executePriorityFeeEstimateCoordinator calculationOf
  cases validateGetPriorityFeeEstimateRequest request with
  | some reason => rfl
  | none =>
    cases getAccounts crates server.rpcClient request with
    | error e => rfl
    | ok accounts =>
      simp only [Except.ok_bind]
      split
      · rfl
      · cases isV1 with
        | false => exact (apply_ite Except.ok _ _ _).symm
        | true => exact (apply_ite Except.ok _ _ _).symm

/-- The response without the moments of its details. -/
def GetPriorityFeeEstimateResponse.withoutMoments (r : GetPriorityFeeEstimateResponse) :
    GetPriorityFeeEstimateResponse :=
  { r with priorityFeeEstimateDetails := r.priorityFeeEstimateDetails.map fun details =>
      details.map fun e => (e.1, e.2.withoutMoments) }

theorem withoutMoments_respond (options : Option GetPriorityFeeEstimateOptions)
    (levels : MicroLamportPriorityFeeEstimates)
    (details : Option (List (String × MicroLamportPriorityFeeDetails))) :
    (respond options levels details).withoutMoments =
      respond options levels (details.map fun l => l.map fun e => (e.1, e.2.withoutMoments)) := by
  unfold respond
  cases options with
  | none => rfl
  | some options =>
    simp only
    split
    · rfl
    · split <;> rfl

/-- The answer of a window to a request. -/
noncomputable def windowAnswer (S : Statrs) (crates : Crates) {n : ℕ} (w : Window n)
    (rpcClient : Option RpcClient) (request : GetPriorityFeeEstimateRequest) (isV1 : Bool) :
    Except ErrorObject GetPriorityFeeEstimateResponse :=
  (calculationOf crates rpcClient n request isV1).map fun c =>
    respond request.options (levelsOf S c.groups (windowSample w c))
      (if request.wantsDetails then some (windowDetails S crates.display w c) else none)

/-- A tracker that holds a window answers every request as the window does. -/
theorem Simulates.answer_eq {n : ℕ} {t : PriorityFeeTracker} {w : Window n}
    (h : Simulates t w) {S : Statrs} (hS : S.DependsOnMultiset) (hnan : S.NanOnEmpty)
    {crates : Crates} (hname : Function.Injective (DataType.toText crates.display))
    (orders : Traversals) (rpcClient : Option RpcClient)
    (request : GetPriorityFeeEstimateRequest) (isV1 : Bool) :
    (executePriorityFeeEstimateCoordinator S crates orders ⟨t, rpcClient, n⟩ request isV1).map
        GetPriorityFeeEstimateResponse.withoutMoments =
      windowAnswer S crates w rpcClient request isV1 := by
  rw [executePriorityFeeEstimateCoordinator_eq, windowAnswer]
  change Except.map _ (Except.map _ (calculationOf crates rpcClient n request isV1)) = _
  cases calculationOf crates rpcClient n request isV1 with
  | error e => rfl
  | ok c =>
    change Except.ok (calculate S crates.display orders t.priorityFees request c).withoutMoments =
      Except.ok _
    congr 1
    unfold calculate
    cases request.wantsDetails with
    | false =>
      change (respond _ _ none).withoutMoments = respond _ _ none
      rw [withoutMoments_respond, h.calculatePriorityFee_eq hS hnan]
      rfl
    | true =>
      change (respond _ _ (some _)).withoutMoments = respond _ _ (some _)
      rw [withoutMoments_respond, Option.map_some, h.details_eq hS hname]
      congr 1
      exact h.calculatePriorityFee_eq hS hnan orders.slots orders.cloned c

/-- Every hash map is traversed in the order in which it is stored. -/
def Traversals.stored : Traversals where
  slots := IterOrder.stored Slot
  cloned := IterOrder.stored Group
  groups := IterOrder.stored Group

end PriorityFeeEstimator
