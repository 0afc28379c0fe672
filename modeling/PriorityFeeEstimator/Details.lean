import Mathlib
import PriorityFeeEstimator.Base58
import PriorityFeeEstimator.Estimates
import PriorityFeeEstimator.Tracker

/-!
# Details

A request with details returns the same six levels as one without. The details
have one entry for each group of samples, under the name of the group, and the
levels are the maxima over the entries. Displayed keys must be distinct, and
none may read like the name of another group.
-/

namespace PriorityFeeEstimator

section Naming

variable {display : Pubkey → String}

/-- Groups with the same name are the same. -/
theorem DataType.toText_injective (hinj : Function.Injective display)
    (hglobal : ∀ k, display k ≠ "Global") (hall : ∀ k, display k ≠ "All Accounts") :
    Function.Injective (DataType.toText display) := by
  intro d d' h
  cases d with
  | global =>
    cases d' with
    | global => rfl
    | allAccounts => exact absurd h (by simp [toText])
    | account k => exact absurd h.symm (hglobal k)
  | allAccounts =>
    cases d' with
    | global => exact absurd h (by simp [toText])
    | allAccounts => rfl
    | account k => exact absurd h.symm (hall k)
  | account k =>
    cases d' with
    | global => exact absurd h (hglobal k)
    | allAccounts => exact absurd h (hall k)
    | account k' => exact congrArg DataType.account (hinj h)

/-- The details have one entry for each group, under its name. -/
theorem entries_details (hname : Function.Injective (DataType.toText display)) (S : Statrs)
    (o : IterOrder Slot) (cloned g : IterOrder Group) (c : Calculations)
    (m : PriorityFeesBySlot) :
    (calculatePriorityFeeDetails S display o cloned g c m).2.entries.Perm
      ((c.getPriorityFeeEstimates o m).entries.map fun e =>
        ⟨e.1.toText display, groupDetails S e.2⟩) := by
  have hkeys : ((g.visit (c.getPriorityFeeEstimates o m).entries).map
      fun e => e.1.toText display).Nodup := by
    rw [((g.perm _).map _).nodup_iff]
    have h := (c.getPriorityFeeEstimates o m).keys_nodup.map hname
    rwa [AList.keys, List.keys, List.map_map] at h
  exact (Table.entries_foldl_insert (fun e => groupDetails S e.2) hkeys).trans ((g.perm _).map _)

/-- The details of a group are found under its name. -/
theorem lookup_details (hname : Function.Injective (DataType.toText display)) (S : Statrs)
    (o : IterOrder Slot) (cloned g : IterOrder Group) (c : Calculations) (m : PriorityFeesBySlot)
    (d : DataType) :
    (calculatePriorityFeeDetails S display o cloned g c m).2.lookup (d.toText display) =
      ((c.getPriorityFeeEstimates o m).lookup d).map (groupDetails S) := by
  have hentries := entries_details hname S o cloned g c m
  apply Option.ext
  intro details
  rw [← Table.mem_entries_iff, hentries.mem_iff, List.mem_map, Option.map_eq_some_iff]
  constructor
  · rintro ⟨⟨d', sample⟩, hd', he⟩
    obtain ⟨hd, rfl⟩ := Sigma.mk.inj_iff.mp he
    obtain rfl := hname hd
    exact ⟨sample, Table.mem_entries_iff.mp hd', rfl⟩
  · rintro ⟨sample, hd, rfl⟩
    exact ⟨⟨d, sample⟩, Table.mem_entries_iff.mpr hd, rfl⟩

/-- The same samples under the same groups give the same details, whatever the
    traversals. -/
theorem lookup_details_congr (hname : Function.Injective (DataType.toText display)) (S : Statrs)
    {o o' : IterOrder Slot} {c c' : Calculations} {m m' : PriorityFeesBySlot}
    (h : ∀ d, (c.getPriorityFeeEstimates o m).lookup d =
      (c'.getPriorityFeeEstimates o' m').lookup d) (cloned cloned' g g' : IterOrder Group)
    (name : String) :
    (calculatePriorityFeeDetails S display o cloned g c m).2.lookup name =
      (calculatePriorityFeeDetails S display o' cloned' g' c' m').2.lookup name := by
  have hdata : (c.getPriorityFeeEstimates o m).entries.Perm
      (c'.getPriorityFeeEstimates o' m').entries :=
    List.lookup_ext (AList.nodupKeys _) (AList.nodupKeys _) fun d l => by
      rw [← AList.lookup, ← AList.lookup, h]
  apply AList.perm_lookup
  exact ((entries_details hname S o cloned g c m).trans (hdata.map _)).trans
    (entries_details hname S o' cloned' g' c' m').symm

end Naming

theorem foldr_max_le_iff (l : List F64) (b x : F64) :
    l.foldr max b ≤ x ↔ b ≤ x ∧ ∀ y ∈ l, y ≤ x := by
  induction l with
  | nil => simp
  | cons y l ih =>
    rw [List.foldr_cons, max_le_iff, ih]
    simp only [List.mem_cons, forall_eq_or_imp]
    tauto

/-- A level is the maximum of zero and of the levels of the groups taken one by
    one. -/
theorem calculatePriorityFee_eq_foldr {S : Statrs} (hS : S.DependsOnMultiset) (o : IterOrder Slot)
    (g : IterOrder Group) (c : Calculations) (m : PriorityFeesBySlot) (p : PriorityLevel) :
    (calculatePriorityFee S o g c m).level p =
      ((c.getPriorityFeeEstimates o m).entries.map
        fun e => (groupDetails S e.2).estimates.level p).foldr max 0 := by
  refine eq_of_forall_ge_iff fun x => ?_
  rw [calculatePriorityFee, foldEstimates_level_le_iff hS, foldr_max_le_iff]
  refine and_congr_right fun hx => ?_
  simp only [List.forall_mem_map, g.mem_visit, groupDetails_level hS, max_le_iff, hx, and_true]

/-- Asking for details does not change the levels, whatever the orders in which
    the hash maps are traversed. Level by level they are the maximum of zero and
    of the entries of the details. The entries stand for the groups one to one,
    and count the samples. -/
theorem details_agree {S : Statrs} (hS : S.DependsOnMultiset) {display : Pubkey → String}
    (hinj : Function.Injective display) (hglobal : ∀ k, display k ≠ "Global")
    (hall : ∀ k, display k ≠ "All Accounts") (o o' : IterOrder Slot)
    (g cloned g' : IterOrder Group) (c : Calculations) (m : PriorityFeesBySlot) :
    let levels := calculatePriorityFee S o g c m
    let result := calculatePriorityFeeDetails S display o' cloned g' c m
    let data := c.getPriorityFeeEstimates o' m
    result.1 = levels ∧
    (∀ p, levels.level p =
      (result.2.entries.map fun e => e.2.estimates.level p).foldr max 0) ∧
    (∀ d ∈ data, ∀ d' ∈ data, d.toText display = d'.toText display → d = d') ∧
    result.2.keys.Perm (data.keys.map (DataType.toText display)) ∧
    ∀ d sample, data.lookup d = some sample → ∃ details,
      result.2.lookup (d.toText display) = some details ∧ details.count = sample.length := by
  intro levels result data
  have hname := DataType.toText_injective hinj hglobal hall
  have hentries := entries_details hname S o' cloned g' c m
  have hdata : c.getPriorityFeeEstimates o m = data := c.getPriorityFeeEstimates_order o o' m
  refine ⟨?_, fun p => ?_, fun d _ d' _ h => hname h, ?_, fun d sample hd => ?_⟩
  · refine estimates_eq_of_level_le_iff fun p x => ?_
    change (calculatePriorityFee S o' cloned c m).level p ≤ x ↔ _
    rw [calculatePriorityFee_level_le_iff hS, calculatePriorityFee_level_le_iff hS, hdata]
  · rw [calculatePriorityFee_eq_foldr hS, hdata]
    have hlevels := hentries.map fun e => e.2.estimates.level p
    rw [List.map_map] at hlevels
    exact (hlevels.foldr_eq 0).symm
  · have hkeys := hentries.map Sigma.fst
    rw [List.map_map] at hkeys
    rw [AList.keys, AList.keys, List.keys, List.keys, List.map_map]
    exact hkeys
  · refine ⟨groupDetails S sample, ?_, groupDetails_count hS sample⟩
    rw [lookup_details hname, hd]
    rfl

/-- Base58 displays keys as required, here for a request on two accounts. -/
theorem details_agree_base58 :
    let m := (PriorityFeeTracker.run 1 [(5, ⟨[Pubkey.filled 1], 100, false, .legacyV0⟩),
      (5, ⟨[Pubkey.filled 2], 900, false, .v1⟩)]).priorityFees
    let c := Calculations.calculation2 [Pubkey.filled 1, Pubkey.filled 2] false true none
    (calculatePriorityFeeDetails .exact Pubkey.toBase58 (IterOrder.stored Slot)
        (IterOrder.stored Group) (IterOrder.stored Group) c m).1 =
      calculatePriorityFee .exact (IterOrder.stored Slot) (IterOrder.stored Group) c m :=
  (details_agree Statrs.exact_dependsOnMultiset Pubkey.toBase58_injective
    (Pubkey.toBase58_ne_of_mem (x := 'l') (by decide) (by decide))
    (Pubkey.toBase58_ne_of_mem (x := 'l') (by decide) (by decide)) (IterOrder.stored Slot)
    (IterOrder.stored Slot) (IterOrder.stored Group) (IterOrder.stored Group)
    (IterOrder.stored Group) _ _).1

end PriorityFeeEstimator
