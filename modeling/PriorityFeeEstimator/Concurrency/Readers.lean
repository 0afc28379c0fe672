import Mathlib
import PriorityFeeEstimator.Calculation

/-!
# A calculation in its atomic steps

A calculation reads the store while others write it. It lists the slots shard by
shard, sorts them and cuts them to the lookback, and then looks up one slot after
another. The listing of one shard is atomic, and so is the visit of one slot,
which happens under a guard; between them the store may change.
-/

namespace PriorityFeeEstimator

/-- The shards of the store, each slot in one of them. -/
structure Shards where
  count : ℕ
  shardOf : Slot → Fin count

/-- The next step of a calculation, with what it has collected. -/
inductive ReaderPc (shards : Shards) (c : Calculations) where
  | listing (left : List (Fin shards.count)) (slotsVec : List Slot)
  | reading (todo : List Slot) (acc : c.sampler.Acc)
  | panicked
  | returned (data : DataStats)

/-- The slot fields of the entries of one shard. -/
def shardSlots (shards : Shards) (o : IterOrder Slot) (m : PriorityFeesBySlot)
    (shard : Fin shards.count) : List Slot :=
  o.visit ((m.entries.filter fun entry => shards.shardOf entry.1 = shard).map fun entry =>
    entry.2.slot)

section Reader

variable {shards : Shards} {c : Calculations}

/-- A calculation that has not listed any shard yet. -/
def ReaderPc.start (shards : Shards) (c : Calculations) : ReaderPc shards c :=
  .listing (List.finRange shards.count) []

/-- The samples of a calculation that has returned. -/
def ReaderPc.result : ReaderPc shards c → Option DataStats
  | .returned data => some data
  | _ => none

theorem ReaderPc.eq_returned_of_result {pc : ReaderPc shards c} {data : DataStats}
    (h : pc.result = some data) : pc = .returned data := by
  cases pc with
  | returned data' => exact congrArg returned (Option.some.inj h)
  | listing left slotsVec => cases h
  | reading todo acc => cases h
  | panicked => cases h

/-- The next step of a calculation on the store `m`: list a shard, or look up a
    slot. Between the two it sorts the slots and cuts them to the lookback. -/
def readerStep (o : IterOrder Slot) (m : PriorityFeesBySlot) : ReaderPc shards c → ReaderPc shards c
  | .listing (shard :: left) slotsVec => .listing left (slotsVec ++ shardSlots shards o m shard)
  | .listing [] slotsVec =>
    -- a slice out of bounds panics
    if calculateLookbackSize c.lookbackPeriod slotsVec.length ≤ slotsVec.length then
      .reading (cutSlots c.lookbackPeriod slotsVec) c.sampler.init
    else .panicked
  | .reading (slot :: todo) acc => .reading todo (c.sampler.visitEntry acc (m.lookup slot))
  | .reading [] acc => .returned (c.sampler.finish acc)
  | .panicked => .panicked
  | .returned data => .returned data

/-- What the next step looks up: a slot, and its entry if it is still there. -/
def ReaderPc.nextLookup (m : PriorityFeesBySlot) :
    ReaderPc shards c → Option (Slot × Option SlotPriorityFees)
  | .reading (slot :: _) _ => some (slot, m.lookup slot)
  | _ => none

/-- The lookback never exceeds the slots listed, so the slice exists. -/
theorem readerStep_listing_nil (o : IterOrder Slot) (m : PriorityFeesBySlot)
    (slotsVec : List Slot) :
    readerStep o m (.listing [] slotsVec : ReaderPc shards c) =
      .reading (cutSlots c.lookbackPeriod slotsVec) c.sampler.init :=
  if_pos (calculateLookbackSize_le _ _)

theorem mem_shardSlots {o : IterOrder Slot} {m : PriorityFeesBySlot} (h : WellKeyed m)
    {shard : Fin shards.count} {s : Slot} :
    s ∈ shardSlots shards o m shard ↔ shards.shardOf s = shard ∧ s ∈ m := by
  rw [shardSlots, IterOrder.mem_visit, List.mem_map]
  constructor
  · rintro ⟨⟨k, v⟩, he, rfl⟩
    obtain ⟨he, hshard⟩ := List.mem_filter.mp he
    have hl := Table.mem_entries_iff.mp he
    change shards.shardOf v.slot = shard ∧ v.slot ∈ m
    rw [h k v hl]
    exact ⟨of_decide_eq_true hshard, Table.mem_iff_exists_lookup.mpr ⟨v, hl⟩⟩
  · rintro ⟨rfl, hmem⟩
    obtain ⟨v, hl⟩ := Table.mem_iff_exists_lookup.mp hmem
    exact ⟨⟨s, v⟩, List.mem_filter.mpr ⟨Table.mem_entries_iff.mpr hl, by simp⟩, h s v hl⟩

theorem nodup_shardSlots (o : IterOrder Slot) {m : PriorityFeesBySlot} (h : WellKeyed m)
    (shard : Fin shards.count) : (shardSlots shards o m shard).Nodup := by
  have hkeys : (m.entries.map fun entry => entry.2.slot).Nodup := by
    rw [map_slot_entries h]
    exact m.keys_nodup
  exact (o.perm _).nodup_iff.mpr (hkeys.sublist (List.filter_sublist.map _))

/-- The shards together hold every slot once. -/
theorem flatMap_shardSlots_perm (o : IterOrder Slot) {m : PriorityFeesBySlot} (h : WellKeyed m) :
    ((List.finRange shards.count).flatMap (shardSlots shards o m)).Perm m.keys := by
  refine (List.perm_ext_iff_of_nodup ?_ m.keys_nodup).mpr fun s => ?_
  · rw [List.nodup_flatMap]
    refine ⟨fun shard _ => nodup_shardSlots o h shard, ?_⟩
    refine (List.nodup_finRange _).imp fun {i j} hij s hi hj => hij ?_
    rw [← ((mem_shardSlots h).mp hi).1, ((mem_shardSlots h).mp hj).1]
  · rw [List.mem_flatMap, AList.mem_keys.symm]
    constructor
    · rintro ⟨shard, -, hs⟩
      exact ((mem_shardSlots h).mp hs).2
    · intro hs
      exact ⟨shards.shardOf s, List.mem_finRange _, (mem_shardSlots h).mpr ⟨rfl, hs⟩⟩

private theorem iterate_listing (o : IterOrder Slot) (m : PriorityFeesBySlot)
    (left : List (Fin shards.count)) (slotsVec : List Slot) :
    (readerStep o m)^[left.length] (.listing left slotsVec : ReaderPc shards c) =
      .listing [] (slotsVec ++ left.flatMap (shardSlots shards o m)) := by
  induction left generalizing slotsVec with
  | nil => simp
  | cons shard left ih =>
    rw [List.length_cons, Function.iterate_succ_apply, readerStep, ih, List.flatMap_cons,
      List.append_assoc]

private theorem iterate_reading (o : IterOrder Slot) (m : PriorityFeesBySlot) (todo : List Slot)
    (acc : c.sampler.Acc) :
    (readerStep o m)^[todo.length] (.reading todo acc : ReaderPc shards c) =
      .reading [] (todo.foldl (fun acc slot => c.sampler.visitEntry acc (m.lookup slot)) acc) := by
  induction todo generalizing acc with
  | nil => rfl
  | cons slot todo ih =>
    rw [List.length_cons, Function.iterate_succ_apply, readerStep, ih, List.foldl_cons]

/-- A reader that runs alone gets the estimates of its calculation. -/
theorem exists_iterate_readerStep (o : IterOrder Slot) {m : PriorityFeesBySlot} (h : WellKeyed m) :
    ∃ k, (readerStep o m)^[k] (.start shards c) = .returned (c.getPriorityFeeEstimates o m) := by
  set slots := (List.finRange shards.count).flatMap (shardSlots shards o m) with hslots
  set todo := lookbackSlots o c.lookbackPeriod m with htodo
  have hslice : readerStep o m (.listing [] slots : ReaderPc shards c) =
      .reading todo c.sampler.init := by
    have hslots : slots.Perm (slotsVec o m) :=
      (flatMap_shardSlots_perm o h).trans (slotsVec_perm h o).symm
    rw [readerStep_listing_nil, cutSlots_eq_of_perm hslots]
    rfl
  refine ⟨1 + (todo.length + (1 + (List.finRange shards.count).length)), ?_⟩
  rw [Function.iterate_add_apply, Function.iterate_add_apply, Function.iterate_add_apply,
    ReaderPc.start, iterate_listing, List.nil_append, ← hslots, Function.iterate_one, hslice,
    iterate_reading, Calculations.getPriorityFeeEstimates_eq]
  rfl

end Reader

end PriorityFeeEstimator
