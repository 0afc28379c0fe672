import Mathlib
import PriorityFeeEstimator.Lib.Highest
import PriorityFeeEstimator.SlotLog

/-!
# The two calculations

Both calculations read the store in the same way: they list the slots, sort
them from the highest down, cut the list to the lookback, and visit the slots
that are still in the store. They differ in what a visit adds to the samples.
Calculation 1 keeps one sample for all requested accounts, Calculation 2 one
for each. A `Sampler` is such a visit with its start and its end; the order in
which the store lists its slots is a parameter.
-/

namespace PriorityFeeEstimator

/-- The samples of a calculation, by group. -/
abbrev DataStats := Table DataType (List ℚ)

/-- The sample of a group; a group without an entry has the empty sample. -/
def DataStats.sample (data : DataStats) (d : DataType) : List ℚ := (data.lookup d).getD []

inductive Calculations where
  | calculation1 (accounts : List Pubkey) (includeVote includeEmptySlots : Bool)
      (lookbackPeriod : Option UInt32)
  | calculation2 (accounts : List Pubkey) (includeVote includeEmptySlots : Bool)
      (lookbackPeriod : Option UInt32)

/-- The number of slots to visit out of those available. -/
def calculateLookbackSize (prefNumSlots : Option UInt32) (maxAvailableSlots : ℕ) : ℕ :=
  min maxAvailableSlots ((prefNumSlots.map UInt32.toNat).getD maxAvailableSlots)

/-- The slice of the slots is in bounds. -/
theorem calculateLookbackSize_le (pref : Option UInt32) (n : ℕ) :
    calculateLookbackSize pref n ≤ n :=
  Nat.min_le_left _ _

/-- The slots visited, of those listed: `slots_vec[..lookback]`, sorted from the
    highest slot down. -/
def cutSlots (lookbackPeriod : Option UInt32) (slots : List Slot) : List Slot :=
  (descending slots).take (calculateLookbackSize lookbackPeriod slots.length)

theorem mem_of_mem_cutSlots {lookbackPeriod : Option UInt32} {slots : List Slot} {s : Slot}
    (h : s ∈ cutSlots lookbackPeriod slots) : s ∈ slots :=
  (descending_perm slots).mem_iff.mp (List.mem_of_mem_take h)

theorem cutSlots_nodup {slots : List Slot} (h : slots.Nodup) (lookbackPeriod : Option UInt32) :
    (cutSlots lookbackPeriod slots).Nodup :=
  ((descending_perm slots).nodup_iff.mpr h).sublist (List.take_sublist _ _)

theorem length_cutSlots (lookbackPeriod : Option UInt32) (slots : List Slot) :
    (cutSlots lookbackPeriod slots).length = calculateLookbackSize lookbackPeriod slots.length := by
  rw [cutSlots, List.length_take, (descending_perm slots).length_eq]
  exact Nat.min_eq_left (calculateLookbackSize_le _ _)

/-- The order in which the slots are listed does not matter. -/
theorem cutSlots_eq_of_perm {slots slots' : List Slot} (h : slots.Perm slots')
    (lookbackPeriod : Option UInt32) :
    cutSlots lookbackPeriod slots = cutSlots lookbackPeriod slots' := by
  rw [cutSlots, cutSlots, descending_eq_of_perm h, h.length_eq]

/-- The slots of the store in the order of the traversal, not yet sorted. -/
def slotsVec (o : IterOrder Slot) (priorityFees : PriorityFeesBySlot) : List Slot :=
  o.visit (priorityFees.entries.map fun entry => entry.2.slot)

/-- The slots a calculation visits. -/
def lookbackSlots (o : IterOrder Slot) (lookbackPeriod : Option UInt32)
    (priorityFees : PriorityFeesBySlot) : List Slot :=
  cutSlots lookbackPeriod (slotsVec o priorityFees)

/-- What a calculation does with the slots it visits. -/
structure Sampler where
  Acc : Type
  init : Acc
  visit : Acc → SlotPriorityFees → Acc
  finish : Acc → DataStats

namespace Sampler

/-- One round of the loop over the slots: a slot that is not in the store any
    more is passed over. -/
def visitEntry (m : Sampler) (acc : m.Acc) : Option SlotPriorityFees → m.Acc
  | some slotPriorityFees => m.visit acc slotPriorityFees
  | none => acc

def estimates (m : Sampler) (o : IterOrder Slot) (lookbackPeriod : Option UInt32)
    (priorityFees : PriorityFeesBySlot) : DataStats :=
  m.finish ((lookbackSlots o lookbackPeriod priorityFees).foldl
    (fun acc slot => m.visitEntry acc (priorityFees.lookup slot)) m.init)

end Sampler

/-- `extend_from_slice` with the vote fees, when they are included, and with the
    other fees. -/
def extendFees (includeVote : Bool) (fees : List ℚ) (f : Fees) : List ℚ :=
  let fees := if includeVote then fees ++ f.voteFees else fees
  fees ++ f.nonVoteFees

theorem extendFees_eq (includeVote : Bool) (fees : List ℚ) (f : Fees) :
    extendFees includeVote fees f = fees ++ f.counted includeVote := by
  cases includeVote <;> simp [extendFees, Fees.counted]

namespace V1

structure Acc where
  globalFees : List ℚ
  accountFees : List ℚ

/-- One round of the loop over the accounts, with the flag `has_data`. -/
def visitAccount (includeVote : Bool) (s : SlotPriorityFees) (acc : List ℚ × Bool)
    (account : Pubkey) : List ℚ × Bool :=
  match s.accountFees.lookup account with
  | some accountPriorityFees => (extendFees includeVote acc.1 accountPriorityFees, true)
  | none => acc

def visitSlot (accounts : List Pubkey) (includeVote includeEmptySlots : Bool) (acc : Acc)
    (s : SlotPriorityFees) : Acc :=
  let globalFees := extendFees includeVote acc.globalFees s.fees
  if 0 < accounts.length then
    let (accountFees, hasData) :=
      accounts.foldl (visitAccount includeVote s) (acc.accountFees, false)
    if !hasData then
      if includeEmptySlots then ⟨globalFees, accountFees ++ [0]⟩ else ⟨globalFees, accountFees⟩
    else ⟨globalFees, accountFees⟩
  else ⟨globalFees, acc.accountFees⟩

def finish (acc : Acc) : DataStats :=
  ((∅ : DataStats).insert .global acc.globalFees).insert .allAccounts acc.accountFees

def sampler (accounts : List Pubkey) (includeVote includeEmptySlots : Bool) : Sampler where
  Acc := Acc
  init := ⟨[], []⟩
  visit := visitSlot accounts includeVote includeEmptySlots
  finish := finish

def getPriorityFeeEstimates (o : IterOrder Slot) (accounts : List Pubkey)
    (includeVote includeEmptySlots : Bool) (lookbackPeriod : Option UInt32)
    (priorityFees : PriorityFeesBySlot) : DataStats :=
  (sampler accounts includeVote includeEmptySlots).estimates o lookbackPeriod priorityFees

end V1

namespace V2

/-- One round of the loop over the accounts: the group of the account is created
    when it is missing, and extended. -/
def visitAccount (includeVote includeEmptySlots : Bool) (s : SlotPriorityFees)
    (data : DataStats) (account : Pubkey) : DataStats :=
  data.upsert (.account account) fun fees =>
    let fees := fees.getD []
    match s.accountFees.lookup account with
    | some accountPriorityFees => extendFees includeVote fees accountPriorityFees
    | none => if includeEmptySlots then fees ++ [0] else fees

def visitSlot (accounts : List Pubkey) (includeVote includeEmptySlots : Bool) (data : DataStats)
    (s : SlotPriorityFees) : DataStats :=
  let data := data.upsert .global fun fees => extendFees includeVote (fees.getD []) s.fees
  accounts.foldl (visitAccount includeVote includeEmptySlots s) data

def sampler (accounts : List Pubkey) (includeVote includeEmptySlots : Bool) : Sampler where
  Acc := DataStats
  init := ∅
  visit := visitSlot accounts includeVote includeEmptySlots
  finish := id

def getPriorityFeeEstimates (o : IterOrder Slot) (accounts : List Pubkey)
    (includeVote includeEmptySlots : Bool) (lookbackPeriod : Option UInt32)
    (priorityFees : PriorityFeesBySlot) : DataStats :=
  (sampler accounts includeVote includeEmptySlots).estimates o lookbackPeriod priorityFees

end V2

namespace Calculations

def sampler : Calculations → Sampler
  | calculation1 accounts includeVote includeEmptySlots _ =>
    V1.sampler accounts includeVote includeEmptySlots
  | calculation2 accounts includeVote includeEmptySlots _ =>
    V2.sampler accounts includeVote includeEmptySlots

def lookbackPeriod : Calculations → Option UInt32
  | calculation1 _ _ _ lookbackPeriod => lookbackPeriod
  | calculation2 _ _ _ lookbackPeriod => lookbackPeriod

def accounts : Calculations → List Pubkey
  | calculation1 accounts _ _ _ => accounts
  | calculation2 accounts _ _ _ => accounts

def includeVote : Calculations → Bool
  | calculation1 _ includeVote _ _ => includeVote
  | calculation2 _ includeVote _ _ => includeVote

def includeEmptySlots : Calculations → Bool
  | calculation1 _ _ includeEmptySlots _ => includeEmptySlots
  | calculation2 _ _ includeEmptySlots _ => includeEmptySlots

def getPriorityFeeEstimates (o : IterOrder Slot) (calculation : Calculations)
    (priorityFees : PriorityFeesBySlot) : DataStats :=
  match calculation with
  | calculation1 accounts includeVote includeEmptySlots lookbackPeriod =>
    V1.getPriorityFeeEstimates o accounts includeVote includeEmptySlots lookbackPeriod priorityFees
  | calculation2 accounts includeVote includeEmptySlots lookbackPeriod =>
    V2.getPriorityFeeEstimates o accounts includeVote includeEmptySlots lookbackPeriod priorityFees

theorem getPriorityFeeEstimates_eq (o : IterOrder Slot) (c : Calculations)
    (priorityFees : PriorityFeesBySlot) :
    c.getPriorityFeeEstimates o priorityFees =
      c.sampler.estimates o c.lookbackPeriod priorityFees := by
  cases c <;> rfl

end Calculations

/-- The values of the slots visited, in the order of the visits. -/
def lookbackValues (o : IterOrder Slot) (lookbackPeriod : Option UInt32)
    (priorityFees : PriorityFeesBySlot) : List SlotPriorityFees :=
  (lookbackSlots o lookbackPeriod priorityFees).filterMap priorityFees.lookup

theorem Sampler.foldl_visitEntry (m : Sampler) (vs : List (Option SlotPriorityFees))
    (acc : m.Acc) : vs.foldl m.visitEntry acc = (vs.filterMap id).foldl m.visit acc := by
  induction vs generalizing acc with
  | nil => rfl
  | cons v vs ih => cases v <;> simpa [Sampler.visitEntry] using ih _

/-- A calculation is its visits, one for each slot found. -/
theorem Sampler.estimates_eq (m : Sampler) (o : IterOrder Slot) (lookback : Option UInt32)
    (store : PriorityFeesBySlot) :
    m.estimates o lookback store =
      m.finish ((lookbackValues o lookback store).foldl m.visit m.init) := by
  have h := m.foldl_visitEntry ((lookbackSlots o lookback store).map store.lookup) m.init
  rw [List.foldl_map, List.filterMap_map] at h
  rw [Sampler.estimates, h]
  rfl

/-- The slots visited do not depend on the order of the traversal, nor on anything
    in the store but the slot fields. -/
theorem lookbackSlots_congr {o o' : IterOrder Slot} {m m' : PriorityFeesBySlot}
    (h : ∀ s, (m.lookup s).map SlotPriorityFees.slot = (m'.lookup s).map SlotPriorityFees.slot)
    (lookback : Option UInt32) : lookbackSlots o lookback m = lookbackSlots o' lookback m' :=
  cutSlots_eq_of_perm (((o.perm _).trans (Table.map_entries_perm h)).trans (o'.perm _).symm) _

/-- Two stores whose values are related slot by slot, with the slot fields alike:
    the values visited are related in turn. -/
theorem lookbackValues_rel {R : SlotPriorityFees → SlotPriorityFees → Prop}
    (hslot : ∀ v v', R v v' → v.slot = v'.slot) {m m' : PriorityFeesBySlot}
    (h : ∀ s, Option.Rel R (m.lookup s) (m'.lookup s)) (o o' : IterOrder Slot)
    (lookback : Option UInt32) :
    List.Forall₂ R (lookbackValues o lookback m) (lookbackValues o' lookback m') := by
  have hslots : lookbackSlots o lookback m = lookbackSlots o' lookback m' :=
    lookbackSlots_congr (fun s => optionRel_map_eq hslot (h s)) lookback
  rw [lookbackValues, lookbackValues, hslots]
  refine List.rel_filterMap (R := Eq) (fun s s' hs => ?_) (List.forall₂_same.mpr fun _ _ => rfl)
  subst hs
  exact h s

/-- The traversal of the store does not enter the samples. -/
theorem Calculations.getPriorityFeeEstimates_order (o o' : IterOrder Slot) (c : Calculations)
    (m : PriorityFeesBySlot) :
    c.getPriorityFeeEstimates o m = c.getPriorityFeeEstimates o' m := by
  rw [getPriorityFeeEstimates_eq, getPriorityFeeEstimates_eq, Sampler.estimates, Sampler.estimates,
    (lookbackSlots_congr (fun _ => rfl) _ : lookbackSlots o _ m = lookbackSlots o' _ m)]

/-- A store whose entries carry the slot they are stored under. -/
def WellKeyed (m : PriorityFeesBySlot) : Prop := ∀ s v, m.lookup s = some v → v.slot = s

theorem map_slot_entries {m : PriorityFeesBySlot} (h : WellKeyed m) :
    (m.entries.map fun e => e.2.slot) = m.keys := by
  refine List.map_congr_left fun e he => ?_
  exact h e.1 e.2 (Table.mem_entries_iff.mp he)

theorem slotsVec_perm {m : PriorityFeesBySlot} (h : WellKeyed m) (o : IterOrder Slot) :
    (slotsVec o m).Perm m.keys := by
  refine (o.perm _).trans ?_
  rw [map_slot_entries h]

theorem slotsVec_nodup {m : PriorityFeesBySlot} (h : WellKeyed m) (o : IterOrder Slot) :
    (slotsVec o m).Nodup :=
  (slotsVec_perm h o).nodup_iff.mpr m.keys_nodup

theorem lookbackSlots_nodup {m : PriorityFeesBySlot} (h : WellKeyed m) (o : IterOrder Slot)
    (lookback : Option UInt32) : (lookbackSlots o lookback m).Nodup :=
  cutSlots_nodup (slotsVec_nodup h o) lookback

/-- The slots visited are the highest slots of the store, as many as the
    lookback asks for. -/
theorem toFinset_lookbackSlots {m : PriorityFeesBySlot} (h : WellKeyed m) (o : IterOrder Slot)
    (lookback : Option UInt32) :
    (lookbackSlots o lookback m).toFinset =
      highest ((lookback.map UInt32.toNat).getD m.keys.length) m.keys.toFinset := by
  have hlist := slotsVec_perm h o
  have hcut : lookbackSlots o lookback m = (descending (slotsVec o m)).take
      ((lookback.map UInt32.toNat).getD m.keys.length) := by
    rw [lookbackSlots, cutSlots, List.take_eq_take_iff, (descending_perm _).length_eq,
      calculateLookbackSize, hlist.length_eq]
    omega
  rw [hcut, toFinset_take_descending (slotsVec_nodup h o), List.toFinset_eq_of_perm _ _ hlist]

/-- A slot visited is in the store. -/
theorem exists_lookup_of_mem_lookbackSlots {m : PriorityFeesBySlot} (h : WellKeyed m)
    {o : IterOrder Slot} {lookback : Option UInt32} {s : Slot}
    (hs : s ∈ lookbackSlots o lookback m) : ∃ v, m.lookup s = some v := by
  have hk : s ∈ m.keys := (slotsVec_perm h o).mem_iff.mp (mem_of_mem_cutSlots hs)
  exact Table.mem_iff_exists_lookup.mp (AList.mem_keys.mpr hk)

end PriorityFeeEstimator
