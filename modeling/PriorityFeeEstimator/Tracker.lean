import Mathlib
import PriorityFeeEstimator.Lib.KeyedFifo
import PriorityFeeEstimator.SlotCache
import PriorityFeeEstimator.SlotLog

/-!
# The tracker and its window

`PriorityFeeTracker` records a transaction in three stages: the slot enters the
slot cache, the transaction is stored under its slot, and the slot that had to
leave the cache is removed from the store. What the tracker is for is said by an
abstract window: the slots held, in the order they were admitted, and for each
the log of its transactions. `Simulates` ties the two together, and every push
preserves it.
-/

namespace PriorityFeeEstimator

/-- The store and the cache that decides which slots it keeps. -/
structure PriorityFeeTracker where
  priorityFees : PriorityFeesBySlot
  slotCache : SlotCache

/-- The second stage of a push: the slot is created with the transaction, or
    extended by it. -/
def PriorityFeesBySlot.store (m : PriorityFeesBySlot) (slot : Slot) (accounts : List Pubkey)
    (priorityFee : UInt64) (isVote : Bool) (version : TransactionVersion) : PriorityFeesBySlot :=
  if slot ∉ m then
    m.insert slot (.newWithVersion slot accounts priorityFee isVote version)
  else
    m.modify slot fun s => s.update accounts priorityFee isVote version

namespace PriorityFeeTracker

def new (slotCacheLength : ℕ) : PriorityFeeTracker := ⟨∅, .new slotCacheLength⟩

def pushPriorityFeeForTxnWithVersion (t : PriorityFeeTracker) (slot : Slot)
    (accounts : List Pubkey) (priorityFee : UInt64) (isVote : Bool)
    (version : TransactionVersion) : PriorityFeeTracker :=
  let (slotToRemove, slotCache) := t.slotCache.pushPop slot
  let priorityFees := PriorityFeesBySlot.store t.priorityFees slot accounts priorityFee isVote version
  let priorityFees :=
    match slotToRemove with
    | some slotToRemove => priorityFees.erase slotToRemove
    | none => priorityFees
  { priorityFees := priorityFees, slotCache := slotCache }

def pushPriorityFeeForTxn (t : PriorityFeeTracker) (slot : Slot) (accounts : List Pubkey)
    (priorityFee : UInt64) (isVote : Bool) : PriorityFeeTracker :=
  t.pushPriorityFeeForTxnWithVersion slot accounts priorityFee isVote .legacyV0

/-- One push, its arguments collected. -/
def push (t : PriorityFeeTracker) (p : Slot × Txn) : PriorityFeeTracker :=
  t.pushPriorityFeeForTxnWithVersion p.1 p.2.accounts p.2.priorityFee p.2.isVote p.2.version

/-- Pushes made one after another. -/
def pushAll (t : PriorityFeeTracker) (ps : List (Slot × Txn)) : PriorityFeeTracker :=
  ps.foldl push t

/-- Pushes made one after another on a fresh tracker. -/
def run (n : ℕ) (ps : List (Slot × Txn)) : PriorityFeeTracker := (new n).pushAll ps

@[simp] theorem pushAll_nil (t : PriorityFeeTracker) : t.pushAll [] = t := rfl

@[simp] theorem pushAll_cons (t : PriorityFeeTracker) (p : Slot × Txn) (ps : List (Slot × Txn)) :
    t.pushAll (p :: ps) = (t.push p).pushAll ps := rfl

@[simp] theorem run_nil (n : ℕ) : run n [] = new n := rfl

@[simp] theorem run_concat (n : ℕ) (ps : List (Slot × Txn)) (p : Slot × Txn) :
    run n (ps ++ [p]) = (run n ps).push p := by
  simp [run, pushAll]

end PriorityFeeTracker

open SlotPriorityFees

/-- The second stage of a push, key by key. -/
theorem PriorityFeesBySlot.lookup_store (m : PriorityFeesBySlot) (slot : Slot) (x : Txn)
    (k : Slot) :
    (store m slot x.accounts x.priorityFee x.isVote x.version).lookup k =
      if k = slot then some (extend slot x (m.lookup slot)) else m.lookup k := by
  unfold store
  by_cases hmem : slot ∈ m
  · obtain ⟨s, hs⟩ := Table.mem_iff_exists_lookup.mp hmem
    rw [if_neg (not_not.mpr hmem), Table.lookup_modify, hs]
    rfl
  · rw [if_pos hmem, Table.lookup_insert_eq_ite, AList.lookup_eq_none.mpr hmem]
    rfl

namespace PriorityFeeTracker

@[simp] theorem push_slotCache (t : PriorityFeeTracker) (p : Slot × Txn) :
    (t.push p).slotCache = (t.slotCache.pushPop p.1).2 := rfl

/-- A push, key by key: the slot that left the cache is gone, the slot pushed to
    has one transaction more, and every other slot is as before. -/
theorem lookup_push (t : PriorityFeeTracker) (p : Slot × Txn) (k : Slot) :
    (t.push p).priorityFees.lookup k =
      if (t.slotCache.pushPop p.1).1 = some k then none
      else if k = p.1 then some (extend p.1 p.2 (t.priorityFees.lookup p.1))
      else t.priorityFees.lookup k := by
  rw [← PriorityFeesBySlot.lookup_store]
  unfold push pushPriorityFeeForTxnWithVersion
  cases h : (t.slotCache.pushPop p.1).1 with
  | none => simp [h]
  | some d =>
    simp only [h, Table.lookup_erase_eq_ite, Option.some.injEq, eq_comm (a := d)]

end PriorityFeeTracker

/-- Every slot held stores the transactions of some log. -/
def Stored (m : PriorityFeesBySlot) : Prop :=
  ∀ s v, m.lookup s = some v → ∃ l, ofLog s l = some v

theorem Stored.push {t : PriorityFeeTracker} (h : Stored t.priorityFees) (p : Slot × Txn) :
    Stored (t.push p).priorityFees := by
  intro s v hv
  rw [PriorityFeeTracker.lookup_push] at hv
  split at hv
  · cases hv
  · split at hv
    · next hs =>
      subst hs
      rw [Option.some.injEq] at hv
      cases hold : t.priorityFees.lookup p.1 with
      | none =>
        rw [hold] at hv
        exact ⟨[p.2], congrArg some hv⟩
      | some v' =>
        rw [hold] at hv
        obtain ⟨l, hl⟩ := h p.1 v' hold
        exact ⟨l ++ [p.2], by rw [ofLog_concat, hl, hv]⟩
    · exact h s v hv

/-- In every reachable store each slot stores the transactions of some log,
    whatever the capacity. -/
theorem stored_run (n : ℕ) (ps : List (Slot × Txn)) :
    Stored (PriorityFeeTracker.run n ps).priorityFees := by
  induction ps using List.reverseRecOn with
  | nil => intro s v hv; cases hv
  | append_singleton ps p ih =>
    rw [PriorityFeeTracker.run_concat]
    exact ih.push p

/-- The slots a tracker of capacity `n` is meant to hold, in the order they were
    admitted, each with the log of its transactions. -/
abbrev Window (n : ℕ) := KeyedFifo Slot Txn n

/-- The tracker holds the slots of the window, in its queue, its set and its
    store, and under each slot the fee lists of its log. -/
structure Simulates {n : ℕ} (t : PriorityFeeTracker) (w : Window n) : Prop where
  capacity : t.slotCache.slotQueue.capacity = n
  queue : t.slotCache.slotQueue.elements = w.keys
  set : ∀ s, s ∈ t.slotCache.slotSet ↔ s ∈ w.keys
  store : ∀ s, t.priorityFees.lookup s = ofLog s (w.log s)

namespace Simulates

variable {n : ℕ} {t : PriorityFeeTracker} {w : Window n}

theorem new (n : ℕ) : Simulates (PriorityFeeTracker.new n) (.empty : Window n) where
  capacity := rfl
  queue := rfl
  set := by simp [PriorityFeeTracker.new, SlotCache.new, KeyedFifo.empty]
  store := fun _ => rfl

theorem mem_store_iff (h : Simulates t w) (s : Slot) : s ∈ t.priorityFees ↔ s ∈ w.keys := by
  rw [Table.mem_iff_lookup_ne_none, h.store, Ne, ofLog_eq_none_iff, w.log_eq_nil_iff, not_not]

theorem coherent (h : Simulates t w) (hn : 0 < n) : t.slotCache.Coherent where
  capacity_pos := h.capacity.symm ▸ hn
  nodup := h.queue.symm ▸ w.nodup
  length_le := by
    have := w.length_le
    rw [h.queue, h.capacity]
    omega
  mem_set_iff := fun s => by rw [h.set, h.queue]

/-- The cache of a simulating tracker drops the slot the window drops, and holds
    the slots of the window afterwards. -/
theorem lockedPushPop (h : Simulates t w) (hn : 0 < n) (slot : Slot) (x : Txn) :
    (t.slotCache.lockedPushPop slot).1 = (if slot ∈ w.keys then none else w.dropped) ∧
    (t.slotCache.lockedPushPop slot).2.slotQueue.capacity = n ∧
    (t.slotCache.lockedPushPop slot).2.slotQueue.elements = (w.record slot x).keys ∧
    ∀ s, s ∈ (t.slotCache.lockedPushPop slot).2.slotSet ↔ s ∈ (w.record slot x).keys := by
  have hcoh := (h.coherent hn).lockedPushPop slot
  have hmem := h.set slot
  have hcapn := h.capacity
  have hqueue := h.queue
  have hlen : t.slotCache.slotQueue.elements.length = w.keys.length := by rw [hqueue]
  suffices hq : (t.slotCache.lockedPushPop slot).1 = (if slot ∈ w.keys then none else w.dropped) ∧
      (t.slotCache.lockedPushPop slot).2.slotQueue.capacity = n ∧
      (t.slotCache.lockedPushPop slot).2.slotQueue.elements = (w.record slot x).keys by
    refine ⟨hq.1, hq.2.1, hq.2.2, fun s => ?_⟩
    rw [hcoh.mem_set_iff, hq.2.2]
  rcases (h.coherent hn).lockedPushPop_cases slot with ⟨hin, he⟩ |
    ⟨hout, c', he, hlt, hq, hcap, -⟩ | ⟨hout, oldest, rest, c', he, hfull, hcons, hq, hcap, -⟩
  · rw [hmem] at hin
    rw [he, if_pos hin, KeyedFifo.record_keys_of_mem hin]
    exact ⟨rfl, hcapn, hqueue⟩
  · rw [hmem] at hout
    have hroom : w.keys.length < n := by omega
    rw [he, if_neg hout, KeyedFifo.record_keys_of_notMem hout, KeyedFifo.kept, if_pos hroom,
      KeyedFifo.dropped, if_pos hroom]
    exact ⟨rfl, hcap.trans hcapn, by rw [hq, hqueue]⟩
  · rw [hmem] at hout
    have hfull' : ¬w.keys.length < n := by omega
    rw [hqueue] at hcons
    rw [he, if_neg hout, KeyedFifo.record_keys_of_notMem hout, KeyedFifo.kept, if_neg hfull',
      KeyedFifo.dropped, if_neg hfull', hcons]
    exact ⟨rfl, hcap.trans hcapn, hq⟩

/-- The store after a push holds the logs of the window after the record. -/
theorem store_push (h : Simulates t w) (hn : 0 < n) (p : Slot × Txn) (s : Slot) :
    (t.push p).priorityFees.lookup s = ofLog s ((w.record p.1 p.2).log s) := by
  rw [PriorityFeeTracker.lookup_push, SlotCache.pushPop_eq_lockedPushPop,
    (h.lockedPushPop hn p.1 p.2).1]
  by_cases hs : s = p.1
  · subst hs
    have hstay : ¬(if p.1 ∈ w.keys then none else w.dropped) = some p.1 := by
      split
      · simp
      · next hout => exact fun hd => hout (KeyedFifo.mem_keys_of_dropped hd)
    rw [if_neg hstay, if_pos rfl, KeyedFifo.record_log_self, ofLog_concat, h.store]
  · rw [if_neg hs, KeyedFifo.record_log_of_ne hs, h.store]
    by_cases hmem : p.1 ∈ w.keys
    · simp [hmem]
    · simp only [hmem, if_false, not_false_eq_true, true_and]
      split <;> simp

/-- One push is one record. -/
theorem push (h : Simulates t w) (hn : 0 < n) (p : Slot × Txn) :
    Simulates (t.push p) (w.record p.1 p.2) where
  capacity := by
    rw [PriorityFeeTracker.push_slotCache, SlotCache.pushPop_eq_lockedPushPop]
    exact (h.lockedPushPop hn p.1 p.2).2.1
  queue := by
    rw [PriorityFeeTracker.push_slotCache, SlotCache.pushPop_eq_lockedPushPop]
    exact (h.lockedPushPop hn p.1 p.2).2.2.1
  set := by
    rw [PriorityFeeTracker.push_slotCache, SlotCache.pushPop_eq_lockedPushPop]
    exact (h.lockedPushPop hn p.1 p.2).2.2.2
  store := h.store_push hn p

/-- After every sequence of pushes the tracker holds the window of that
    sequence. -/
theorem run (hn : 0 < n) (ps : List (Slot × Txn)) :
    Simulates (PriorityFeeTracker.run n ps) (KeyedFifo.run n ps) := by
  induction ps using List.reverseRecOn with
  | nil => exact Simulates.new n
  | append_singleton ps p ih =>
    rw [PriorityFeeTracker.run_concat, KeyedFifo.run_concat]
    exact ih.push hn p

end Simulates

end PriorityFeeEstimator
