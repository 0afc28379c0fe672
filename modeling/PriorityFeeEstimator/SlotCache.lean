import Mathlib
import PriorityFeeEstimator.Model

/-!
# The slot cache

`SlotCache` decides which slots the store keeps. It holds the slots in a
circular buffer, in the order they were first pushed, and again in a set for
the membership test. `push_pop` tests membership twice, the second time under
the write lock of the buffer; the part under the lock is `lockedPushPop`.
-/

namespace PriorityFeeEstimator

/-- The circular buffer of the `queues` crate. -/
structure CircularBuffer where
  elements : List Slot
  capacity : ℕ

namespace CircularBuffer

def new (capacity : ℕ) : CircularBuffer := ⟨[], capacity⟩

/-- Append a value. A buffer that held `capacity` values before removes its
    front and returns it. No addition to a circular buffer fails. -/
def add (b : CircularBuffer) (val : Slot) : Except String (Option Slot × CircularBuffer) :=
  let elements := b.elements ++ [val]
  if b.elements.length < b.capacity then .ok (none, { b with elements := elements })
  else .ok (elements.head?, { b with elements := elements.tail })

end CircularBuffer

structure SlotCache where
  slotQueue : CircularBuffer
  slotSet : Finset Slot

namespace SlotCache

def new (slotCacheLength : ℕ) : SlotCache := ⟨.new slotCacheLength, ∅⟩

/-- The section of `push_pop` that runs under the write lock of the buffer. -/
def lockedPushPop (c : SlotCache) (slot : Slot) : Option Slot × SlotCache :=
  if slot ∈ c.slotSet then (none, c)
  else
    match c.slotQueue.add slot with
    | .ok (maybeOldestSlot, slotQueue) =>
      let slotSet :=
        match maybeOldestSlot with
        | some oldestSlot => c.slotSet.erase oldestSlot
        | none => c.slotSet
      (maybeOldestSlot, { slotQueue := slotQueue, slotSet := insert slot slotSet })
    | .error _ => (none, c)

/-- Let `slot` enter the cache, and return the slot that has to go for it. -/
def pushPop (c : SlotCache) (slot : Slot) : Option Slot × SlotCache :=
  if slot ∈ c.slotSet then (none, c) else c.lockedPushPop slot

/-- A cache of positive capacity whose buffer and set agree. -/
structure Coherent (c : SlotCache) : Prop where
  capacity_pos : 0 < c.slotQueue.capacity
  nodup : c.slotQueue.elements.Nodup
  length_le : c.slotQueue.elements.length ≤ c.slotQueue.capacity
  mem_set_iff : ∀ s, s ∈ c.slotSet ↔ s ∈ c.slotQueue.elements

/-- The second membership test of `push_pop` never changes the outcome of calls
    made one after another. -/
theorem pushPop_eq_lockedPushPop (c : SlotCache) (slot : Slot) :
    c.pushPop slot = c.lockedPushPop slot := by
  unfold pushPop
  split
  · next h => simp [lockedPushPop, h]
  · rfl

theorem lockedPushPop_of_mem {c : SlotCache} {slot : Slot} (h : slot ∈ c.slotSet) :
    c.lockedPushPop slot = (none, c) := by
  simp [lockedPushPop, h]

/-- A new slot and a buffer with room: nothing has to go. -/
theorem lockedPushPop_of_lt {c : SlotCache} {slot : Slot} (h : slot ∉ c.slotSet)
    (hlt : c.slotQueue.elements.length < c.slotQueue.capacity) :
    c.lockedPushPop slot =
      (none, { slotQueue := { c.slotQueue with elements := c.slotQueue.elements ++ [slot] }
               slotSet := insert slot c.slotSet }) := by
  simp [lockedPushPop, h, CircularBuffer.add, hlt]

/-- A new slot and a full buffer: the front goes. -/
theorem lockedPushPop_of_full {c : SlotCache} {slot oldest : Slot} {rest : List Slot}
    (h : slot ∉ c.slotSet) (he : c.slotQueue.elements = oldest :: rest)
    (hle : c.slotQueue.capacity ≤ c.slotQueue.elements.length) :
    c.lockedPushPop slot =
      (some oldest, { slotQueue := { c.slotQueue with elements := rest ++ [slot] }
                      slotSet := insert slot (c.slotSet.erase oldest) }) := by
  have hlt : ¬(oldest :: rest).length < c.slotQueue.capacity := by rw [← he]; omega
  simp only [lockedPushPop, h, if_false, CircularBuffer.add, he, if_neg hlt]
  rfl

theorem Coherent.new {n : ℕ} (hn : 0 < n) : (SlotCache.new n).Coherent where
  capacity_pos := hn
  nodup := List.nodup_nil
  length_le := Nat.zero_le _
  mem_set_iff := by simp [SlotCache.new, CircularBuffer.new]

/-- What the locked section can do to a coherent cache: nothing, for a slot it
    holds; otherwise let the slot enter, alone or against the front. -/
theorem Coherent.lockedPushPop_cases {c : SlotCache} (hc : c.Coherent) (slot : Slot) :
    (slot ∈ c.slotSet ∧ c.lockedPushPop slot = (none, c)) ∨
    (slot ∉ c.slotSet ∧ ∃ c', c.lockedPushPop slot = (none, c') ∧
      c.slotQueue.elements.length < c.slotQueue.capacity ∧
      c'.slotQueue.elements = c.slotQueue.elements ++ [slot] ∧
      c'.slotQueue.capacity = c.slotQueue.capacity ∧ c'.slotSet = insert slot c.slotSet) ∨
    (slot ∉ c.slotSet ∧ ∃ oldest rest c', c.lockedPushPop slot = (some oldest, c') ∧
      c.slotQueue.elements.length = c.slotQueue.capacity ∧
      c.slotQueue.elements = oldest :: rest ∧ c'.slotQueue.elements = rest ++ [slot] ∧
      c'.slotQueue.capacity = c.slotQueue.capacity ∧
      c'.slotSet = insert slot (c.slotSet.erase oldest)) := by
  by_cases hmem : slot ∈ c.slotSet
  · exact .inl ⟨hmem, lockedPushPop_of_mem hmem⟩
  · by_cases hlt : c.slotQueue.elements.length < c.slotQueue.capacity
    · exact .inr (.inl ⟨hmem, _, lockedPushPop_of_lt hmem hlt, hlt, rfl, rfl, rfl⟩)
    · have hpos := hc.capacity_pos
      have hle := hc.length_le
      obtain ⟨oldest, rest, he⟩ := List.exists_cons_of_ne_nil
        (List.length_pos_iff.mp (by omega : 0 < c.slotQueue.elements.length))
      exact .inr (.inr ⟨hmem, oldest, rest, _, lockedPushPop_of_full hmem he (not_lt.mp hlt),
        by omega, he, rfl, rfl, rfl⟩)

/-- The locked section keeps a cache coherent. -/
theorem Coherent.lockedPushPop {c : SlotCache} (hc : c.Coherent) (slot : Slot) :
    (c.lockedPushPop slot).2.Coherent := by
  have hset := hc.mem_set_iff
  rcases hc.lockedPushPop_cases slot with ⟨-, he⟩ | ⟨hmem, c', he, hlt, hq, hcap, hs⟩ |
    ⟨hmem, oldest, rest, c', he, hlen, hcons, hq, hcap, hs⟩
  · rw [he]; exact hc
  · rw [he]
    refine ⟨hcap ▸ hc.capacity_pos, ?_, ?_, ?_⟩
    · rw [hq, List.nodup_append]
      refine ⟨hc.nodup, List.nodup_singleton _, ?_⟩
      rintro x hx y hy rfl
      exact hmem ((hset _).mpr (by rwa [List.mem_singleton.mp hy] at hx))
    · simp only [hq, hcap, List.length_append, List.length_singleton]; omega
    · intro s
      simp only [hs, hq, Finset.mem_insert, hset, List.mem_append, List.mem_singleton]
      exact or_comm
  · rw [he]
    have hnd := hc.nodup
    rw [hcons, List.nodup_cons] at hnd
    refine ⟨hcap ▸ hc.capacity_pos, ?_, ?_, ?_⟩
    · rw [hq, List.nodup_append]
      refine ⟨hnd.2, List.nodup_singleton _, ?_⟩
      rintro x hx y hy rfl
      refine hmem ((hset _).mpr ?_)
      rw [hcons, ← List.mem_singleton.mp hy]
      exact List.mem_cons_of_mem _ hx
    · rw [hcons, List.length_cons] at hlen
      simp only [hq, hcap, List.length_append, List.length_singleton]; omega
    · intro s
      simp only [hs, hq, Finset.mem_insert, Finset.mem_erase, hset, hcons, List.mem_cons,
        List.mem_append]
      by_cases hso : s = oldest
      · subst hso; simp [hnd.1]
      · simp [hso, or_comm]

/-- A slot that enters a coherent cache is in it afterwards. -/
theorem Coherent.mem_lockedPushPop {c : SlotCache} (hc : c.Coherent) (slot : Slot) :
    slot ∈ (c.lockedPushPop slot).2.slotSet := by
  rcases hc.lockedPushPop_cases slot with ⟨hmem, he⟩ | ⟨-, c', he, -, -, -, hs⟩ |
    ⟨-, oldest, rest, c', he, -, -, -, -, hs⟩
  · rw [he]
    exact hmem
  · rw [he, hs]
    exact Finset.mem_insert_self _ _
  · rw [he, hs]
    exact Finset.mem_insert_self _ _

/-- What leaves a coherent cache was in it, is not the slot that entered, and is
    not in it afterwards. -/
theorem Coherent.of_lockedPushPop_some {c : SlotCache} (hc : c.Coherent) {slot oldest : Slot}
    (h : (c.lockedPushPop slot).1 = some oldest) :
    oldest ∈ c.slotSet ∧ oldest ≠ slot ∧ slot ∉ c.slotSet ∧
      oldest ∉ (c.lockedPushPop slot).2.slotSet := by
  have hset := hc.mem_set_iff
  rcases hc.lockedPushPop_cases slot with ⟨-, he⟩ | ⟨-, c', he, -⟩ |
    ⟨hmem, oldest', rest, c', he, -, hcons, -, -, hs⟩
  · rw [he] at h; cases h
  · rw [he] at h; cases h
  · rw [he] at h ⊢
    obtain rfl : oldest' = oldest := by simpa using h
    have hin : oldest' ∈ c.slotSet := (hset _).mpr (by simp [hcons])
    have hne : oldest' ≠ slot := fun e => hmem (e ▸ hin)
    exact ⟨hin, hne, hmem, by simp [hs, hne]⟩

/-- A coherent cache whose slots, with the new one, are no more than its capacity
    lets the slot enter against none. -/
theorem Coherent.lockedPushPop_eq_none {c : SlotCache} (hc : c.Coherent) {slot : Slot}
    (h : (insert slot c.slotSet).card ≤ c.slotQueue.capacity) :
    (c.lockedPushPop slot).1 = none := by
  rcases hc.lockedPushPop_cases slot with ⟨-, he⟩ | ⟨-, c', he, -⟩ |
    ⟨hmem, oldest, rest, c', he, hlen, -⟩
  · rw [he]
  · rw [he]
  · have hset : c.slotSet = c.slotQueue.elements.toFinset := by
      ext s
      rw [List.mem_toFinset, hc.mem_set_iff]
    rw [Finset.card_insert_of_notMem hmem, hset, List.toFinset_card_of_nodup hc.nodup] at h
    omega

/-- No slot leaves the cache for itself. -/
theorem Coherent.pushPop_ne {c : SlotCache} (hc : c.Coherent) (slot : Slot) :
    (c.pushPop slot).1 ≠ some slot := by
  intro hpop
  rw [pushPop_eq_lockedPushPop] at hpop
  exact (hc.of_lockedPushPop_some hpop).2.1 rfl

end SlotCache

end PriorityFeeEstimator
