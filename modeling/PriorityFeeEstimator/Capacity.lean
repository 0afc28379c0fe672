import Mathlib
import PriorityFeeEstimator.Recency

/-!
# The bound on the slots held

A tracker is made for a number of slots, which is read from the environment and
may be zero. For a positive number the set of the cache and the store hold no
more slots than that. A circular buffer of capacity zero hands every slot back at
once; `push_pop` removes what comes back from the set before it inserts the slot
pushed, which is the same one then, so that the slot stays. From there on the
slot counts as held, no later push returns it, and the store keeps it with the
second transaction pushed to it.
-/

namespace PriorityFeeEstimator

open PriorityFeeTracker

/-- With the capacity zero a slot that is not in the set enters it, and is
    returned as the one to remove. -/
theorem SlotCache.pushPop_of_capacity_zero {c : SlotCache} (h : c.slotQueue = .new 0)
    (slot : Slot) :
    c.pushPop slot =
      (if slot ∈ c.slotSet then none else some slot,
        { slotQueue := .new 0, slotSet := insert slot c.slotSet }) := by
  obtain ⟨queue, set⟩ := c
  obtain rfl : queue = .new 0 := h
  rw [pushPop_eq_lockedPushPop]
  by_cases hs : slot ∈ set
  · rw [lockedPushPop_of_mem hs, if_pos hs, Finset.insert_eq_of_mem hs]
  · have hs' : slot ∉ set := hs
    simp only [lockedPushPop, if_neg hs', CircularBuffer.add, CircularBuffer.new]
    simp only [List.length_nil, lt_irrefl, if_false, List.nil_append, List.head?_cons,
      List.tail_cons, Finset.erase_eq_of_notMem hs']

/-- A tracker of capacity zero after the pushes `ps`: its buffer is empty, its
    set holds every slot pushed to, and its store the slots pushed to twice. -/
structure NeverFull (t : PriorityFeeTracker) (ps : List (Slot × Txn)) : Prop where
  queue : t.slotCache.slotQueue = .new 0
  set : t.slotCache.slotSet = slotsPushed ps
  store : ∀ k, k ∈ t.priorityFees ↔ 2 ≤ (ps.map Prod.fst).count k

theorem NeverFull.push {t : PriorityFeeTracker} {ps : List (Slot × Txn)} (h : NeverFull t ps)
    (p : Slot × Txn) : NeverFull (t.push p) (ps ++ [p]) := by
  have hpop := SlotCache.pushPop_of_capacity_zero h.queue p.1
  have hin : p.1 ∈ t.slotCache.slotSet ↔ 1 ≤ (ps.map Prod.fst).count p.1 := by
    rw [h.set, slotsPushed, List.mem_toFinset, Nat.one_le_iff_ne_zero, Ne, List.count_eq_zero,
      not_not]
  refine ⟨?_, ?_, fun k => ?_⟩
  · rw [push_slotCache, hpop]
  · rw [push_slotCache, hpop, h.set, slotsPushed_concat]
  · rw [Table.mem_iff_lookup_ne_none, lookup_push, hpop, List.map_append, List.count_append]
    by_cases hk : k = p.1
    · subst hk
      have hone : List.count p.1 (List.map Prod.fst [p]) = 1 := by simp
      by_cases hmem : p.1 ∈ t.slotCache.slotSet
      · have := hin.mp hmem
        simp only [hmem, if_true, reduceCtorEq, if_false, ne_eq, not_false_eq_true, true_iff,
          hone]
        omega
      · have : ¬1 ≤ (ps.map Prod.fst).count p.1 := fun h1 => hmem (hin.mpr h1)
        simp only [hmem, if_false, if_true, ne_eq, not_true_eq_false, false_iff, hone]
        omega
    · have hzero : List.count k (List.map Prod.fst [p]) = 0 := by simp [Ne.symm hk]
      have hstay : ¬(if p.1 ∈ t.slotCache.slotSet then none else some p.1) = some k := by
        split
        · simp
        · simpa using Ne.symm hk
      rw [if_neg hstay, if_neg hk, ← Table.mem_iff_lookup_ne_none, h.store, hzero, Nat.add_zero]

/-- With the capacity zero the set grows with every slot pushed to, and the store
    with every slot pushed to again. -/
theorem neverFull_run (ps : List (Slot × Txn)) : NeverFull (run 0 ps) ps := by
  induction ps using List.reverseRecOn with
  | nil => exact ⟨rfl, rfl, fun k => by simp [PriorityFeeTracker.new]⟩
  | append_singleton ps p ih =>
    rw [run_concat]
    exact ih.push p

/-- The slots held, in the set of the cache and in the store, are no more than
    `n`. -/
def WithinCapacity (n : ℕ) (t : PriorityFeeTracker) : Prop :=
  t.slotCache.slotSet.card ≤ n ∧ t.priorityFees.keys.length ≤ n

theorem withinCapacity_run {n : ℕ} (hn : 1 ≤ n) (ps : List (Slot × Txn)) :
    WithinCapacity n (run n ps) := by
  have h := Simulates.run hn ps
  have hset : (run n ps).slotCache.slotSet = (run n ps).priorityFees.keys.toFinset := by
    ext s
    rw [List.mem_toFinset, h.set, ← h.mem_store_iff, AList.mem_keys]
  constructor
  · rw [hset]
    exact (List.toFinset_card_le _).trans (h.length_keys_le hn)
  · exact h.length_keys_le hn

/-- In every run the set of the cache and the store stay within the capacity
    after each push, exactly when the capacity is positive or nothing is
    pushed. -/
theorem slots_bounded_iff (n : ℕ) (ps : List (Slot × Txn)) :
    (∀ qs, qs <+: ps → WithinCapacity n (run n qs)) ↔ 1 ≤ n ∨ ps = [] := by
  constructor
  · intro h
    by_contra hneg
    obtain ⟨hn, hps⟩ := not_or.mp hneg
    obtain rfl : n = 0 := by omega
    have hcard := (h ps (List.prefix_refl ps)).1
    rw [(neverFull_run ps).set, Nat.le_zero, Finset.card_eq_zero, slotsPushed,
      List.toFinset_eq_empty_iff, List.map_eq_nil_iff] at hcard
    exact hps hcard
  · rintro (hn | rfl) qs hqs
    · exact withinCapacity_run hn qs
    · rw [List.prefix_nil.mp hqs]
      exact ⟨Nat.zero_le _, Nat.zero_le _⟩

/-- One push on a tracker of capacity zero: its slot stays in the set. -/
theorem slots_unbounded_zero :
    ¬ ∀ n, ∀ ps qs : List (Slot × Txn), qs <+: ps → WithinCapacity n (run n qs) := by
  intro h
  have hcard := (h 0 [(1, ⟨[], 7, false, .legacyV0⟩)] _ (List.prefix_refl _)).1
  exact absurd hcard (by decide)

end PriorityFeeEstimator
