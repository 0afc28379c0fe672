import Mathlib
import PriorityFeeEstimator.WindowEstimates

/-!
# Which slots are held

The cache evicts in the order of admission, the calculations look back in the
order of slot numbers. The slots held are the last ones admitted. They are the
numerically highest ones pushed so far as long as every eviction removes a slot
below the one that arrives and below all that stay, which is the case when slots
arrive in order.
-/

namespace PriorityFeeEstimator

/-- The slots in the store after the pushes `ps`. -/
def heldSlots (n : ℕ) (ps : List (Slot × Txn)) : Finset Slot :=
  (PriorityFeeTracker.run n ps).priorityFees.keys.toFinset

/-- The slots pushed so far. -/
def slotsPushed (ps : List (Slot × Txn)) : Finset Slot := (ps.map Prod.fst).toFinset

/-- If the arrival of `slot` evicts a slot, that slot is below `slot` and below
    every slot that stays. -/
def EvictionOk {n : ℕ} (w : Window n) (slot : Slot) : Prop :=
  slot ∉ w.keys → ∀ d, w.dropped = some d → d < slot ∧ ∀ k ∈ w.kept, d < k

/-- Every eviction in the course of `ps` removes the lowest slot. -/
def EvictsLowest (n : ℕ) (ps : List (Slot × Txn)) : Prop :=
  ∀ qs p, qs ++ [p] <+: ps → EvictionOk (KeyedFifo.run n qs : Window n) p.1

theorem heldSlots_eq {n : ℕ} (hn : 1 ≤ n) (ps : List (Slot × Txn)) :
    heldSlots n ps = (KeyedFifo.run n ps : Window n).keys.toFinset :=
  List.toFinset_eq_of_perm _ _ (Simulates.run hn ps).keys_perm

theorem slotsPushed_concat (ps : List (Slot × Txn)) (p : Slot × Txn) :
    slotsPushed (ps ++ [p]) = insert p.1 (slotsPushed ps) := by
  ext s
  simp [slotsPushed]

theorem mem_slotsPushed_of_mem_keys {n : ℕ} {ps : List (Slot × Txn)} {s : Slot}
    (h : s ∈ (KeyedFifo.run n ps : Window n).keys) : s ∈ slotsPushed ps := by
  have hlog : (KeyedFifo.run n ps : Window n).log s ≠ [] := fun he =>
    ((KeyedFifo.log_eq_nil_iff _ s).mp he) h
  obtain ⟨x, hx⟩ := List.exists_mem_of_ne_nil _ hlog
  rw [slotsPushed, List.mem_toFinset]
  exact List.mem_map_of_mem (mem_of_mem_run_log hx)

/-- A push of a new slot to a full window of the highest slots. -/
theorem holdsHighest_step_of_full {n : ℕ} {w : Window n} {pushed : Finset Slot}
    (hw : w.keys.toFinset = highest n pushed) (hfull : w.keys.length = n) {d : Slot}
    {rest : List Slot} (hcons : w.keys = d :: rest) {slot : Slot} (hmem : slot ∉ w.keys) :
    (w.kept ++ [slot]).toFinset = highest n (insert slot pushed) ↔ EvictionOk w slot := by
  have hkept : w.kept = rest := by rw [KeyedFifo.kept, if_neg hfull.not_lt, hcons]; rfl
  have hdrop : w.dropped = some d := by rw [KeyedFifo.dropped, if_neg hfull.not_lt, hcons]; rfl
  have hnd := w.nodup
  rw [hcons, List.nodup_cons] at hnd
  rw [hcons] at hmem
  have hslot : slot ∉ rest := fun h => hmem (List.mem_cons_of_mem d h)
  have hne : d ≠ slot := fun h => hmem (h ▸ List.mem_cons_self)
  -- the slots that can be held next are those held now and the new one
  have hset : insert slot (highest n pushed) = insert d (rest ++ [slot]).toFinset := by
    rw [← hw, hcons]
    ext s
    simp only [Finset.mem_insert, List.mem_toFinset, List.mem_cons, List.mem_append,
      List.not_mem_nil, or_false]
    tauto
  have hd : d ∉ (rest ++ [slot]).toFinset := by simp [hnd.1, hne]
  have hk : (rest ++ [slot]).toFinset.card = n := by
    rw [List.toFinset_card_of_nodup (by
      rw [List.nodup_append]
      exact ⟨hnd.2, List.nodup_singleton _, by
        rintro a ha b hb rfl
        exact hslot (List.mem_singleton.mp hb ▸ ha)⟩)]
    rw [hcons, List.length_cons] at hfull
    rw [List.length_append, List.length_singleton, hfull]
  rw [hkept, highest_insert, hset, eq_comm, highest_insert_eq_iff hd hk]
  constructor
  · intro h _ e he
    obtain rfl : d = e := by rw [hdrop] at he; exact Option.some.inj he
    exact ⟨h slot (by simp), fun k hk => h k (by rw [hkept] at hk; simp [hk])⟩
  · intro h s hs
    obtain ⟨hslot', hrest⟩ := h (by rw [hcons]; exact hmem) d hdrop
    rw [List.mem_toFinset, List.mem_append, List.mem_singleton] at hs
    rcases hs with hs | rfl
    · exact hrest s (hkept.symm ▸ hs)
    · exact hslot'

/-- One push on a window of the highest slots: they are held again exactly when
    the eviction, if there is one, removes the lowest slot. -/
theorem holdsHighest_step {n : ℕ} {w : Window n} (hn : 1 ≤ n) {pushed : Finset Slot}
    (hw : w.keys.toFinset = highest n pushed) (hsub : ∀ s ∈ w.keys, s ∈ pushed)
    (slot : Slot) (x : Txn) :
    (w.record slot x).keys.toFinset = highest n (insert slot pushed) ↔ EvictionOk w slot := by
  have hcard : w.keys.length = min n pushed.card := by
    rw [← List.toFinset_card_of_nodup w.nodup, hw, card_highest]
  by_cases hmem : slot ∈ w.keys
  · rw [KeyedFifo.record_keys_of_mem hmem, Finset.insert_eq_of_mem (hsub slot hmem)]
    exact ⟨fun _ h => absurd hmem h, fun _ => hw⟩
  · rw [KeyedFifo.record_keys_of_notMem hmem]
    by_cases hroom : w.keys.length < n
    · -- a window with room holds every slot pushed so far
      have hall : w.keys.toFinset = pushed := by
        rw [hw, highest_eq_self_of_card_le (by omega)]
      have hle : (insert slot pushed).card ≤ n :=
        (Finset.card_insert_le slot pushed).trans (by omega)
      have hdrop : w.dropped = none := if_pos hroom
      rw [highest_eq_self_of_card_le hle, ← hall, KeyedFifo.kept, if_pos hroom]
      refine iff_of_true ?_ fun _ d hd => by rw [hdrop] at hd; cases hd
      ext s
      simp
    · have hfull : w.keys.length = n := le_antisymm (by omega) (not_lt.mp hroom)
      obtain ⟨d, rest, hcons⟩ := List.exists_cons_of_ne_nil
        (List.length_pos_iff.mp (by omega : 0 < w.keys.length))
      exact holdsHighest_step_of_full hw hfull hcons hmem

theorem evictsLowest_concat {n : ℕ} {ps : List (Slot × Txn)} {p : Slot × Txn} :
    EvictsLowest n (ps ++ [p]) ↔
      EvictsLowest n ps ∧ EvictionOk (KeyedFifo.run n ps : Window n) p.1 := by
  constructor
  · intro h
    exact ⟨fun qs q hq => h qs q (hq.trans (List.prefix_append ps [p])),
      h ps p (List.prefix_refl _)⟩
  · rintro ⟨h, hp⟩ qs q hq
    rcases List.prefix_concat_iff.mp hq with he | hq
    · obtain ⟨rfl, rfl⟩ := List.append_inj' he rfl |>.imp id List.singleton_inj.mp
      exact hp
    · exact h qs q hq

/-- The window consists of the highest slots pushed so far after every push
    exactly when every eviction removes the lowest slot. -/
theorem holdsHighest_iff_evictsLowest {n : ℕ} (hn : 1 ≤ n) (ps : List (Slot × Txn)) :
    (∀ qs, qs <+: ps → heldSlots n qs = highest n (slotsPushed qs)) ↔ EvictsLowest n ps := by
  induction ps using List.reverseRecOn with
  | nil =>
    refine iff_of_true (fun qs hqs => ?_) fun qs p hp => by simp at hp
    rw [List.prefix_nil.mp hqs]
    rfl
  | append_singleton ps p ih =>
    have hstep : heldSlots n ps = highest n (slotsPushed ps) →
        (heldSlots n (ps ++ [p]) = highest n (slotsPushed (ps ++ [p])) ↔
          EvictionOk (KeyedFifo.run n ps : Window n) p.1) := by
      intro hps
      rw [heldSlots_eq hn] at hps ⊢
      rw [KeyedFifo.run_concat, slotsPushed_concat]
      exact holdsHighest_step hn hps (fun s hs => mem_slotsPushed_of_mem_keys hs) p.1 p.2
    rw [evictsLowest_concat, ← ih]
    constructor
    · intro h
      have hps : ∀ qs, qs <+: ps → heldSlots n qs = highest n (slotsPushed qs) :=
        fun qs hqs => h qs (hqs.trans (List.prefix_append ps [p]))
      exact ⟨hps, (hstep (hps ps (List.prefix_refl _))).mp (h _ (List.prefix_refl _))⟩
    · rintro ⟨hps, hok⟩ qs hqs
      rcases List.prefix_concat_iff.mp hqs with rfl | hqs
      · exact (hstep (hps ps (List.prefix_refl _))).mpr hok
      · exact hps qs hqs

/-- Slots that arrive in order are evicted from the lowest on. -/
theorem evictsLowest_of_sorted {n : ℕ} {ps : List (Slot × Txn)}
    (h : (ps.map Prod.fst).Pairwise (· ≤ ·)) : EvictsLowest n ps := by
  -- the keys held rise strictly, and no push so far was below them
  suffices hs : (KeyedFifo.run n ps : Window n).keys.Pairwise (· < ·) ∧ EvictsLowest n ps from
    hs.2
  induction ps using List.reverseRecOn with
  | nil => exact ⟨List.Pairwise.nil, fun qs p hp => by simp at hp⟩
  | append_singleton ps p ih =>
    rw [List.map_append, List.pairwise_append] at h
    obtain ⟨hkeys, hlow⟩ := ih h.1
    have hle : ∀ k ∈ (KeyedFifo.run n ps : Window n).keys, k ≤ p.1 := fun k hk =>
      h.2.2 k (List.mem_toFinset.mp (mem_slotsPushed_of_mem_keys hk)) p.1 (by simp)
    rw [evictsLowest_concat, KeyedFifo.run_concat]
    generalize (KeyedFifo.run n ps : Window n) = w at hkeys hle ⊢
    by_cases hmem : p.1 ∈ w.keys
    · rw [KeyedFifo.record_keys_of_mem hmem]
      exact ⟨hkeys, hlow, fun hout => absurd hmem hout⟩
    · have hlt : ∀ k ∈ w.keys, k < p.1 := fun k hk =>
        lt_of_le_of_ne (hle k hk) fun he => hmem (he ▸ hk)
      rw [KeyedFifo.record_keys_of_notMem hmem]
      refine ⟨?_, hlow, fun _ d hd => ⟨hlt d (KeyedFifo.mem_keys_of_dropped hd), ?_⟩⟩
      · rw [List.pairwise_append]
        exact ⟨hkeys.sublist w.kept_sublist, List.pairwise_singleton _ _, fun k hk q hq =>
          (List.mem_singleton.mp hq) ▸ hlt k (w.kept_sublist.subset hk)⟩
      · intro k hk
        rw [w.keys_eq_dropped_append_kept, hd, List.pairwise_append] at hkeys
        exact hkeys.2.2 d (by simp) k hk

/-- The slots held after any pushes are the last ones admitted, and an estimate
    draws on the highest of them. These are the highest slots pushed so far, all
    along, exactly when every eviction removes the lowest slot; then a lookback
    of at most `n` draws on the highest slots ever pushed. -/
theorem slots_held {n : ℕ} (hn : 1 ≤ n) (ps : List (Slot × Txn)) (o : IterOrder Slot) :
    let m := (PriorityFeeTracker.run n ps).priorityFees
    heldSlots n ps = ((KeyedFifo.admitted n ps).rtake n).toFinset ∧
    (∀ lookback, (lookbackSlots o lookback m).toFinset =
      highest ((lookback.map UInt32.toNat).getD m.keys.length) (heldSlots n ps)) ∧
    ((∀ qs, qs <+: ps → heldSlots n qs = highest n (slotsPushed qs)) ↔ EvictsLowest n ps) ∧
    (EvictsLowest n ps → ∀ L : UInt32, 1 ≤ L.toNat → L.toNat ≤ n →
      (lookbackSlots o (some L) m).toFinset = highest L.toNat (slotsPushed ps)) := by
  intro m
  have hlook : ∀ lookback, (lookbackSlots o lookback m).toFinset =
      highest ((lookback.map UInt32.toNat).getD m.keys.length) (heldSlots n ps) :=
    fun lookback => toFinset_lookbackSlots (stored_run n ps).wellKeyed o lookback
  refine ⟨?_, hlook, holdsHighest_iff_evictsLowest hn ps, fun hlow L _ hL => ?_⟩
  · rw [heldSlots_eq hn, KeyedFifo.run_keys_eq_rtake_admitted (by omega)]
  · have hall := (holdsHighest_iff_evictsLowest hn ps).mpr hlow ps (List.prefix_refl _)
    rw [hlook, hall, Option.map_some, Option.getD_some, highest_highest hL]

/-- Slot 3, pushed last and lower than slot 5, takes its place in a window of
    one. -/
theorem slots_held_late_slot :
    ¬ ∀ n, 1 ≤ n → ∀ ps : List (Slot × Txn), heldSlots n ps = highest n (slotsPushed ps) := by
  intro h
  have h1 := h 1 le_rfl [(5, ⟨[], 100, false, .legacyV0⟩), (3, ⟨[], 100, false, .legacyV0⟩)]
  exact absurd h1 (by decide +kernel)

/-- Slots 3, 5 and 7 in order, with a window of two: a lookback of one draws on
    slot 7. -/
theorem slots_held_in_order :
    (lookbackSlots (IterOrder.stored Slot) (some 1) (PriorityFeeTracker.run 2
      [(3, ⟨[], 100, false, .legacyV0⟩), (5, ⟨[], 100, false, .legacyV0⟩),
        (7, ⟨[], 100, false, .v1⟩)]).priorityFees).toFinset = {7} := by
  have h := slots_held (n := 2) (by decide)
    [(3, ⟨[], 100, false, .legacyV0⟩), (5, ⟨[], 100, false, .legacyV0⟩),
      (7, ⟨[], 100, false, .v1⟩)] (IterOrder.stored Slot)
  exact (h.2.2.2 (evictsLowest_of_sorted (by decide)) 1 (by decide) (by decide)).trans
    (by decide +kernel)

end PriorityFeeEstimator
