import Mathlib
import PriorityFeeEstimator.Samples
import PriorityFeeEstimator.Tracker

/-!
# Estimates of the window

What Calculation 2 returns after any sequence of pushes, in terms of the window:
the samples are the fees of the transactions logged for the highest slots held.
-/

namespace PriorityFeeEstimator

open SlotPriorityFees

/-- The transactions a request counts: votes only when votes are included. -/
def countedTxns (includeVote : Bool) (l : List Txn) : List Txn :=
  l.filter fun t => includeVote || !t.isVote

/-- The fees of a list of transactions, without their order. -/
def feesOf (l : List Txn) : Multiset ℚ := (l.map Txn.fee : List ℚ)

theorem coe_counted_ofTxns (includeVote : Bool) (l : List Txn) :
    ((Fees.ofTxns l).counted includeVote : Multiset ℚ) = feesOf (countedTxns includeVote l) :=
  Multiset.coe_eq_coe.mpr (Fees.counted_ofTxns_perm includeVote l)

theorem Stored.wellKeyed {m : PriorityFeesBySlot} (h : Stored m) : WellKeyed m := by
  intro s v hv
  obtain ⟨l, hl⟩ := h s v hv
  exact (logged_of_ofLog hl).slot_eq

/-- The Global part of a slot, read off its log. An absent slot has an empty log
    and contributes nothing. -/
theorem elim_globalPart_ofLog (slot : Slot) (l : List Txn) (includeVote : Bool) :
    (ofLog slot l).elim [] (·.globalPart includeVote) = (Fees.ofTxns l).counted includeVote := by
  cases h : ofLog slot l with
  | none =>
    obtain rfl := ofLog_eq_none_iff.mp h
    cases includeVote <;> rfl
  | some s =>
    rw [Option.elim_some, globalPart, (logged_of_ofLog h).fees_eq]

/-- The part of an account in a slot, read off the log of the slot. -/
theorem elim_accountPart_ofLog (slot : Slot) (l : List Txn) (includeVote : Bool) (a : Pubkey) :
    (ofLog slot l).elim [] (·.accountPart includeVote false a) =
      (Fees.ofTxns (accountLog a l)).counted includeVote := by
  cases h : ofLog slot l with
  | none =>
    obtain rfl := ofLog_eq_none_iff.mp h
    cases includeVote <;> rfl
  | some s =>
    rw [Option.elim_some, accountPart, (logged_of_ofLog h).lookup_account a]
    by_cases he : accountLog a l = []
    · rw [he]
      cases includeVote <;> rfl
    · rw [Fees.recorded_of_ne_nil he]

/-- A sample put together from the slots visited is the sum of its parts over
    the set of these slots. -/
theorem coe_flatMap_lookbackValues {m : PriorityFeesBySlot} (h : WellKeyed m) (o : IterOrder Slot)
    (lookback : Option UInt32) (part : SlotPriorityFees → List ℚ) :
    (((lookbackValues o lookback m).flatMap part : List ℚ) : Multiset ℚ) =
      ∑ s ∈ (lookbackSlots o lookback m).toFinset, ↑((m.lookup s).elim [] part) := by
  rw [List.sum_toFinset _ (lookbackSlots_nodup h o lookback), lookbackValues]
  induction lookbackSlots o lookback m with
  | nil => rfl
  | cons s slots ih =>
    rw [List.map_cons, List.sum_cons, ← ih]
    cases hs : m.lookup s <;> simp [hs]

/-- The slots of the window a request draws on: the highest ones, as many as its
    lookback asks for. -/
def pickedSlots {n : ℕ} (w : Window n) (lookback : Option UInt32) : Finset Slot :=
  highest ((lookback.map UInt32.toNat).getD w.keys.length) w.keys.toFinset

theorem card_pickedSlots {n : ℕ} (w : Window n) (lookback : Option UInt32) :
    (pickedSlots w lookback).card =
      min ((lookback.map UInt32.toNat).getD w.keys.length) w.keys.length := by
  rw [pickedSlots, card_highest, List.toFinset_card_of_nodup w.nodup]

namespace Simulates

variable {n : ℕ} {t : PriorityFeeTracker} {w : Window n}

theorem stored (h : Simulates t w) : Stored t.priorityFees :=
  fun s _ hv => ⟨w.log s, (h.store s).symm.trans hv⟩

theorem keys_perm (h : Simulates t w) : t.priorityFees.keys.Perm w.keys :=
  (List.perm_ext_iff_of_nodup t.priorityFees.keys_nodup w.nodup).mpr fun s => by
    rw [← AList.mem_keys]
    exact h.mem_store_iff s

/-- The store holds no more slots than the window has room for. -/
theorem length_keys_le (h : Simulates t w) (hn : 0 < n) : t.priorityFees.keys.length ≤ n := by
  have := w.length_le
  rw [h.keys_perm.length_eq]
  omega

theorem toFinset_lookbackSlots (h : Simulates t w) (o : IterOrder Slot)
    (lookback : Option UInt32) :
    (lookbackSlots o lookback t.priorityFees).toFinset = pickedSlots w lookback := by
  rw [PriorityFeeEstimator.toFinset_lookbackSlots h.stored.wellKeyed, h.keys_perm.length_eq,
    List.toFinset_eq_of_perm _ _ h.keys_perm]
  rfl

/-- Every slot visited is found. -/
theorem lookbackValues_eq_nil_iff (h : Simulates t w) (o : IterOrder Slot)
    (lookback : Option UInt32) :
    lookbackValues o lookback t.priorityFees = [] ↔ pickedSlots w lookback = ∅ := by
  rw [← h.toFinset_lookbackSlots o, List.toFinset_eq_empty_iff, lookbackValues]
  constructor
  · intro hnil
    refine List.eq_nil_iff_forall_not_mem.mpr fun s hs => ?_
    obtain ⟨v, hv⟩ := exists_lookup_of_mem_lookbackSlots h.stored.wellKeyed hs
    rw [List.filterMap_eq_nil_iff] at hnil
    exact absurd (hnil s hs) (by simp [hv])
  · intro hnil
    rw [hnil]
    rfl

/-- The Global sample holds the counted transactions of the picked slots. -/
theorem sample_global (h : Simulates t w) (o : IterOrder Slot) (accounts : List Pubkey)
    (includeVote includeEmptySlots : Bool) (lookback : Option UInt32) :
    (((V2.getPriorityFeeEstimates o accounts includeVote includeEmptySlots lookback
        t.priorityFees).sample .global : List ℚ) : Multiset ℚ) =
      ∑ s ∈ pickedSlots w lookback, feesOf (countedTxns includeVote (w.log s)) := by
  rw [V2.getPriorityFeeEstimates_eq, V2.sample_global,
    coe_flatMap_lookbackValues h.stored.wellKeyed, h.toFinset_lookbackSlots]
  refine Finset.sum_congr rfl fun s _ => ?_
  rw [h.store, elim_globalPart_ofLog, coe_counted_ofTxns]

/-- The sample of an account requested once holds the counted transactions
    recorded under it in the picked slots. -/
theorem sample_account (h : Simulates t w) (o : IterOrder Slot) {accounts : List Pubkey}
    {a : Pubkey} (ha : accounts.count a = 1) (includeVote : Bool) (lookback : Option UInt32) :
    (((V2.getPriorityFeeEstimates o accounts includeVote false lookback
        t.priorityFees).sample (.account a) : List ℚ) : Multiset ℚ) =
      ∑ s ∈ pickedSlots w lookback,
        feesOf (countedTxns includeVote (accountLog a (w.log s))) := by
  rw [V2.getPriorityFeeEstimates_eq, V2.sample_account_of_count_eq_one _ ha,
    coe_flatMap_lookbackValues h.stored.wellKeyed, h.toFinset_lookbackSlots]
  refine Finset.sum_congr rfl fun s _ => ?_
  rw [h.store, elim_accountPart_ofLog, coe_counted_ofTxns]

theorem mem_estimates_iff (h : Simulates t w) (o : IterOrder Slot) (accounts : List Pubkey)
    (includeVote includeEmptySlots : Bool) (lookback : Option UInt32) (d : DataType) :
    d ∈ V2.getPriorityFeeEstimates o accounts includeVote includeEmptySlots lookback
        t.priorityFees ↔
      (pickedSlots w lookback).Nonempty ∧ (d = .global ∨ ∃ a ∈ accounts, d = .account a) := by
  rw [V2.getPriorityFeeEstimates_eq, V2.mem_visits_iff, Ne, h.lookbackValues_eq_nil_iff o,
    Finset.nonempty_iff_ne_empty]

end Simulates

/-- Every transaction in a log of the window was pushed. -/
theorem mem_of_mem_run_log {n : ℕ} {ps : List (Slot × Txn)} {s : Slot} {x : Txn}
    (h : x ∈ (KeyedFifo.run n ps).log s) : (s, x) ∈ ps := by
  induction ps using List.reverseRecOn with
  | nil => cases h
  | append_singleton ps p ih =>
    rw [KeyedFifo.run_concat] at h
    by_cases hs : s = p.1
    · subst hs
      rw [KeyedFifo.record_log_self, List.mem_append, List.mem_singleton] at h
      rcases h with h | rfl
      · exact List.mem_append_left _ (ih h)
      · simp
    · rw [KeyedFifo.record_log_of_ne hs] at h
      split at h
      · cases h
      · exact List.mem_append_left _ (ih h)

/-- After any sequence of pushes without repeated accounts the store holds the
    slots of the window, and Calculation 2 without zero fill returns the fees of
    the transactions logged for the highest of them: all that count under
    Global, and those that touch an account under the account. -/
theorem estimates_of_run {n : ℕ} (hn : 1 ≤ n) (ps : List (Slot × Txn))
    (hps : ∀ p ∈ ps, p.2.accounts.Nodup) (o : IterOrder Slot) (accounts : List Pubkey)
    (haccounts : accounts.Nodup) (includeVote : Bool) (lookback : Option UInt32) :
    let m := (PriorityFeeTracker.run n ps).priorityFees
    let w : Window n := KeyedFifo.run n ps
    let data := V2.getPriorityFeeEstimates o accounts includeVote false lookback m
    (∀ s, s ∈ m ↔ s ∈ w.keys) ∧
    (pickedSlots w lookback).card =
      min ((lookback.map UInt32.toNat).getD w.keys.length) w.keys.length ∧
    (data.sample .global : Multiset ℚ) =
      ∑ s ∈ pickedSlots w lookback, feesOf (countedTxns includeVote (w.log s)) ∧
    (∀ a ∈ accounts, (data.sample (.account a) : Multiset ℚ) =
      ∑ s ∈ pickedSlots w lookback,
        feesOf ((countedTxns includeVote (w.log s)).filter fun t => a ∈ t.accounts)) ∧
    ∀ d, d ∈ data ↔
      (pickedSlots w lookback).Nonempty ∧ (d = .global ∨ ∃ a ∈ accounts, d = .account a) := by
  intro m w data
  have hsim : Simulates (PriorityFeeTracker.run n ps) w := Simulates.run hn ps
  refine ⟨hsim.mem_store_iff, card_pickedSlots w lookback,
    hsim.sample_global o accounts includeVote false lookback, fun a ha => ?_,
    hsim.mem_estimates_iff o accounts includeVote false lookback⟩
  refine (hsim.sample_account o (List.count_eq_one_of_mem haccounts ha) includeVote lookback).trans
    (Finset.sum_congr rfl fun s _ => ?_)
  have hnd : ∀ t ∈ (w.log s).tail, t.accounts.Nodup := fun t ht =>
    hps (s, t) (mem_of_mem_run_log (List.mem_of_mem_tail ht))
  rw [accountLog_eq_filter hnd, countedTxns, countedTxns, List.filter_comm]

/-- Slot 5 leaves a window of two for slot 7 and comes back with a fresh log; a
    request for two slots then draws on its second life only. -/
theorem estimates_of_run_readmitted :
    let key := Pubkey.filled 1
    let data := V2.getPriorityFeeEstimates (IterOrder.stored Slot) [key] false false (some 2)
      (PriorityFeeTracker.run 2
        [(5, ⟨[key], 100, false, .legacyV0⟩), (3, ⟨[], 200, false, .v1⟩),
          (7, ⟨[key], 300, false, .legacyV0⟩), (5, ⟨[key], 400, false, .legacyV0⟩),
          (5, ⟨[], 500, true, .legacyV0⟩)]).priorityFees
    (data.sample .global : Multiset ℚ) = {300, 400} ∧
      (data.sample (.account key) : Multiset ℚ) = {300, 400} := by
  have h := estimates_of_run (n := 2) (by decide)
    [(5, ⟨[Pubkey.filled 1], 100, false, .legacyV0⟩), (3, ⟨[], 200, false, .v1⟩),
      (7, ⟨[Pubkey.filled 1], 300, false, .legacyV0⟩),
      (5, ⟨[Pubkey.filled 1], 400, false, .legacyV0⟩), (5, ⟨[], 500, true, .legacyV0⟩)]
    (by decide) (IterOrder.stored Slot) [Pubkey.filled 1] (by decide) false (some 2)
  exact ⟨h.2.2.1.trans (by decide +kernel),
    (h.2.2.2.1 (Pubkey.filled 1) (by decide)).trans (by decide +kernel)⟩

end PriorityFeeEstimator
