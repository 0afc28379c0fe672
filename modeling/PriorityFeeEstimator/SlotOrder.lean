import Mathlib
import PriorityFeeEstimator.StoreEquiv
import PriorityFeeEstimator.Tracker

/-!
# The order of transactions inside a slot

Recording transactions in a slot that has some is independent of their order:
every occurrence of an account adds the fee once. The first transaction of a
slot is recorded by other code, which adds its fee once per distinct account.
So the order matters exactly when the transactions that come first name
accounts repeatedly, and not the same ones equally often for the same fee.
-/

namespace PriorityFeeEstimator

open SlotPriorityFees

/-- The transactions of a list, each once for every time it names the account. -/
def occurrences (a : Pubkey) (l : List Txn) : List Txn :=
  l.flatMap fun t => List.replicate (t.accounts.count a) t

theorem occurrences_perm (a : Pubkey) {l l' : List Txn} (h : l.Perm l') :
    (occurrences a l).Perm (occurrences a l') :=
  h.flatMap_right _

namespace SlotPriorityFees

theorem foldl_updateTxn_slot (s : SlotPriorityFees) (l : List Txn) :
    (l.foldl updateTxn s).slot = s.slot := by
  induction l generalizing s with
  | nil => rfl
  | cons t l ih => exact ih _

theorem foldl_updateTxn_fees (s : SlotPriorityFees) (l : List Txn) :
    (l.foldl updateTxn s).fees = s.fees.append (Fees.ofTxns l) := by
  induction l generalizing s with
  | nil => simp [Fees.append, Fees.ofTxns]
  | cons t l ih =>
    rw [List.foldl_cons, ih, ← List.singleton_append, Fees.ofTxns_append, ← Fees.append_assoc,
      Fees.append_ofTxns_singleton]
    rfl

theorem lookup_account_foldl_updateTxn (s : SlotPriorityFees) (l : List Txn) (a : Pubkey) :
    (l.foldl updateTxn s).accountFees.lookup a =
      Fees.extended (s.accountFees.lookup a) (occurrences a l) := by
  induction l generalizing s with
  | nil => rfl
  | cons t l ih =>
    rw [List.foldl_cons, ih, updateTxn, update_accountFees, lookup_foldl_addEntryFee,
      Fees.extended_append]
    rfl

theorem lookup_version_foldl_updateTxn (s : SlotPriorityFees) (l : List Txn)
    (v : TransactionVersion) :
    (l.foldl updateTxn s).versionFees.lookup v =
      Fees.extended (s.versionFees.lookup v) (l.filter fun t => v = t.version) := by
  induction l generalizing s with
  | nil => rfl
  | cons t l ih =>
    rw [List.foldl_cons, ih, updateTxn, update_versionFees, lookup_addEntryFee, List.filter_cons]
    by_cases hv : v = t.version
    · simp [hv, Fees.extended_append]
    · simp [hv]

/-- Later transactions leave equivalent values in any order. -/
theorem foldl_updateTxn_equiv (s : SlotPriorityFees) {l l' : List Txn} (h : l.Perm l') :
    (l.foldl updateTxn s).Equiv (l'.foldl updateTxn s) where
  slot := by rw [foldl_updateTxn_slot, foldl_updateTxn_slot]
  fees := by
    rw [foldl_updateTxn_fees, foldl_updateTxn_fees]
    exact (Fees.Equiv.refl _).append (.ofTxns h)
  account a := by
    rw [lookup_account_foldl_updateTxn, lookup_account_foldl_updateTxn]
    exact Fees.Equiv.extended _ (occurrences_perm a h)
  version v := by
    rw [lookup_version_foldl_updateTxn, lookup_version_foldl_updateTxn]
    exact Fees.Equiv.extended _ (h.filter _)

end SlotPriorityFees

/-- Where one of two transactions names an account more than once, the other
    names it as often, for the same fee and with the same vote flag. -/
def SameRepeats (x y : Txn) : Prop :=
  ∀ a, 2 ≤ x.accounts.count a ∨ 2 ≤ y.accounts.count a →
    x.accounts.count a = y.accounts.count a ∧ x.fee = y.fee ∧ x.isVote = y.isVote

/-- The account log falls short of the occurrences by the repeats of the first
    transaction. -/
theorem accountLog_append_repeats (a : Pubkey) (x : Txn) (xs : List Txn) :
    (accountLog a (x :: xs) ++ List.replicate (x.accounts.count a - 1) x).Perm
      (occurrences a (x :: xs)) := by
  have hcount : List.replicate (x.accounts.count a) x =
      List.replicate (x.accounts.count a - 1) x ++ if a ∈ x.accounts then [x] else [] := by
    by_cases ha : a ∈ x.accounts
    · have hpos := List.count_pos_iff.mpr ha
      rw [if_pos ha, ← List.replicate_succ', Nat.sub_add_cancel hpos]
    · rw [if_neg ha, List.count_eq_zero_of_not_mem ha]
      rfl
  rw [occurrences, List.flatMap_cons, hcount, accountLog, List.append_assoc (List.replicate _ _)]
  exact List.perm_append_comm

private theorem perm_iff_of_append_perm {α : Type*} {l l' r r' : List α}
    (h : (l ++ r).Perm (l' ++ r')) : l.Perm l' ↔ r.Perm r' := by
  constructor
  · intro hl
    exact (List.perm_append_left_iff l).mp (h.trans (hl.symm.append_right r'))
  · intro hr
    exact (List.perm_append_right_iff r).mp (h.trans (hr.symm.append_left l'))

/-- What is left when equivalent lists end in equivalent lists is equivalent. -/
theorem Fees.equiv_iff_of_append_equiv {f f' g g' : Fees}
    (h : (f.append g).Equiv (f'.append g')) : f.Equiv f' ↔ g.Equiv g' := by
  have hnonVote := perm_iff_of_append_perm h.nonVote
  have hvote := perm_iff_of_append_perm h.vote
  exact ⟨fun hf => ⟨hnonVote.mp hf.nonVote, hvote.mp hf.vote⟩,
    fun hg => ⟨hnonVote.mpr hg.nonVote, hvote.mpr hg.vote⟩⟩

theorem Fees.ofTxns_replicate_equiv_iff (i j : ℕ) (x y : Txn) :
    (Fees.ofTxns (List.replicate i x)).Equiv (Fees.ofTxns (List.replicate j y)) ↔
      i = j ∧ (i = 0 ∨ x.fee = y.fee ∧ x.isVote = y.isVote) := by
  have hx : ∀ (k : ℕ) (t : Txn), Fees.ofTxns (List.replicate k t) =
      if t.isVote then ⟨[], List.replicate k t.fee⟩ else ⟨List.replicate k t.fee, []⟩ := by
    intro k t
    cases ht : t.isVote <;> simp [Fees.ofTxns, ht]
  rw [hx, hx]
  constructor
  · rintro ⟨hn, hv⟩
    cases hxv : x.isVote <;> cases hyv : y.isVote <;>
      simp only [hxv, hyv, if_true, if_false, Bool.false_eq_true] at hn hv ⊢
    · have h := List.replicate_inj.mp (List.perm_replicate.mp hn)
      exact ⟨h.1, h.2.imp id fun hf => ⟨hf, trivial⟩⟩
    · have hi : i = 0 := by simpa using hn.length_eq
      have hj : 0 = j := by simpa using hv.length_eq
      exact ⟨hi.trans hj, .inl hi⟩
    · have hj : 0 = j := by simpa using hn.length_eq
      have hi : i = 0 := by simpa using hv.length_eq
      exact ⟨hi.trans hj, .inl hi⟩
    · have h := List.replicate_inj.mp (List.perm_replicate.mp hv)
      exact ⟨h.1, h.2.imp id fun hf => ⟨hf, trivial⟩⟩
  · rintro ⟨rfl, rfl | ⟨hfee, hvote⟩⟩
    · cases x.isVote <;> cases y.isVote <;> exact ⟨.refl _, .refl _⟩
    · rw [hfee, hvote]
      exact .refl _

theorem accountLog_eq_nil_iff {a : Pubkey} {l : List Txn} :
    accountLog a l = [] ↔ ∀ t ∈ l, a ∉ t.accounts := by
  simp only [List.eq_nil_iff_forall_not_mem, mem_accountLog, not_and]

/-- In two orders of the same transactions an account has equivalent lists exactly
    when the repeats left out are alike. -/
theorem Fees.ofTxns_accountLog_equiv_iff {x y : Txn} {xs ys : List Txn}
    (h : (x :: xs).Perm (y :: ys)) (a : Pubkey) :
    (Fees.ofTxns (accountLog a (x :: xs))).Equiv (Fees.ofTxns (accountLog a (y :: ys))) ↔
      (2 ≤ x.accounts.count a ∨ 2 ≤ y.accounts.count a →
        x.accounts.count a = y.accounts.count a ∧ x.fee = y.fee ∧ x.isVote = y.isVote) := by
  have hall := ((accountLog_append_repeats a x xs).trans (occurrences_perm a h)).trans
    (accountLog_append_repeats a y ys).symm
  have hfees := Fees.Equiv.ofTxns hall
  rw [Fees.ofTxns_append, Fees.ofTxns_append] at hfees
  rw [Fees.equiv_iff_of_append_equiv hfees, Fees.ofTxns_replicate_equiv_iff]
  constructor
  · rintro ⟨hcount, hrest⟩ h2
    exact ⟨by omega, hrest.resolve_left (by omega)⟩
  · intro himp
    by_cases h2 : 2 ≤ x.accounts.count a ∨ 2 ≤ y.accounts.count a
    · exact ⟨by rw [(himp h2).1], .inr (himp h2).2⟩
    · exact ⟨by omega, .inl (by omega)⟩

/-- Two orders of the transactions of a fresh slot leave equivalent values
    exactly when the transactions that come first are alike where they repeat
    accounts. -/
theorem equiv_ofLog_iff (s : Slot) {x y : Txn} {xs ys : List Txn}
    (h : (x :: xs).Perm (y :: ys)) :
    Option.Rel SlotPriorityFees.Equiv (ofLog s (x :: xs)) (ofLog s (y :: ys)) ↔
      SameRepeats x y := by
  have hx : (xs.foldl updateTxn (ofTxn s x)).Logged s (x :: xs) := logged_of_ofLog rfl
  have hy : (ys.foldl updateTxn (ofTxn s y)).Logged s (y :: ys) := logged_of_ofLog rfl
  have hnil : ∀ a, accountLog a (x :: xs) = [] ↔ accountLog a (y :: ys) = [] := by
    intro a
    simp only [accountLog_eq_nil_iff, h.mem_iff]
  rw [ofLog, ofLog, Option.rel_some_some]
  constructor
  · intro heq a
    refine (Fees.ofTxns_accountLog_equiv_iff h a).mp ?_
    have ha := heq.account a
    rw [hx.lookup_account, hy.lookup_account] at ha
    by_cases hl : accountLog a (x :: xs) = []
    · rw [hl, (hnil a).mp hl]
      exact .refl _
    · rw [Fees.recorded_of_ne_nil hl, Fees.recorded_of_ne_nil (mt (hnil a).mpr hl),
        Option.rel_some_some] at ha
      exact ha
  · intro hrep
    refine ⟨hx.slot_eq.trans hy.slot_eq.symm, ?_, fun a => ?_, fun v => ?_⟩
    · rw [hx.fees_eq, hy.fees_eq]
      exact .ofTxns h
    · rw [hx.lookup_account, hy.lookup_account]
      by_cases hl : accountLog a (x :: xs) = []
      · rw [hl, (hnil a).mp hl]
        exact .none
      · rw [Fees.recorded_of_ne_nil hl, Fees.recorded_of_ne_nil (mt (hnil a).mpr hl)]
        exact .some ((Fees.ofTxns_accountLog_equiv_iff h a).mpr (hrep a))
    · rw [hx.lookup_version, hy.lookup_version, Fees.recorded_eq_extended,
        Fees.recorded_eq_extended]
      exact Fees.Equiv.extended _ (h.filter _)

/-- What a slot holds after transactions more. -/
def SlotPriorityFees.extendAll (s : Slot) (l : List Txn) (o : Option SlotPriorityFees) :
    Option SlotPriorityFees :=
  l.foldl (fun o t => some (extend s t o)) o

theorem SlotPriorityFees.extendAll_some (s : Slot) (l : List Txn) (v : SlotPriorityFees) :
    extendAll s l (some v) = some (l.foldl updateTxn v) := by
  induction l generalizing v with
  | nil => rfl
  | cons t l ih => exact ih _

theorem SlotPriorityFees.extendAll_none (s : Slot) (l : List Txn) :
    extendAll s l none = ofLog s l := by
  cases l with
  | nil => rfl
  | cons t l => exact extendAll_some s l _

namespace PriorityFeeTracker

variable {t : PriorityFeeTracker} {s : Slot}

/-- A push to a slot the cache holds leaves the cache as it is. -/
theorem push_slotCache_of_mem (hs : s ∈ t.slotCache.slotSet) (x : Txn) :
    t.slotCache.pushPop s = (none, t.slotCache) ∧ (t.push (s, x)).slotCache = t.slotCache := by
  have hpop : t.slotCache.pushPop s = (none, t.slotCache) := if_pos hs
  exact ⟨hpop, by rw [push_slotCache, hpop]⟩

/-- A push lets its slot enter the cache. -/
theorem mem_slotSet_push (hc : t.slotCache.Coherent) (x : Txn) :
    s ∈ (t.push (s, x)).slotCache.slotSet := by
  rw [push_slotCache, SlotCache.pushPop_eq_lockedPushPop]
  exact hc.mem_lockedPushPop s

/-- Pushes to a slot the cache holds change that slot only. -/
theorem lookup_pushAll_of_mem (hs : s ∈ t.slotCache.slotSet) (l : List Txn) (k : Slot) :
    (t.pushAll (l.map (s, ·))).priorityFees.lookup k =
      if k = s then extendAll s l (t.priorityFees.lookup s) else t.priorityFees.lookup k := by
  induction l generalizing t with
  | nil =>
    split
    · next h => rw [h]; rfl
    · rfl
  | cons x l ih =>
    obtain ⟨hpop, hcache⟩ := push_slotCache_of_mem hs x
    rw [List.map_cons, pushAll_cons, ih (hcache ▸ hs), lookup_push, lookup_push, hpop]
    by_cases hk : k = s
    · simp [hk, extendAll]
    · simp [hk]

/-- Pushes to one slot: the slot that leaves the cache, if any, is gone, the
    transactions are recorded, and every other slot is as before. -/
theorem lookup_pushAll_slot (hc : t.slotCache.Coherent) {l : List Txn} (hl : l ≠ []) (k : Slot) :
    (t.pushAll (l.map (s, ·))).priorityFees.lookup k =
      if (t.slotCache.pushPop s).1 = some k then none
      else if k = s then extendAll s l (t.priorityFees.lookup s)
      else t.priorityFees.lookup k := by
  obtain ⟨x, xs, rfl⟩ := List.exists_cons_of_ne_nil hl
  have hstay : (t.slotCache.pushPop s).1 ≠ some s := hc.pushPop_ne s
  rw [List.map_cons, pushAll_cons, lookup_pushAll_of_mem (mem_slotSet_push hc x), lookup_push, lookup_push,
    if_neg hstay, if_pos rfl]
  by_cases hk : k = s
  · rw [if_pos hk, if_pos hk, hk, if_neg hstay]
    rfl
  · rw [if_neg hk, if_neg hk, if_neg hk]

end PriorityFeeTracker

/-- After the transactions of a list are pushed to a slot in two orders, the
    stores agree up to the order of fees exactly when the slot values do. -/
theorem storeEquiv_pushAll_iff {t : PriorityFeeTracker} (hc : t.slotCache.Coherent) (s : Slot)
    {l l' : List Txn} (h : l.Perm l') :
    StoreEquiv (t.pushAll (l.map (s, ·))).priorityFees (t.pushAll (l'.map (s, ·))).priorityFees ↔
      Option.Rel SlotPriorityFees.Equiv (extendAll s l (t.priorityFees.lookup s))
        (extendAll s l' (t.priorityFees.lookup s)) := by
  by_cases hl : l = []
  · obtain rfl := hl
    obtain rfl := h.nil_eq
    exact iff_of_true (.refl _) (optionRel_refl .refl _)
  have hl' : l' ≠ [] := fun he => hl (he ▸ h).eq_nil
  constructor
  · intro heq
    have hs := heq s
    have hstay : (t.slotCache.pushPop s).1 ≠ some s := hc.pushPop_ne s
    rwa [PriorityFeeTracker.lookup_pushAll_slot hc hl, PriorityFeeTracker.lookup_pushAll_slot hc hl',
      if_neg hstay, if_neg hstay, if_pos rfl, if_pos rfl] at hs
  · intro heq k
    rw [PriorityFeeTracker.lookup_pushAll_slot hc hl, PriorityFeeTracker.lookup_pushAll_slot hc hl']
    split
    · exact .none
    · split
      · exact heq
      · exact optionRel_refl .refl _

/-- That is the case when the slot is held already, and on a fresh slot when the
    transactions that come first are alike where they repeat accounts. -/
theorem storeEquiv_pushAll_iff_sameRepeats {t : PriorityFeeTracker} (hc : t.slotCache.Coherent)
    (s : Slot) {l l' : List Txn} (h : l.Perm l') :
    StoreEquiv (t.pushAll (l.map (s, ·))).priorityFees (t.pushAll (l'.map (s, ·))).priorityFees ↔
      s ∈ t.priorityFees ∨ ∀ x y, l.head? = some x → l'.head? = some y → SameRepeats x y := by
  rw [storeEquiv_pushAll_iff hc s h]
  by_cases hs : s ∈ t.priorityFees
  · obtain ⟨v, hv⟩ := Table.mem_iff_exists_lookup.mp hs
    rw [hv, extendAll_some, extendAll_some, Option.rel_some_some]
    exact iff_of_true (foldl_updateTxn_equiv v h) (.inl hs)
  · rw [AList.lookup_eq_none.mpr hs, extendAll_none, extendAll_none, or_iff_right hs]
    cases l with
    | nil =>
      obtain rfl := h.nil_eq
      exact iff_of_true .none (by simp)
    | cons x xs =>
      cases l' with
      | nil => cases h.eq_nil
      | cons y ys => simp [equiv_ofLog_iff s h]

/-- In every state of a tracker, two orders of the transactions pushed to a slot
    leave stores that agree up to the order of fees, and give the same
    estimates, exactly when the slot is held already or the transactions that
    come first are alike where they repeat accounts. -/
theorem slot_order_iff {n : ℕ} (hn : 1 ≤ n) (ps : List (Slot × Txn)) (s : Slot) {l l' : List Txn}
    (h : l.Perm l') :
    let t := PriorityFeeTracker.run n ps
    let m := (t.pushAll (l.map (s, ·))).priorityFees
    let m' := (t.pushAll (l'.map (s, ·))).priorityFees
    (StoreEquiv m m' ∧
        (∀ o o' c, (Calculations.getPriorityFeeEstimates o c m).SameSamples
          (Calculations.getPriorityFeeEstimates o' c m')) ∧
        ∀ S : Statrs, S.DependsOnMultiset → S.NanOnEmpty → ∀ o o' g g' c,
          calculatePriorityFee S o g c m = calculatePriorityFee S o' g' c m') ↔
      s ∈ t.priorityFees ∨ ∀ x y, l.head? = some x → l'.head? = some y → SameRepeats x y := by
  intro t m m'
  have hc : t.slotCache.Coherent := (Simulates.run hn ps).coherent hn
  rw [← storeEquiv_pushAll_iff_sameRepeats hc s h]
  constructor
  · exact fun heq => heq.1
  · intro heq
    exact ⟨heq, heq.sameSamples, fun S hS hnan => heq.calculatePriorityFee_eq hS hnan⟩

/-- Two transactions without repeats, in either order on a fresh slot. -/
theorem slot_order_iff_distinct :
    StoreEquiv
      ((PriorityFeeTracker.new 1).pushAll
        [(1, ⟨[Pubkey.filled 1, Pubkey.filled 2], 5, false, .legacyV0⟩),
          (1, ⟨[Pubkey.filled 2], 7, true, .v1⟩)]).priorityFees
      ((PriorityFeeTracker.new 1).pushAll
        [(1, ⟨[Pubkey.filled 2], 7, true, .v1⟩),
          (1, ⟨[Pubkey.filled 1, Pubkey.filled 2], 5, false, .legacyV0⟩)]).priorityFees := by
  have h := slot_order_iff (n := 1) le_rfl [] 1
    (List.Perm.swap (⟨[Pubkey.filled 2], 7, true, .v1⟩ : Txn)
      ⟨[Pubkey.filled 1, Pubkey.filled 2], 5, false, .legacyV0⟩ [])
  refine (h.mpr (.inr ?_)).1
  intro x y hx hy a h2
  obtain rfl := Option.some.inj hx
  obtain rfl := Option.some.inj hy
  have hone : ∀ keys : List Pubkey, keys.Nodup → ¬2 ≤ keys.count a := fun keys hnd =>
    not_le.mpr (Nat.lt_succ_of_le (List.nodup_iff_count_le_one.mp hnd a))
  exact absurd h2 (not_or.mpr ⟨hone _ (by decide), hone _ (by decide)⟩)

/-- A first transaction that names an account twice, and a later one that names
    it once: the order decides which fees the account holds. -/
theorem slot_order_repeated_key :
    ¬ ∀ (n : ℕ) (_ : 1 ≤ n) (ps : List (Slot × Txn)) (s : Slot) (l l' : List Txn) (_ : l.Perm l'),
      StoreEquiv ((PriorityFeeTracker.run n ps).pushAll (l.map (s, ·))).priorityFees
        ((PriorityFeeTracker.run n ps).pushAll (l'.map (s, ·))).priorityFees := by
  intro h
  let key := Pubkey.filled 1
  let twice : Txn := ⟨[key, key], 5, false, .legacyV0⟩
  let once : Txn := ⟨[key], 7, false, .legacyV0⟩
  have heq := h 1 le_rfl [] 1 [twice, once] [once, twice] (List.Perm.swap _ _ _)
  have hsample := heq.sameSamples (IterOrder.stored Slot) (IterOrder.stored Slot)
    (.calculation2 [key] false false none) (.account key)
  exact absurd hsample.length_eq (by decide +kernel)

end PriorityFeeEstimator
