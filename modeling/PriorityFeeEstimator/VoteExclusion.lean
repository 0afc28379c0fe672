import Mathlib
import PriorityFeeEstimator.Rpc
import PriorityFeeEstimator.SlotOrder
import PriorityFeeEstimator.WindowEstimates

/-!
# Requests that exclude votes

A request that excludes votes reads no vote fee. But a vote transaction creates
entries for the accounts it touches, and the zero fill of empty slots asks for
the entry of an account, not for the fees counted under it. So two stores that
differ in votes only give such a request the same samples exactly when the zero
fill is off, or as many visited slots lack an entry in one store as in the
other.
-/

namespace PriorityFeeEstimator

open SlotPriorityFees

/-- The non-vote fees of an account in a slot; an absent entry has none. -/
def SlotPriorityFees.nonVoteFeesOf (s : SlotPriorityFees) (a : Pubkey) : List ℚ :=
  ((s.accountFees.lookup a).getD .none).nonVoteFees

/-- The same slot with the same non-vote fees, Global and under every account. -/
structure SlotPriorityFees.SameNonVote (s s' : SlotPriorityFees) : Prop where
  slot : s.slot = s'.slot
  global : s.fees.nonVoteFees.Perm s'.fees.nonVoteFees
  account : ∀ a, (s.nonVoteFeesOf a).Perm (s'.nonVoteFeesOf a)

/-- The same slots with the same non-vote fees. -/
def SameNonVote (m m' : PriorityFeesBySlot) : Prop :=
  ∀ s, Option.Rel SlotPriorityFees.SameNonVote (m.lookup s) (m'.lookup s)

/-- How many of the slots have no entry of the account. -/
def unrecorded (vs : List SlotPriorityFees) (a : Pubkey) : ℕ :=
  vs.countP fun v => a ∉ v.accountFees

/-- How many of the slots have no entry of any of the accounts. -/
def untouched (vs : List SlotPriorityFees) (accounts : List Pubkey) : ℕ :=
  vs.countP fun v => v.Untouched accounts

theorem SlotPriorityFees.SameNonVote.refl (s : SlotPriorityFees) : s.SameNonVote s :=
  ⟨rfl, .refl _, fun _ => .refl _⟩

-- ════════════════════════════════════════════════════════════════════════
-- Samples without votes
-- ════════════════════════════════════════════════════════════════════════

/-- Without votes an account contributes its non-vote fees, and a zero when it
    has no entry and empty slots count. -/
theorem accountPart_eq_nonVoteFeesOf (s : SlotPriorityFees) (includeEmptySlots : Bool)
    (a : Pubkey) :
    s.accountPart false includeEmptySlots a =
      s.nonVoteFeesOf a ++ if a ∉ s.accountFees ∧ includeEmptySlots = true then [0] else [] := by
  by_cases ha : a ∈ s.accountFees
  · obtain ⟨f, hf⟩ := Table.mem_iff_exists_lookup.mp ha
    rw [accountPart_of_lookup hf, nonVoteFeesOf, hf, if_neg (by simp [ha])]
    simp [Fees.counted]
  · rw [accountPart_of_notMem ha, nonVoteFeesOf, AList.lookup_eq_none.mpr ha]
    simp [ha, Fees.none]

private theorem flatMap_fill (vs : List SlotPriorityFees) (p : SlotPriorityFees → Bool) :
    (vs.flatMap fun v => if p v then [(0 : ℚ)] else []) = List.replicate (vs.countP p) 0 := by
  induction vs with
  | nil => rfl
  | cons v vs ih =>
    rw [List.flatMap_cons, ih, List.countP_cons]
    cases p v with
    | false => simp
    | true => simp [List.replicate_succ]

private theorem flatMap_append_fill_perm (vs : List SlotPriorityFees)
    (part : SlotPriorityFees → List ℚ) (p : SlotPriorityFees → Bool) :
    (vs.flatMap fun v => part v ++ if p v then [0] else []).Perm
      (vs.flatMap part ++ List.replicate (vs.countP p) 0) := by
  rw [← flatMap_fill]
  exact (List.flatMap_append_perm vs part _).symm

/-- Where the parts are alike up to the zeros filled in, so are the samples: they
    are the same exactly when as many zeros are filled in. -/
private theorem flatMap_append_fill_perm_iff {vs vs' : List SlotPriorityFees}
    {part : SlotPriorityFees → List ℚ} (h : (vs.flatMap part).Perm (vs'.flatMap part))
    (p : SlotPriorityFees → Bool) :
    (vs.flatMap fun v => part v ++ if p v then [0] else []).Perm
        (vs'.flatMap fun v => part v ++ if p v then [0] else []) ↔
      vs.countP p = vs'.countP p := by
  have hvs := flatMap_append_fill_perm vs part p
  have hvs' := flatMap_append_fill_perm vs' part p
  constructor
  · intro hp
    have hlen := (hvs.symm.trans (hp.trans hvs')).length_eq
    simp only [List.length_append, List.length_replicate, h.length_eq] at hlen
    omega
  · intro he
    rw [he] at hvs
    exact hvs.trans ((h.append_right _).trans hvs'.symm)

private theorem count_flatMap_replicate (vs : List SlotPriorityFees)
    (part : SlotPriorityFees → List ℚ) (c : ℕ) (q : ℚ) :
    (vs.flatMap fun v => (List.replicate c (part v)).flatten).count q =
      c * (vs.flatMap part).count q := by
  induction vs with
  | nil => simp
  | cons v vs ih => simp [ih, List.count_flatten, mul_add]

/-- A sample repeated is the same exactly when the sample is. -/
private theorem flatMap_replicate_perm_iff {c : ℕ} (hc : 0 < c) (vs vs' : List SlotPriorityFees)
    (part : SlotPriorityFees → List ℚ) :
    (vs.flatMap fun v => (List.replicate c (part v)).flatten).Perm
        (vs'.flatMap fun v => (List.replicate c (part v)).flatten) ↔
      (vs.flatMap part).Perm (vs'.flatMap part) := by
  simp only [List.perm_iff_count, count_flatMap_replicate, Nat.mul_right_inj hc.ne']

-- ════════════════════════════════════════════════════════════════════════
-- Two runs over stores that differ in votes
-- ════════════════════════════════════════════════════════════════════════

section TwoRuns

variable {m m' : PriorityFeesBySlot}

theorem SameNonVote.lookbackValues (h : SameNonVote m m') (o o' : IterOrder Slot)
    (lookback : Option UInt32) :
    List.Forall₂ SlotPriorityFees.SameNonVote (lookbackValues o lookback m)
      (lookbackValues o' lookback m') :=
  lookbackValues_rel (fun _ _ hv => hv.slot) h o o' lookback

/-- Without votes the Global sample is the same. -/
theorem globalPart_perm_of_sameNonVote {vs vs' : List SlotPriorityFees}
    (h : List.Forall₂ SlotPriorityFees.SameNonVote vs vs') :
    (vs.flatMap (·.globalPart false)).Perm (vs'.flatMap (·.globalPart false)) :=
  additive_perm.flatMap h fun _ _ hv => by simpa [globalPart, Fees.counted] using hv.global

/-- Calculation 1 gives the same samples exactly when no zero is filled in, or
    as many slots are filled in either store. -/
theorem v1_sameSamples_iff (h : SameNonVote m m') (o o' : IterOrder Slot)
    (accounts : List Pubkey) (includeEmptySlots : Bool) (lookback : Option UInt32) :
    (Calculations.getPriorityFeeEstimates o
        (.calculation1 accounts false includeEmptySlots lookback) m).SameSamples
      (Calculations.getPriorityFeeEstimates o'
        (.calculation1 accounts false includeEmptySlots lookback) m') ↔
    includeEmptySlots = false ∨ untouched (lookbackValues o lookback m) accounts =
      untouched (lookbackValues o' lookback m') accounts := by
  have hvs := h.lookbackValues o o' lookback
  simp only [DataStats.SameSamples, Calculations.sample_getPriorityFeeEstimates]
  change (∀ d, (List.flatMap _ (lookbackValues o lookback m)).Perm
    (List.flatMap _ (lookbackValues o' lookback m'))) ↔ _
  generalize lookbackValues o lookback m = vs at hvs ⊢
  generalize lookbackValues o' lookback m' = vs' at hvs ⊢
  -- the pooled sample: the non-vote fees, and the slots filled with zero
  let filled := fun v : SlotPriorityFees =>
    decide (accounts ≠ [] ∧ v.Untouched accounts ∧ includeEmptySlots = true)
  have hpart : ∀ v : SlotPriorityFees, v.allAccountsPart false includeEmptySlots accounts =
      accounts.flatMap v.nonVoteFeesOf ++ if filled v then [0] else [] := by
    intro v
    rw [allAccountsPart, List.flatMap_congr fun a _ => accountPart_eq_nonVoteFeesOf v false a]
    simp [filled]
  have hnonVote : (vs.flatMap fun v => accounts.flatMap v.nonVoteFeesOf).Perm
      (vs'.flatMap fun v => accounts.flatMap v.nonVoteFeesOf) :=
    additive_perm.flatMap hvs fun _ _ hv => List.Perm.flatMap_left _ fun a _ => hv.account a
  have hall : (vs.flatMap (·.allAccountsPart false includeEmptySlots accounts)).Perm
      (vs'.flatMap (·.allAccountsPart false includeEmptySlots accounts)) ↔
        vs.countP filled = vs'.countP filled := by
    simp only [hpart]
    exact flatMap_append_fill_perm_iff hnonVote filled
  have hcount : vs.countP filled = vs'.countP filled ↔
      includeEmptySlots = false ∨ untouched vs accounts = untouched vs' accounts := by
    cases includeEmptySlots with
    | false => simp [filled]
    | true =>
      by_cases hne : accounts = []
      · simp [filled, hne, untouched, Untouched, hvs.length_eq]
      · simp [filled, hne, untouched]
  rw [← hcount, ← hall]
  refine ⟨fun hd => hd .allAccounts, fun hp d => ?_⟩
  cases d with
  | global => exact globalPart_perm_of_sameNonVote hvs
  | allAccounts => exact hp
  | account a => exact additive_perm.flatMap hvs fun _ _ _ => .refl []

/-- Calculation 2 gives the same samples exactly when no zero is filled in, or
    for every account as many slots are filled in either store. -/
theorem v2_sameSamples_iff (h : SameNonVote m m') (o o' : IterOrder Slot)
    (accounts : List Pubkey) (includeEmptySlots : Bool) (lookback : Option UInt32) :
    (Calculations.getPriorityFeeEstimates o
        (.calculation2 accounts false includeEmptySlots lookback) m).SameSamples
      (Calculations.getPriorityFeeEstimates o'
        (.calculation2 accounts false includeEmptySlots lookback) m') ↔
    includeEmptySlots = false ∨ ∀ a ∈ accounts, unrecorded (lookbackValues o lookback m) a =
      unrecorded (lookbackValues o' lookback m') a := by
  have hvs := h.lookbackValues o o' lookback
  simp only [DataStats.SameSamples, Calculations.sample_getPriorityFeeEstimates]
  change (∀ d, (List.flatMap _ (lookbackValues o lookback m)).Perm
    (List.flatMap _ (lookbackValues o' lookback m'))) ↔ _
  generalize lookbackValues o lookback m = vs at hvs ⊢
  generalize lookbackValues o' lookback m' = vs' at hvs ⊢
  -- the sample of an account requested once: its non-vote fees and the zeros
  let filled := fun (a : Pubkey) (v : SlotPriorityFees) =>
    decide (a ∉ v.accountFees ∧ includeEmptySlots = true)
  have hpart : ∀ (a : Pubkey) (v : SlotPriorityFees), v.accountPart false includeEmptySlots a =
      v.nonVoteFeesOf a ++ if filled a v then [0] else [] := by
    intro a v
    rw [accountPart_eq_nonVoteFeesOf]
    simp [filled]
  have haccount : ∀ a, (vs.flatMap (·.accountPart false includeEmptySlots a)).Perm
      (vs'.flatMap (·.accountPart false includeEmptySlots a)) ↔
        vs.countP (filled a) = vs'.countP (filled a) := by
    intro a
    simp only [hpart]
    exact flatMap_append_fill_perm_iff
      (additive_perm.flatMap hvs fun _ _ hv => hv.account a) (filled a)
  have hcount : (∀ a ∈ accounts, vs.countP (filled a) = vs'.countP (filled a)) ↔
      includeEmptySlots = false ∨ ∀ a ∈ accounts, unrecorded vs a = unrecorded vs' a := by
    cases includeEmptySlots with
    | false => simp [filled]
    | true => simp [filled, unrecorded]
  rw [← hcount]
  constructor
  · intro hd a ha
    have hpos := List.count_pos_iff.mpr ha
    exact (haccount a).mp ((flatMap_replicate_perm_iff hpos vs vs' _).mp (hd (.account a)))
  · intro hp d
    cases d with
    | global => exact globalPart_perm_of_sameNonVote hvs
    | allAccounts => exact additive_perm.flatMap hvs fun _ _ _ => .refl []
    | account a =>
      by_cases ha : a ∈ accounts
      · have hpos := List.count_pos_iff.mpr ha
        exact (flatMap_replicate_perm_iff hpos vs vs' _).mpr ((haccount a).mpr (hp a ha))
      · refine additive_perm.flatMap hvs fun v v' _ => ?_
        simp only [Calculations.part, List.count_eq_zero_of_not_mem ha, List.replicate_zero]
        exact .refl _

end TwoRuns

-- ════════════════════════════════════════════════════════════════════════
-- One vote more
-- ════════════════════════════════════════════════════════════════════════

section OneVote

variable {n : ℕ} {t : PriorityFeeTracker} {w : Window n} {s : Slot} {v : SlotPriorityFees} {x : Txn}

/-- A vote adds entries, but no non-vote fee. -/
theorem SlotPriorityFees.sameNonVote_updateTxn (v : SlotPriorityFees) (hx : x.isVote = true) :
    v.SameNonVote (v.updateTxn x) where
  slot := rfl
  global := by
    rw [updateTxn, update_fees, Fees.addFee, if_pos hx]
  account a := by
    have hnone : (Fees.ofTxns (List.replicate (x.accounts.count a) x)).nonVoteFees = [] := by
      simp [Fees.ofTxns, hx]
    rw [nonVoteFeesOf, nonVoteFeesOf, updateTxn, update_accountFees, lookup_foldl_addEntryFee,
      Fees.extended]
    split
    · exact .refl _
    · rw [Option.getD_some, Fees.append, hnone, List.append_nil]

theorem SlotPriorityFees.mem_accountFees_updateTxn (v : SlotPriorityFees) (x : Txn) (a : Pubkey) :
    a ∈ (v.updateTxn x).accountFees ↔ a ∈ v.accountFees ∨ a ∈ x.accounts := by
  rw [Table.mem_iff_lookup_ne_none, Table.mem_iff_lookup_ne_none, updateTxn, update_accountFees,
    lookup_foldl_addEntryFee, Fees.extended]
  by_cases ha : a ∈ x.accounts
  · have hpos := List.count_pos_iff.mpr ha
    rw [if_neg (by simp; omega)]
    simp [ha]
  · rw [if_pos (by simp [List.count_eq_zero_of_not_mem ha])]
    simp [ha]

/-- A push to a slot that is held changes the value of that slot only. -/
theorem lookup_push_of_held (h : Simulates t w) (hv : t.priorityFees.lookup s = some v)
    (k : Slot) :
    (t.push (s, x)).priorityFees.lookup k =
      if k = s then some (v.updateTxn x) else t.priorityFees.lookup k := by
  have hmem : s ∈ t.slotCache.slotSet :=
    (h.set s).mpr ((h.mem_store_iff s).mp (Table.mem_iff_exists_lookup.mpr ⟨v, hv⟩))
  have hpush := PriorityFeeTracker.lookup_pushAll_of_mem hmem [x] k
  rwa [hv] at hpush

theorem sameNonVote_push (h : Simulates t w) (hv : t.priorityFees.lookup s = some v)
    (hx : x.isVote = true) : SameNonVote t.priorityFees (t.push (s, x)).priorityFees := by
  intro k
  rw [lookup_push_of_held h hv]
  split
  · next hk =>
    rw [hk, hv]
    exact .some (v.sameNonVote_updateTxn hx)
  · exact optionRel_refl .refl _

/-- Counts of a property that holds less often afterwards stay the same exactly
    when it is lost nowhere. -/
theorem countP_eq_iff_of_forall₂ {p : SlotPriorityFees → Bool} {vs vs' : List SlotPriorityFees}
    (h : List.Forall₂ (fun v v' => p v' = true → p v = true) vs vs') :
    vs.countP p = vs'.countP p ↔ List.Forall₂ (fun v v' => p v = true → p v' = true) vs vs' := by
  have hle : ∀ {vs vs' : List SlotPriorityFees},
      List.Forall₂ (fun v v' => p v' = true → p v = true) vs vs' → vs'.countP p ≤ vs.countP p := by
    intro vs vs' h
    induction h with
    | nil => exact le_rfl
    | @cons v v' vs vs' hv _ ih =>
      rw [List.countP_cons, List.countP_cons]
      by_cases hp : p v' = true
      · rw [if_pos hp, if_pos (hv hp)]
        omega
      · rw [if_neg hp]
        omega
  induction h with
  | nil => simp
  | @cons v v' vs vs' hv hvs ih =>
    have hrest := hle hvs
    rw [List.forall₂_cons, ← iff_iff_eq.mp ih, List.countP_cons, List.countP_cons]
    by_cases hp : p v = true
    · by_cases hp' : p v' = true
      · simp [hp, hp']
      · simp only [hp, hp', if_true, Bool.false_eq_true, if_false]
        constructor
        · intro he
          omega
        · exact fun he => absurd (he.1 trivial) (by simp)
    · have hp' : ¬p v' = true := fun h' => hp (hv h')
      simp [hp, hp']

private theorem forall₂_filterMap_iff {R : SlotPriorityFees → SlotPriorityFees → Prop}
    (hrefl : ∀ v, R v v) {m m' : PriorityFeesBySlot} {v' : SlotPriorityFees}
    (hv : m.lookup s = some v)
    (hm' : ∀ k, m'.lookup k = if k = s then some v' else m.lookup k) (slots : List Slot) :
    List.Forall₂ R (slots.filterMap m.lookup) (slots.filterMap m'.lookup) ↔
      (s ∈ slots → R v v') := by
  induction slots with
  | nil => simp
  | cons k slots ih =>
    by_cases hk : k = s
    · subst hk
      have hv' : m'.lookup k = some v' := by rw [hm', if_pos rfl]
      simp only [List.filterMap_cons, hv, hv', List.forall₂_cons, ih, List.mem_cons, true_or,
        forall_const]
      exact and_iff_left_of_imp fun h _ => h
    · have hsame : m'.lookup k = m.lookup k := by rw [hm', if_neg hk]
      have hs : s ∈ k :: slots ↔ s ∈ slots := by simp [Ne.symm hk]
      rw [hs, ← ih]
      cases hl : m.lookup k with
      | none => simp only [List.filterMap_cons, hsame, hl]
      | some u =>
        simp only [List.filterMap_cons, hsame, hl, List.forall₂_cons, and_iff_right (hrefl u)]

/-- How often a property that a vote can only take away holds among the slots
    visited, before and after the vote. -/
theorem countP_lookbackValues_push_iff (h : Simulates t w) (hv : t.priorityFees.lookup s = some v)
    (p : SlotPriorityFees → Bool) (hp : p (v.updateTxn x) = true → p v = true)
    (o o' : IterOrder Slot) (lookback : Option UInt32) :
    (lookbackValues o lookback t.priorityFees).countP p =
        (lookbackValues o' lookback (t.push (s, x)).priorityFees).countP p ↔
      (s ∈ lookbackSlots o lookback t.priorityFees → p v = true →
        p (v.updateTxn x) = true) := by
  have hlookup := lookup_push_of_held (x := x) h hv
  have hslot : ∀ k, (t.priorityFees.lookup k).map SlotPriorityFees.slot =
      ((t.push (s, x)).priorityFees.lookup k).map SlotPriorityFees.slot := by
    intro k
    rw [hlookup]
    split
    · next hk => rw [hk, hv]; rfl
    · rfl
  rw [lookbackValues, lookbackValues, ← (lookbackSlots_congr hslot lookback :
    lookbackSlots o lookback t.priorityFees = lookbackSlots o' lookback _)]
  rw [countP_eq_iff_of_forall₂ ((forall₂_filterMap_iff (fun _ => id) hv hlookup _).mpr
      fun _ => hp), forall₂_filterMap_iff (fun _ => id) hv hlookup]

end OneVote

-- ════════════════════════════════════════════════════════════════════════
-- When votes have no influence
-- ════════════════════════════════════════════════════════════════════════

/-- Over stores that differ in votes only, a request that excludes votes gets
    the same samples and levels exactly when zeros are not filled in, or are
    filled in for as many of the slots visited: with Calculation 1, slots
    without an entry for any account requested, with Calculation 2, for each
    account, slots without an entry for it. So one vote more in a slot that is
    held changes nothing exactly when zeros are not filled in, the slot is not
    visited, or the vote creates no entry that counts. A recommended fee always
    excludes votes. -/
theorem votes_excluded {S : Statrs} (hS : S.DependsOnMultiset) (hnan : S.NanOnEmpty) :
    (∀ m m', SameNonVote m m' → ∀ (o o' : IterOrder Slot) (g g' : IterOrder Group)
        (accounts : List Pubkey) (includeEmptySlots : Bool) (lookback : Option UInt32),
      let c1 := Calculations.calculation1 accounts false includeEmptySlots lookback
      let c2 := Calculations.calculation2 accounts false includeEmptySlots lookback
      let vs := lookbackValues o lookback m
      let vs' := lookbackValues o' lookback m'
      ((c1.getPriorityFeeEstimates o m).SameSamples (c1.getPriorityFeeEstimates o' m') ∧
          calculatePriorityFee S o g c1 m = calculatePriorityFee S o' g' c1 m' ↔
        includeEmptySlots = false ∨ untouched vs accounts = untouched vs' accounts) ∧
      ((c2.getPriorityFeeEstimates o m).SameSamples (c2.getPriorityFeeEstimates o' m') ∧
          calculatePriorityFee S o g c2 m = calculatePriorityFee S o' g' c2 m' ↔
        includeEmptySlots = false ∨ ∀ a ∈ accounts, unrecorded vs a = unrecorded vs' a)) ∧
    (∀ n, 1 ≤ n → ∀ (ps : List (Slot × Txn)) (s : Slot) (v : SlotPriorityFees) (x : Txn),
      let t := PriorityFeeTracker.run n ps
      let m := t.priorityFees
      let m' := (t.push (s, x)).priorityFees
      m.lookup s = some v → x.isVote = true → ∀ (o o' : IterOrder Slot) (g g' : IterOrder Group)
        (accounts : List Pubkey) (includeEmptySlots : Bool) (lookback : Option UInt32),
      let c1 := Calculations.calculation1 accounts false includeEmptySlots lookback
      let c2 := Calculations.calculation2 accounts false includeEmptySlots lookback
      ((c1.getPriorityFeeEstimates o m).SameSamples (c1.getPriorityFeeEstimates o' m') ∧
          calculatePriorityFee S o g c1 m = calculatePriorityFee S o' g' c1 m' ↔
        includeEmptySlots = false ∨ (s ∈ lookbackSlots o lookback m → v.Untouched accounts →
          ∀ a ∈ accounts, a ∉ x.accounts)) ∧
      ((c2.getPriorityFeeEstimates o m).SameSamples (c2.getPriorityFeeEstimates o' m') ∧
          calculatePriorityFee S o g c2 m = calculatePriorityFee S o' g' c2 m' ↔
        includeEmptySlots = false ∨ (s ∈ lookbackSlots o lookback m → ∀ a ∈ accounts,
          a ∈ x.accounts → a ∈ v.accountFees))) ∧
    ∀ request options, validateGetPriorityFeeEstimateRequest request = none →
      request.options = some options → options.recommended.isSome = true →
      shouldIncludeVote request.options = false := by
  have hand : ∀ (c : Calculations) (m m' : PriorityFeesBySlot) (o o' : IterOrder Slot)
      (g g' : IterOrder Group),
      (c.getPriorityFeeEstimates o m).SameSamples (c.getPriorityFeeEstimates o' m') ∧
        calculatePriorityFee S o g c m = calculatePriorityFee S o' g' c m' ↔
      (c.getPriorityFeeEstimates o m).SameSamples (c.getPriorityFeeEstimates o' m') :=
    fun c m m' o o' g g' => and_iff_left_of_imp fun h => calculatePriorityFee_congr hS hnan h
  refine ⟨?_, ?_, fun request options hvalid hoptions hrec =>
    shouldIncludeVote_of_recommended hvalid hoptions hrec⟩
  · intro m m' h o o' g g' accounts includeEmptySlots lookback c1 c2 vs vs'
    rw [hand, hand]
    exact ⟨v1_sameSamples_iff h o o' accounts includeEmptySlots lookback,
      v2_sameSamples_iff h o o' accounts includeEmptySlots lookback⟩
  · intro n hn ps s v x t m m' hv hx o o' g g' accounts includeEmptySlots lookback c1 c2
    have hsim : Simulates t (KeyedFifo.run n ps : Window n) := Simulates.run hn ps
    have hsame : SameNonVote m m' := sameNonVote_push hsim hv hx
    rw [hand, hand]
    constructor
    · refine (v1_sameSamples_iff hsame o o' accounts includeEmptySlots lookback).trans
        (or_congr_right ?_)
      have huntouched : (v.updateTxn x).Untouched accounts ↔
          v.Untouched accounts ∧ ∀ a ∈ accounts, a ∉ x.accounts := by
        simp only [Untouched, mem_accountFees_updateTxn, not_or, ← forall₂_and]
      refine (countP_lookbackValues_push_iff hsim hv (fun v => decide (v.Untouched accounts))
        ?_ o o' lookback).trans ?_
      · simp only [decide_eq_true_eq, huntouched]
        exact And.left
      · simp only [decide_eq_true_eq, huntouched]
        exact imp_congr_right fun _ => imp_congr_right fun hu => and_iff_right hu
    · refine (v2_sameSamples_iff hsame o o' accounts includeEmptySlots lookback).trans
        (or_congr_right ?_)
      have hone : ∀ a, unrecorded (lookbackValues o lookback m) a =
          unrecorded (lookbackValues o' lookback m') a ↔
            (s ∈ lookbackSlots o lookback m → a ∈ x.accounts → a ∈ v.accountFees) := by
        intro a
        refine (countP_lookbackValues_push_iff hsim hv (fun v => decide (a ∉ v.accountFees))
          ?_ o o' lookback).trans ?_
        · simp only [decide_eq_true_eq, mem_accountFees_updateTxn, not_or]
          exact And.left
        · simp only [decide_eq_true_eq, mem_accountFees_updateTxn, not_or]
          refine imp_congr_right fun _ => ?_
          tauto
      simp only [hone]
      tauto

/-- A vote on an account that has an entry in the slot. -/
theorem votes_excluded_recorded :
    let key := Pubkey.filled 1
    let t := PriorityFeeTracker.run 1 [(1, ⟨[key], 7, false, .legacyV0⟩)]
    let c := Calculations.calculation2 [key] false true none
    calculatePriorityFee .exact (IterOrder.stored Slot) (IterOrder.stored Group) c
        t.priorityFees =
      calculatePriorityFee .exact (IterOrder.stored Slot) (IterOrder.stored Group) c
        (t.push (1, ⟨[key], 5, true, .legacyV0⟩)).priorityFees := by
  have h := (votes_excluded Statrs.exact_dependsOnMultiset Statrs.exact_nanOnEmpty).2.1 1 le_rfl
    [(1, ⟨[Pubkey.filled 1], 7, false, .legacyV0⟩)] 1
    (ofTxn 1 ⟨[Pubkey.filled 1], 7, false, .legacyV0⟩)
    ⟨[Pubkey.filled 1], 5, true, .legacyV0⟩ rfl rfl (IterOrder.stored Slot)
    (IterOrder.stored Slot) (IterOrder.stored Group) (IterOrder.stored Group) [Pubkey.filled 1]
    true none
  refine (h.2.mpr (.inr fun _ a ha _ => ?_)).2
  rw [List.mem_singleton.mp ha]
  decide

/-- A vote that creates the entry of an account: the zero of the slot is gone,
    and the lowest level rises from 0 to 100. -/
theorem votes_excluded_entry_created :
    ¬ ∀ (n : ℕ) (_ : 1 ≤ n) (ps : List (Slot × Txn)) (s : Slot) (x : Txn)
      (_ : s ∈ (PriorityFeeTracker.run n ps).priorityFees) (_ : x.isVote = true)
      (accounts : List Pubkey) (includeEmptySlots : Bool) (lookback : Option UInt32),
      let c := Calculations.calculation2 accounts false includeEmptySlots lookback
      calculatePriorityFee .exact (IterOrder.stored Slot) (IterOrder.stored Group) c
          (PriorityFeeTracker.run n ps).priorityFees =
        calculatePriorityFee .exact (IterOrder.stored Slot) (IterOrder.stored Group) c
          ((PriorityFeeTracker.run n ps).push (s, x)).priorityFees := by
  intro h
  have hlevels := h 2 (by decide)
    [(1, ⟨[Pubkey.filled 1], 100, false, .legacyV0⟩), (2, ⟨[], 0, false, .legacyV0⟩)] 2
    ⟨[Pubkey.filled 1], 5, true, .legacyV0⟩ (by decide) rfl [Pubkey.filled 1] true none
  exact absurd (congrArg MicroLamportPriorityFeeEstimates.min hlevels) (by decide +kernel)

end PriorityFeeEstimator
