import Mathlib
import PriorityFeeEstimator.Samples
import PriorityFeeEstimator.Tracker

/-!
# Stores related list by list

Two stores with the same slots and the same entries are compared by a relation
between their fee lists. When the relation goes from parts to the lists put
together from them, it goes from the fees of two histories to the stores, and
from the stores to the samples of every calculation.
-/

namespace PriorityFeeEstimator

open SlotPriorityFees

/-- A relation of lists that goes from parts to the whole. -/
structure Additive (R : List ℚ → List ℚ → Prop) : Prop where
  refl : ∀ l, R l l
  append : ∀ {l l' r r' : List ℚ}, R l l' → R r r' → R (l ++ r) (l' ++ r')

theorem additive_perm : Additive List.Perm where
  refl := .refl
  append := List.Perm.append

theorem additive_forall₂_le : Additive (List.Forall₂ (· ≤ ·)) where
  refl _ := List.forall₂_same.mpr fun _ _ => le_rfl
  append h h' := List.rel_append h h'

namespace Additive

variable {R : List ℚ → List ℚ → Prop}

theorem flatMap (hR : Additive R) {α β : Type*} {Q : α → β → Prop} {xs : List α} {ys : List β}
    (h : List.Forall₂ Q xs ys) {f : α → List ℚ} {g : β → List ℚ}
    (hfg : ∀ x y, Q x y → R (f x) (g y)) : R (xs.flatMap f) (ys.flatMap g) := by
  induction h with
  | nil => exact hR.refl []
  | cons hxy _ ih =>
    rw [List.flatMap_cons, List.flatMap_cons]
    exact hR.append (hfg _ _ hxy) ih

theorem flatten_replicate (hR : Additive R) {l l' : List ℚ} (h : R l l') (k : ℕ) :
    R (List.replicate k l).flatten (List.replicate k l').flatten := by
  induction k with
  | zero => exact hR.refl []
  | succ k ih =>
    rw [List.replicate_succ, List.replicate_succ, List.flatten_cons, List.flatten_cons]
    exact hR.append h ih

end Additive

/-- Fee lists related list by list. -/
structure Fees.RelBy (R : List ℚ → List ℚ → Prop) (f g : Fees) : Prop where
  nonVote : R f.nonVoteFees g.nonVoteFees
  vote : R f.voteFees g.voteFees

/-- The same slot, related Global lists, and the same accounts with related
    lists. -/
structure SlotPriorityFees.RelBy (R : List ℚ → List ℚ → Prop) (s s' : SlotPriorityFees) :
    Prop where
  slot : s.slot = s'.slot
  fees : s.fees.RelBy R s'.fees
  account : ∀ a, Option.Rel (Fees.RelBy R) (s.accountFees.lookup a) (s'.accountFees.lookup a)

/-- The same slots, related list by list. -/
def StoresRelBy (R : List ℚ → List ℚ → Prop) (m m' : PriorityFeesBySlot) : Prop :=
  ∀ s, Option.Rel (SlotPriorityFees.RelBy R) (m.lookup s) (m'.lookup s)

section RelBy

variable {R : List ℚ → List ℚ → Prop}

theorem Fees.RelBy.counted (hR : Additive R) {f g : Fees} (h : f.RelBy R g) (includeVote : Bool) :
    R (f.counted includeVote) (g.counted includeVote) := by
  cases includeVote with
  | false => exact h.nonVote
  | true => exact hR.append h.vote h.nonVote

namespace SlotPriorityFees.RelBy

variable {s s' : SlotPriorityFees}

theorem mem_accountFees_iff (h : s.RelBy R s') (a : Pubkey) :
    a ∈ s.accountFees ↔ a ∈ s'.accountFees := by
  rw [Table.mem_iff_lookup_ne_none, Table.mem_iff_lookup_ne_none]
  rcases optionRel_cases (h.account a) with ⟨hl, hl'⟩ | ⟨f, f', hl, hl', -⟩
  · rw [hl, hl']
  · simp [hl, hl']

theorem accountPart (hR : Additive R) (h : s.RelBy R s') (includeVote includeEmptySlots : Bool)
    (a : Pubkey) :
    R (s.accountPart includeVote includeEmptySlots a)
      (s'.accountPart includeVote includeEmptySlots a) := by
  rcases optionRel_cases (h.account a) with ⟨hl, hl'⟩ | ⟨f, f', hl, hl', hf⟩
  · rw [SlotPriorityFees.accountPart, SlotPriorityFees.accountPart, hl, hl']
    exact hR.refl _
  · rw [accountPart_of_lookup hl, accountPart_of_lookup hl']
    exact hf.counted hR includeVote

/-- Related slots contribute related lists to every sample. -/
theorem part (hR : Additive R) (h : s.RelBy R s') (c : Calculations) (d : DataType) :
    R (c.part s d) (c.part s' d) := by
  cases c with
  | calculation1 accounts includeVote includeEmptySlots _ =>
    cases d with
    | global => exact h.fees.counted hR includeVote
    | allAccounts =>
      have huntouched : s.Untouched accounts ↔ s'.Untouched accounts :=
        forall₂_congr fun a _ => not_congr (h.mem_accountFees_iff a)
      show R (s.allAccountsPart _ _ _) (s'.allAccountsPart _ _ _)
      simp only [allAccountsPart, huntouched]
      refine hR.append ?_ (hR.refl _)
      refine hR.flatMap (List.forall₂_same.mpr fun _ _ => rfl) fun a a' ha => ?_
      subst ha
      exact h.accountPart hR includeVote false a
    | account a => exact hR.refl _
  | calculation2 accounts includeVote includeEmptySlots _ =>
    cases d with
    | global => exact h.fees.counted hR includeVote
    | allAccounts => exact hR.refl _
    | account a =>
      exact hR.flatten_replicate (h.accountPart hR includeVote includeEmptySlots a) _

end SlotPriorityFees.RelBy

/-- Related stores give related samples. -/
theorem StoresRelBy.sample (hR : Additive R) {m m' : PriorityFeesBySlot} (h : StoresRelBy R m m')
    (o o' : IterOrder Slot) (c : Calculations) (d : DataType) :
    R ((c.getPriorityFeeEstimates o m).sample d) ((c.getPriorityFeeEstimates o' m').sample d) := by
  rw [Calculations.sample_getPriorityFeeEstimates, Calculations.sample_getPriorityFeeEstimates]
  refine hR.flatMap (lookbackValues_rel (fun _ _ hv => hv.slot) h o o' c.lookbackPeriod) ?_
  exact fun _ _ hv => hv.part hR c d

-- ════════════════════════════════════════════════════════════════════════
-- Histories
-- ════════════════════════════════════════════════════════════════════════

/-- Transactions with the same accounts and related fees, both votes or neither. -/
structure Txn.RelBy (R : List ℚ → List ℚ → Prop) (x x' : Txn) : Prop where
  accounts : x.accounts = x'.accounts
  isVote : x.isVote = x'.isVote
  fee : R [x.fee] [x'.fee]

theorem Fees.RelBy.append (hR : Additive R) {f f' g g' : Fees} (h : f.RelBy R g)
    (h' : f'.RelBy R g') : (f.append f').RelBy R (g.append g') :=
  ⟨hR.append h.nonVote h'.nonVote, hR.append h.vote h'.vote⟩

namespace Txn.RelBy

variable {x x' : Txn}

theorem ofTxns_replicate (hR : Additive R) (h : x.RelBy R x') (k : ℕ) :
    (Fees.ofTxns (List.replicate k x)).RelBy R (Fees.ofTxns (List.replicate k x')) := by
  have hfees : R (List.replicate k x.fee) (List.replicate k x'.fee) := by
    simpa using hR.flatten_replicate h.fee k
  have hvote := h.isVote
  cases hx : x.isVote <;> rw [hx] at hvote <;> constructor <;>
    simp [Fees.ofTxns, hx, ← hvote, hfees, hR.refl]

/-- Related transactions under related entries. -/
theorem extended (hR : Additive R) (h : x.RelBy R x') {entry entry' : Option Fees}
    (he : Option.Rel (Fees.RelBy R) entry entry') (k : ℕ) :
    Option.Rel (Fees.RelBy R) (Fees.extended entry (List.replicate k x))
      (Fees.extended entry' (List.replicate k x')) := by
  cases k with
  | zero => simpa using he
  | succ k =>
    rw [Fees.extended_of_ne_nil _ (by simp), Fees.extended_of_ne_nil _ (by simp)]
    refine .some (.append hR ?_ (h.ofTxns_replicate hR _))
    cases he with
    | none => exact ⟨hR.refl _, hR.refl _⟩
    | some he => exact he

/-- The slots two related transactions make. -/
theorem ofTxn (hR : Additive R) (h : x.RelBy R x') (slot : Slot) :
    (SlotPriorityFees.ofTxn slot x).RelBy R (SlotPriorityFees.ofTxn slot x') where
  slot := rfl
  fees := by
    rw [(logged_ofTxn slot x).fees_eq, (logged_ofTxn slot x').fees_eq]
    exact h.ofTxns_replicate hR 1
  account a := by
    have hlog : ∀ t : Txn, accountLog a [t] = List.replicate (if a ∈ t.accounts then 1 else 0) t :=
      fun t => by by_cases ha : a ∈ t.accounts <;> simp [accountLog, ha]
    rw [(logged_ofTxn slot x).lookup_account, (logged_ofTxn slot x').lookup_account,
      Fees.recorded_eq_extended, Fees.recorded_eq_extended, hlog, hlog, h.accounts]
    exact h.extended hR .none _

/-- One transaction more in related slots, or a first one in two absent slots. -/
theorem extend (hR : Additive R) (h : x.RelBy R x') {o o' : Option SlotPriorityFees}
    (ho : Option.Rel (SlotPriorityFees.RelBy R) o o') (slot : Slot) :
    (SlotPriorityFees.extend slot x o).RelBy R (SlotPriorityFees.extend slot x' o') := by
  cases ho with
  | none => exact h.ofTxn hR slot
  | @some s s' hs =>
    refine ⟨hs.slot, ?_, fun a => ?_⟩
    · show (s.fees.addFee x.fee x.isVote).RelBy R (s'.fees.addFee x'.fee x'.isVote)
      rw [← Fees.append_ofTxns_singleton, ← Fees.append_ofTxns_singleton]
      exact hs.fees.append hR (h.ofTxns_replicate hR 1)
    · rw [SlotPriorityFees.extend, SlotPriorityFees.extend, updateTxn, updateTxn,
        update_accountFees, update_accountFees, lookup_foldl_addEntryFee,
        lookup_foldl_addEntryFee, h.accounts]
      exact h.extended hR (hs.account a) _

end Txn.RelBy

/-- Histories with the same slots and related transactions leave related
    stores. -/
theorem storesRelBy_run (hR : Additive R) {ps ps' : List (Slot × Txn)}
    (h : List.Forall₂ (fun p p' => p.1 = p'.1 ∧ p.2.RelBy R p'.2) ps ps') (n : ℕ) :
    StoresRelBy R (PriorityFeeTracker.run n ps).priorityFees
      (PriorityFeeTracker.run n ps').priorityFees := by
  suffices hrun : ∀ t t' : PriorityFeeTracker, t.slotCache = t'.slotCache →
      StoresRelBy R t.priorityFees t'.priorityFees →
      StoresRelBy R (t.pushAll ps).priorityFees (t'.pushAll ps').priorityFees from
    hrun _ _ rfl fun _ => .none
  induction h with
  | nil => exact fun _ _ _ hstore => hstore
  | @cons p p' ps ps' hp _ ih =>
    obtain ⟨hslot, hx⟩ := hp
    intro t t' hcache hstore
    rw [PriorityFeeTracker.pushAll_cons, PriorityFeeTracker.pushAll_cons]
    apply ih
    · rw [PriorityFeeTracker.push_slotCache, PriorityFeeTracker.push_slotCache, hcache, hslot]
    · intro s
      rw [PriorityFeeTracker.lookup_push, PriorityFeeTracker.lookup_push, hcache, hslot]
      split
      · exact .none
      · split
        · exact .some (hx.extend hR (hstore _) _)
        · exact hstore s

end RelBy

end PriorityFeeEstimator
