import Mathlib
import PriorityFeeEstimator.Ingest

/-!
# The accounts a header marks as written

A message lists its signers first, and in both regions, the signers and the
others, the accounts that are only read come last. The header counts the three
regions it needs. `constructWritableAccounts` selects by position; here the
selection is put together from two pieces of the list, whatever the counts, and
for counts that fit the list the pieces are the two regions without their
read-only ends.
-/

/-- Elements selected by position, below `a` or from `b` up to `c`, where the two
    ranges do not overlap. The positions are counted from `k`. -/
theorem List.map_fst_filter_zipIdx {α : Type*} (l : List α) {a b c : ℕ} (hab : a ≤ b) (k : ℕ) :
    ((l.zipIdx k).filter fun data => data.2 < a || (b ≤ data.2 && data.2 < c)).map Prod.fst =
      l.take (a - k) ++ (l.take (c - k)).drop (b - k) := by
  induction l generalizing k with
  | nil => simp
  | cons x l ih =>
    rw [List.zipIdx_cons, List.filter_cons]
    by_cases hk : k < a
    · have ha : a - k = a - (k + 1) + 1 := by omega
      have hb : b - k = b - (k + 1) + 1 := by omega
      rw [if_pos (by simp [hk]), List.map_cons, ih, ha, hb, List.take_succ_cons]
      cases hc : c - k with
      | zero => simp [show c - (k + 1) = 0 by omega]
      | succ d => simp [show c - (k + 1) = d by omega]
    · have ha : a - k = 0 := by omega
      have ha' : a - (k + 1) = 0 := by omega
      rw [ha, List.take_zero, List.nil_append]
      by_cases hbc : b ≤ k ∧ k < c
      · have hb : b - k = 0 := by omega
        have hb' : b - (k + 1) = 0 := by omega
        have hc : c - k = c - (k + 1) + 1 := by omega
        rw [if_pos (by simp [hbc]), List.map_cons, ih, ha', hb, hb', hc, List.take_succ_cons]
        rfl
      · rw [if_neg (by simp [hk]; omega), ih, ha', List.take_zero, List.nil_append]
        by_cases hc : k < c
        · have hb : b - k = b - (k + 1) + 1 := by omega
          rw [hb, show c - k = c - (k + 1) + 1 by omega, List.take_succ_cons, List.drop_succ_cons]
        · rw [show c - k = 0 by omega, show c - (k + 1) = 0 by omega, List.take_zero,
            List.take_zero, List.drop_nil, List.drop_nil]

namespace PriorityFeeEstimator

/-- The counts of a header fit a list of `m` accounts: the read-only signers are
    signers, the signers are accounts, and the read-only accounts among the
    others are no more than these. -/
structure Proto.MessageHeader.Fits (header : Proto.MessageHeader) (m : ℕ) : Prop where
  readonlySigned_le :
    header.numReadonlySignedAccounts.toNat ≤ header.numRequiredSignatures.toNat
  signatures_le : header.numRequiredSignatures.toNat ≤ m
  readonlyUnsigned_le :
    header.numReadonlyUnsignedAccounts.toNat ≤ m - header.numRequiredSignatures.toNat

/-- The end of the written accounts: a count of read-only accounts past the
    length of the list is taken for none. -/
def Proto.MessageHeader.maxNonSigWriteAccts (header : Proto.MessageHeader) (m : ℕ) : ℕ :=
  if header.numReadonlyUnsignedAccounts.toNat ≤ m then
    m - header.numReadonlyUnsignedAccounts.toNat
  else m

/-- For every header the selection is a start of the list and a later piece of
    it. The first ends before the second begins, because the read-only signers
    are subtracted from the signers. -/
theorem constructWritableAccounts_eq_append {α : Type*} (accounts : List α)
    (header : Proto.MessageHeader) :
    constructWritableAccounts accounts (some header) =
      accounts.take (header.numRequiredSignatures.toNat -
        header.numReadonlySignedAccounts.toNat) ++
      (accounts.take (header.maxNonSigWriteAccts accounts.length)).drop
        header.numRequiredSignatures.toNat := by
  apply List.map_fst_filter_zipIdx
  exact Nat.sub_le _ _

/-- The writable accounts of a message keep the order of the list. For a header
    that fits they are those at the positions below `s - rs` and from `s` below
    `m - ru`, in other words all but the last read-only signers and the last
    read-only accounts among the others. -/
theorem writable_accounts_follow_header {α : Type*} (accounts : List α)
    (header : Proto.MessageHeader) :
    (constructWritableAccounts accounts (some header)).Sublist accounts ∧
    (header.Fits accounts.length →
      let s := header.numRequiredSignatures.toNat
      let rs := header.numReadonlySignedAccounts.toNat
      let ru := header.numReadonlyUnsignedAccounts.toNat
      let writable := constructWritableAccounts accounts (some header)
      writable = accounts.take (s - rs) ++ (accounts.take (accounts.length - ru)).drop s ∧
      writable = (accounts.take s).rdrop rs ++ (accounts.drop s).rdrop ru ∧
      writable.length = accounts.length - rs - ru) := by
  refine ⟨constructWritableAccounts_sublist accounts (some header), fun h => ?_⟩
  intro s rs ru writable
  have hrs : rs ≤ s := h.readonlySigned_le
  have hs : s ≤ accounts.length := h.signatures_le
  have hru : ru ≤ accounts.length - s := h.readonlyUnsigned_le
  have hend : header.maxNonSigWriteAccts accounts.length = accounts.length - ru :=
    if_pos (by omega)
  have hpieces : writable =
      accounts.take (s - rs) ++ (accounts.take (accounts.length - ru)).drop s := by
    show constructWritableAccounts accounts (some header) = _
    rw [constructWritableAccounts_eq_append, hend]
  refine ⟨hpieces, ?_, ?_⟩
  · have hsigners : accounts.take (s - rs) = (accounts.take s).rdrop rs := by
      rw [List.rdrop, List.length_take, List.take_take]
      congr 1
      omega
    have hothers : (accounts.take (accounts.length - ru)).drop s = (accounts.drop s).rdrop ru := by
      rw [List.rdrop, List.length_drop, List.drop_take]
      congr 1
      omega
    rw [hpieces, hsigners, hothers]
  · rw [hpieces, List.length_append, List.length_take, List.length_drop, List.length_take]
    omega

/-- Two signers, the second read-only, and three others, the last read-only. -/
theorem writable_accounts_follow_header_five :
    (⟨2, 1, 1⟩ : Proto.MessageHeader).Fits ["a", "b", "c", "d", "e"].length ∧
    constructWritableAccounts ["a", "b", "c", "d", "e"] (some ⟨2, 1, 1⟩) = ["a", "c", "d"] := by
  have h : (⟨2, 1, 1⟩ : Proto.MessageHeader).Fits ["a", "b", "c", "d", "e"].length :=
    ⟨by decide, by decide, by decide⟩
  exact ⟨h, ((writable_accounts_follow_header _ _).2 h).1⟩

end PriorityFeeEstimator
