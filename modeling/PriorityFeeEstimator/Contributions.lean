import Mathlib
import PriorityFeeEstimator.WindowEstimates

/-!
# What a slot contributes

The contribution of a slot to the samples of a request, read off its log: every
transaction counted under Global, and under each of the accounts asked for. What
the calculations put together from the entry of the slot is this.
-/

namespace PriorityFeeEstimator

open SlotPriorityFees

/-- What a slot with the log `l` contributes under an account requested once: the
    fees counted under the account, or a zero when it is not in the log and empty
    slots count. -/
def accountContribution (includeVote includeEmptySlots : Bool) (l : List Txn) (a : Pubkey) :
    Multiset ℚ :=
  if accountLog a l = [] then if includeEmptySlots then {0} else 0
  else feesOf (countedTxns includeVote (accountLog a l))

/-- What a slot with the log `l` contributes to the sample of a group. -/
def Calculations.contribution (c : Calculations) (l : List Txn) (d : DataType) : Multiset ℚ :=
  match c, d with
  | c, .global => feesOf (countedTxns c.includeVote l)
  | calculation1 accounts includeVote includeEmptySlots _, .allAccounts =>
    (accounts.map (accountContribution includeVote false l)).sum +
      if accounts ≠ [] ∧ (∀ a ∈ accounts, accountLog a l = []) ∧ includeEmptySlots = true then {0}
      else 0
  | calculation1 _ _ _ _, .account _ => 0
  | calculation2 _ _ _ _, .allAccounts => 0
  | calculation2 accounts includeVote includeEmptySlots _, .account a =>
    accounts.count a • accountContribution includeVote includeEmptySlots l a

/-- The groups of a calculation. -/
def Calculations.groups : Calculations → List DataType
  | calculation1 _ _ _ _ => [.global, .allAccounts]
  | calculation2 accounts _ _ _ => .global :: accounts.map .account

/-- A group that the calculation does not have gets nothing. -/
theorem Calculations.contribution_of_notMem {c : Calculations} {d : DataType} (h : d ∉ c.groups)
    (l : List Txn) : c.contribution l d = 0 := by
  cases c with
  | calculation1 accounts includeVote includeEmptySlots lookback =>
    cases d with
    | global => simp [groups] at h
    | allAccounts => simp [groups] at h
    | account a => rfl
  | calculation2 accounts includeVote includeEmptySlots lookback =>
    cases d with
    | global => simp [groups] at h
    | allAccounts => rfl
    | account a =>
      have hnot : a ∉ accounts := by simpa [groups] using h
      show accounts.count a • _ = 0
      rw [List.count_eq_zero_of_not_mem hnot, zero_smul]

namespace SlotPriorityFees.Logged

variable {v : SlotPriorityFees} {slot : Slot} {l : List Txn}

theorem mem_accountFees_iff (h : v.Logged slot l) (a : Pubkey) :
    a ∈ v.accountFees ↔ accountLog a l ≠ [] := by
  rw [Table.mem_iff_lookup_ne_none, h.lookup_account]
  by_cases hl : accountLog a l = []
  · simp [hl]
  · simp [Fees.recorded_of_ne_nil hl, hl]

theorem coe_accountPart (h : v.Logged slot l) (includeVote includeEmptySlots : Bool)
    (a : Pubkey) :
    (v.accountPart includeVote includeEmptySlots a : Multiset ℚ) =
      accountContribution includeVote includeEmptySlots l a := by
  unfold accountContribution
  by_cases hl : accountLog a l = []
  · have hnot : a ∉ v.accountFees := fun ha => (h.mem_accountFees_iff a).mp ha hl
    rw [accountPart_of_notMem hnot, if_pos hl]
    cases includeEmptySlots <;> rfl
  · rw [accountPart_of_lookup ((h.lookup_account a).trans (Fees.recorded_of_ne_nil hl)), if_neg hl,
      coe_counted_ofTxns]

/-- What a slot contributes to the sample of a group is read off its log. -/
theorem coe_part (h : v.Logged slot l) (c : Calculations) (d : DataType) :
    (c.part v d : Multiset ℚ) = c.contribution l d := by
  have hglobal : ∀ includeVote, (v.globalPart includeVote : Multiset ℚ) =
      feesOf (countedTxns includeVote l) := by
    intro includeVote
    rw [globalPart, h.fees_eq, coe_counted_ofTxns]
  cases c with
  | calculation1 accounts includeVote includeEmptySlots lookback =>
    cases d with
    | global => exact hglobal includeVote
    | account a => rfl
    | allAccounts =>
      have huntouched : v.Untouched accounts ↔ ∀ a ∈ accounts, accountLog a l = [] := by
        refine forall₂_congr fun a _ => ?_
        rw [h.mem_accountFees_iff, not_not]
      have hparts := v.coe_allAccountsPart includeVote accounts
      simp only [h.coe_accountPart] at hparts
      change (v.allAccountsPart includeVote includeEmptySlots accounts : Multiset ℚ) = _ + _
      rw [← hparts, allAccountsPart, allAccountsPart]
      simp only [Bool.false_eq_true, and_false, if_false, List.append_nil, ← Multiset.coe_add,
        huntouched]
      split <;> rfl
  | calculation2 accounts includeVote includeEmptySlots lookback =>
    cases d with
    | global => exact hglobal includeVote
    | allAccounts => rfl
    | account a =>
      have hrepeat : ∀ k, (((List.replicate k
          (v.accountPart includeVote includeEmptySlots a)).flatten : List ℚ) : Multiset ℚ) =
            k • accountContribution includeVote includeEmptySlots l a := by
        intro k
        induction k with
        | zero => simp
        | succ k ih =>
          rw [List.replicate_succ, List.flatten_cons, ← Multiset.coe_add, ih, succ_nsmul',
            h.coe_accountPart]
      exact hrepeat _

end SlotPriorityFees.Logged

end PriorityFeeEstimator
