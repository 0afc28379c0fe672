import Mathlib
import PriorityFeeEstimator.Estimates
import PriorityFeeEstimator.RelatedStores

/-!
# Stores up to the order of fees

Two stores are equivalent when they hold the same slots and, in each, the same
entries with the same fees, counted with repetition. No estimate tells
equivalent stores apart.
-/

namespace PriorityFeeEstimator

open SlotPriorityFees

/-- The same fees, counted with repetition. -/
structure Fees.Equiv (f g : Fees) : Prop where
  nonVote : f.nonVoteFees.Perm g.nonVoteFees
  vote : f.voteFees.Perm g.voteFees

/-- The same slot, the same Global fees, and under every account and every
    version the same entry. -/
structure SlotPriorityFees.Equiv (s s' : SlotPriorityFees) : Prop where
  slot : s.slot = s'.slot
  fees : s.fees.Equiv s'.fees
  account : ∀ a, Option.Rel Fees.Equiv (s.accountFees.lookup a) (s'.accountFees.lookup a)
  version : ∀ v, Option.Rel Fees.Equiv (s.versionFees.lookup v) (s'.versionFees.lookup v)

/-- The same slots with equivalent values. -/
def StoreEquiv (m m' : PriorityFeesBySlot) : Prop :=
  ∀ s, Option.Rel SlotPriorityFees.Equiv (m.lookup s) (m'.lookup s)

namespace Fees.Equiv

theorem refl (f : Fees) : f.Equiv f := ⟨.refl _, .refl _⟩

theorem relBy {f g : Fees} (h : f.Equiv g) : f.RelBy List.Perm g := ⟨h.nonVote, h.vote⟩

theorem append {f f' g g' : Fees} (h : f.Equiv g) (h' : f'.Equiv g') :
    (f.append f').Equiv (g.append g') :=
  ⟨h.nonVote.append h'.nonVote, h.vote.append h'.vote⟩

theorem ofTxns {l l' : List Txn} (h : l.Perm l') : (Fees.ofTxns l).Equiv (Fees.ofTxns l') :=
  ⟨(h.filter _).map _, (h.filter _).map _⟩

/-- The order of the transactions added under a key does not matter. -/
theorem extended (entry : Option Fees) {l l' : List Txn} (h : l.Perm l') :
    Option.Rel Fees.Equiv (Fees.extended entry l) (Fees.extended entry l') := by
  by_cases hl : l = []
  · obtain rfl := hl
    rw [h.nil_eq.symm, extended_nil]
    exact optionRel_refl refl entry
  · rw [extended_of_ne_nil _ hl, extended_of_ne_nil _ fun hl' => hl (hl' ▸ h).eq_nil]
    exact .some ((refl _).append (ofTxns h))

end Fees.Equiv

namespace SlotPriorityFees.Equiv

variable {s s' : SlotPriorityFees}

theorem refl (s : SlotPriorityFees) : s.Equiv s where
  slot := rfl
  fees := .refl _
  account _ := optionRel_refl .refl _
  version _ := optionRel_refl .refl _

theorem relBy (h : s.Equiv s') : s.RelBy List.Perm s' where
  slot := h.slot
  fees := h.fees.relBy
  account a := optionRel_imp (fun _ _ => Fees.Equiv.relBy) (h.account a)

end SlotPriorityFees.Equiv

namespace StoreEquiv

variable {m m' : PriorityFeesBySlot}

theorem refl (m : PriorityFeesBySlot) : StoreEquiv m m :=
  fun _ => optionRel_refl SlotPriorityFees.Equiv.refl _

/-- Equivalent stores give the same samples. -/
theorem sameSamples (h : StoreEquiv m m') (o o' : IterOrder Slot) (c : Calculations) :
    (c.getPriorityFeeEstimates o m).SameSamples (c.getPriorityFeeEstimates o' m') := by
  have hrel : StoresRelBy List.Perm m m' := fun s =>
    optionRel_imp (fun _ _ => SlotPriorityFees.Equiv.relBy) (h s)
  intro d
  exact hrel.sample additive_perm o o' c d

/-- Equivalent stores give the same levels. -/
theorem calculatePriorityFee_eq (h : StoreEquiv m m') {S : Statrs} (hS : S.DependsOnMultiset)
    (hnan : S.NanOnEmpty) (o o' : IterOrder Slot) (g g' : IterOrder Group) (c : Calculations) :
    calculatePriorityFee S o g c m = calculatePriorityFee S o' g' c m' :=
  calculatePriorityFee_congr hS hnan (h.sameSamples o o' c)

end StoreEquiv

end PriorityFeeEstimator
