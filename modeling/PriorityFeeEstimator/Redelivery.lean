import Mathlib
import PriorityFeeEstimator.Lib.FifoHistory
import PriorityFeeEstimator.Agreement
import PriorityFeeEstimator.LevelOrder
import PriorityFeeEstimator.RelatedStores

/-!
# Blocks that come twice

The stream may deliver a block again, and the tracker does not know: it counts the
transactions once more. While the slot is held this moves no slot out of the window
and brings no new fee into any sample, so it does not move the ends of a sample,
neither then nor after any later pushes.
-/

namespace PriorityFeeEstimator

open SlotPriorityFees

/-- The same values, however often and in whatever order. -/
def SameValues (l l' : List ℚ) : Prop := ∀ q, q ∈ l ↔ q ∈ l'

theorem additive_sameValues : Additive SameValues where
  refl _ _ := Iff.rfl
  append h h' q := by rw [List.mem_append, List.mem_append, h q, h' q]

theorem SameValues.eq_nil_iff {l l' : List ℚ} (h : SameValues l l') : l = [] ↔ l' = [] := by
  rw [List.eq_nil_iff_forall_not_mem, List.eq_nil_iff_forall_not_mem]
  exact forall_congr' fun q => not_congr (h q)

section Logs

variable {l l' : List Txn}

/-- The fees of the same transactions are the same, and so are those of the votes
    among them. -/
theorem Fees.ofTxns_relBy_sameValues (h : ∀ t, t ∈ l ↔ t ∈ l') :
    (Fees.ofTxns l).RelBy SameValues (Fees.ofTxns l') := by
  constructor <;> intro q <;> simp [Fees.ofTxns, h]

theorem Fees.optionRel_recorded_sameValues (h : ∀ t, t ∈ l ↔ t ∈ l') :
    Option.Rel (Fees.RelBy SameValues) (Fees.recorded l) (Fees.recorded l') := by
  have hnil : l = [] ↔ l' = [] := by
    rw [List.eq_nil_iff_forall_not_mem, List.eq_nil_iff_forall_not_mem]
    exact forall_congr' fun t => not_congr (h t)
  by_cases hl : l = []
  · rw [hl, hnil.mp hl]
    exact .none
  · rw [recorded_of_ne_nil hl, recorded_of_ne_nil (mt hnil.mpr hl)]
    exact .some (ofTxns_relBy_sameValues h)

/-- What a slot holds is settled by the set of its transactions, up to the
    repetitions of the fees. -/
theorem optionRel_ofLog_sameValues (s : Slot) (h : ∀ t, t ∈ l ↔ t ∈ l') :
    Option.Rel (SlotPriorityFees.RelBy SameValues) (ofLog s l) (ofLog s l') := by
  have hnil : ofLog s l = none ↔ ofLog s l' = none := by
    rw [ofLog_eq_none_iff, ofLog_eq_none_iff, List.eq_nil_iff_forall_not_mem,
      List.eq_nil_iff_forall_not_mem]
    exact forall_congr' fun t => not_congr (h t)
  cases hv : ofLog s l with
  | none =>
    rw [hnil.mp hv]
    exact .none
  | some v =>
    obtain ⟨v', hv'⟩ := Option.ne_none_iff_exists'.mp (mt hnil.mpr (by simp [hv]))
    have hlog := logged_of_ofLog hv
    have hlog' := logged_of_ofLog hv'
    rw [hv']
    refine .some ⟨hlog.slot_eq.trans hlog'.slot_eq.symm, ?_, fun a => ?_⟩
    · rw [hlog.fees_eq, hlog'.fees_eq]
      exact Fees.ofTxns_relBy_sameValues h
    · rw [hlog.lookup_account, hlog'.lookup_account]
      refine Fees.optionRel_recorded_sameValues fun t => ?_
      rw [mem_accountLog, mem_accountLog, h]

end Logs

/-- The ends of a sample depend on the set of its values only. -/
theorem sampleLevel_eq_of_sameValues {S : Statrs} (hS : S.ExactQuantile) {l l' : List ℚ}
    (h : SameValues l l') {p : PriorityLevel} (hp : p = .min ∨ p = .unsafeMax) :
    sampleLevel S l p = sampleLevel S l' p := by
  by_cases hl : l = []
  · rw [hl, h.eq_nil_iff.mp hl]
  · have hl' := mt h.eq_nil_iff.mpr hl
    rcases hp with rfl | rfl
    · obtain ⟨m, hm, he, hle⟩ := hS.minAtZero l hl
      obtain ⟨m', hm', he', hle'⟩ := hS.minAtZero l' hl'
      have hmm : m = m' := le_antisymm (hle m' ((h m').mpr hm')) (hle' m ((h m).mp hm))
      rw [sampleLevel, sampleLevel, show PriorityLevel.min.percentile = 0 from rfl, he, he', hmm]
    · have hmax : l.maximum = l'.maximum := by
        refine le_antisymm ?_ ?_
        · exact List.maximum_le_of_forall_le fun q hq => List.le_maximum_of_mem' ((h q).mp hq)
        · exact List.maximum_le_of_forall_le fun q hq => List.le_maximum_of_mem' ((h q).mpr hq)
      rw [sampleLevel, sampleLevel, show PriorityLevel.unsafeMax.percentile = 100 from rfl,
        hS.maxAtHundred l hl, hS.maxAtHundred l' hl', hmax]

/-- Transactions delivered again, at any times while their slots are held, leave
    the lowest and the highest level of every request as they are, then and after
    whatever is delivered later. -/
theorem redelivery_keeps_ends {S : Statrs} (hS : S.ExactQuantile) {n : ℕ} (hn : 1 ≤ n)
    {ps ps' : List (Slot × Txn)} (h : KeyedFifo.Repeats n ps ps') (o o' : IterOrder Slot)
    (g g' : IterOrder Group) (c : Calculations) {p : PriorityLevel}
    (hp : p = .min ∨ p = .unsafeMax) :
    (calculatePriorityFee S o g c (PriorityFeeTracker.run n ps).priorityFees).level p =
      (calculatePriorityFee S o' g' c (PriorityFeeTracker.run n ps').priorityFees).level p := by
  have hstores : StoresRelBy SameValues (PriorityFeeTracker.run n ps).priorityFees
      (PriorityFeeTracker.run n ps').priorityFees := by
    intro s
    rw [(Simulates.run hn ps).store, (Simulates.run hn ps').store]
    exact optionRel_ofLog_sameValues s (h.sameRecords.mem_log s)
  refine eq_of_forall_ge_iff fun x => ?_
  rw [calculatePriorityFee_level_le_iff_sample hS.dependsOnMultiset hS.nanOnEmpty,
    calculatePriorityFee_level_le_iff_sample hS.dependsOnMultiset hS.nanOnEmpty]
  refine and_congr_right fun _ => forall_congr' fun d => ?_
  rw [sampleLevel_eq_of_sameValues hS (hstores.sample additive_sameValues o o' c d) hp]

/-- The second transaction of a block comes again, and then a new block: the highest
    level stays, though the middle one moves. -/
theorem redelivery_keeps_ends_once :
    let x : Txn := ⟨[], 100, false, .legacyV0⟩
    let y : Txn := ⟨[], 200, false, .legacyV0⟩
    let levels (ps : List (Slot × Txn)) := calculatePriorityFee .exact (.stored Slot)
      (.stored Group) (.calculation2 [] false false none) (PriorityFeeTracker.run 2 ps).priorityFees
    (levels [(1, x), (1, y), (2, x)]).level .unsafeMax =
        (levels [(1, x), (1, y), (1, y), (2, x)]).level .unsafeMax ∧
      (levels [(1, x), (1, y), (2, x)]).level .medium ≠
        (levels [(1, x), (1, y), (1, y), (2, x)]).level .medium := by
  intro x y levels
  have hrepeats : KeyedFifo.Repeats 2 [(1, x), (1, y), (2, x)] [(1, x), (1, y), (1, y), (2, x)] :=
    .record (.again (.record (.record .nil (1, x)) (1, y)) (e := (1, y)) (by decide)) (2, x)
  exact ⟨redelivery_keeps_ends Statrs.exact_exactQuantile (by decide) hrepeats _ _ _ _ _ (.inr rfl),
    by decide +kernel⟩

end PriorityFeeEstimator
