import Mathlib
import PriorityFeeEstimator.Tracker

/-!
# A push in its atomic steps

A push runs on maps that others use at the same time. Each of its operations on
the set of the cache or on the store is atomic, and so is the section of
`push_pop` that runs under the write lock; between them anything may happen.
`pushStep` takes one such step, and `PushPc` says which one is next and which
slot, if any, is still to be removed for the slot that entered the cache.

Without others the steps add up to `PriorityFeeTracker.push`: `Midway` is what
holds in between.
-/

namespace PriorityFeeEstimator

open SlotPriorityFees

/-- The next step of a push. From `containsKey` on it carries `slot_to_remove`. -/
inductive PushPc where
  | contains
  | locked
  | containsKey (slotToRemove : Option Slot)
  | insert (slotToRemove : Option Slot)
  | andModify (slotToRemove : Option Slot)
  | remove (slot : Slot)
  | returned
deriving DecidableEq

namespace PushPc

/-- Behind the store comes the removal, when there is a slot to remove. -/
def afterStore : Option Slot → PushPc
  | some slotToRemove => remove slotToRemove
  | none => returned

/-- The slot still to be removed. -/
def slotToRemove : PushPc → Option Slot
  | containsKey slotToRemove => slotToRemove
  | insert slotToRemove => slotToRemove
  | andModify slotToRemove => slotToRemove
  | remove slot => some slot
  | _ => none

/-- `push_pop` is still to come. -/
def entering : PushPc → Bool
  | contains => true
  | locked => true
  | _ => false

/-- The slot may still be created by this push. -/
def creating : PushPc → Bool
  | containsKey _ => true
  | insert _ => true
  | pc => pc.entering

/-- The transaction is to be stored by the next step. -/
def storing : PushPc → Bool
  | insert _ => true
  | andModify _ => true
  | _ => false

/-- The transaction has been stored. -/
def stored : PushPc → Bool
  | remove _ => true
  | returned => true
  | _ => false

@[simp] theorem slotToRemove_afterStore (r : Option Slot) : (afterStore r).slotToRemove = r := by
  cases r <;> rfl

@[simp] theorem stored_afterStore (r : Option Slot) : (afterStore r).stored = true := by
  cases r <;> rfl

end PushPc

/-- The next step of the push `p`. -/
def pushStep (p : Slot × Txn) (t : PriorityFeeTracker) : PushPc → PriorityFeeTracker × PushPc
  | .contains => (t, if p.1 ∈ t.slotCache.slotSet then .containsKey none else .locked)
  | .locked =>
    let (slotToRemove, slotCache) := t.slotCache.lockedPushPop p.1
    ({ t with slotCache := slotCache }, .containsKey slotToRemove)
  | .containsKey slotToRemove =>
    (t, if p.1 ∉ t.priorityFees then .insert slotToRemove else .andModify slotToRemove)
  | .insert slotToRemove =>
    let s := newWithVersion p.1 p.2.accounts p.2.priorityFee p.2.isVote p.2.version
    ({ t with priorityFees := t.priorityFees.insert p.1 s }, .afterStore slotToRemove)
  | .andModify slotToRemove =>
    let update s := SlotPriorityFees.update s p.2.accounts p.2.priorityFee p.2.isVote p.2.version
    ({ t with priorityFees := t.priorityFees.modify p.1 update }, .afterStore slotToRemove)
  | .remove slot => ({ t with priorityFees := t.priorityFees.erase slot }, .returned)
  | .returned => (t, .returned)

section Step

variable (p : Slot × Txn) (t : PriorityFeeTracker) (pc : PushPc)

/-- The store after a step, slot by slot: only `insert`, `andModify` and
    `remove` change it, and each in one slot. -/
theorem lookup_pushStep (s : Slot) :
    (pushStep p t pc).1.priorityFees.lookup s =
      match pc with
      | .insert _ => if s = p.1 then some (ofTxn p.1 p.2) else t.priorityFees.lookup s
      | .andModify _ =>
        if s = p.1 then (t.priorityFees.lookup p.1).map (updateTxn · p.2)
        else t.priorityFees.lookup s
      | .remove d => if s = d then none else t.priorityFees.lookup s
      | _ => t.priorityFees.lookup s := by
  cases pc with
  | insert r => exact Table.lookup_insert_eq_ite _ _ _ _
  | andModify r => exact Table.lookup_modify _ _ _ _
  | remove d => exact Table.lookup_erase_eq_ite _ _ _
  | contains => rfl
  | locked => rfl
  | containsKey r => rfl
  | returned => rfl

variable {p t pc}

/-- A slot that is new in the store was inserted. -/
theorem mem_of_mem_pushStep {s : Slot} (h : s ∈ (pushStep p t pc).1.priorityFees) :
    s ∈ t.priorityFees ∨ s = p.1 ∧ ∃ r, pc = .insert r := by
  rw [Table.mem_iff_lookup_ne_none, lookup_pushStep] at h
  rw [Table.mem_iff_lookup_ne_none]
  cases pc with
  | insert r =>
    by_cases hs : s = p.1
    · exact .inr ⟨hs, r, rfl⟩
    · exact .inl (by simpa [hs] using h)
  | andModify r =>
    by_cases hs : s = p.1
    · subst hs
      exact .inl (by simpa using h)
    · exact .inl (by simpa [hs] using h)
  | remove d =>
    by_cases hs : s = d
    · simp [hs] at h
    · exact .inl (by simpa [hs] using h)
  | contains => exact .inl h
  | locked => exact .inl h
  | containsKey r => exact .inl h
  | returned => exact .inl h

/-- A slot that is gone from the store was removed. -/
theorem notMem_of_notMem_pushStep {s : Slot} (h : s ∉ (pushStep p t pc).1.priorityFees) :
    s ∉ t.priorityFees ∨ pc = .remove s := by
  rw [Table.mem_iff_lookup_ne_none, not_not, lookup_pushStep] at h
  rw [Table.mem_iff_lookup_ne_none, not_not]
  cases pc with
  | insert r =>
    by_cases hs : s = p.1
    · simp [hs] at h
    · exact .inl (by simpa [hs] using h)
  | andModify r =>
    by_cases hs : s = p.1
    · subst hs
      exact .inl (by simpa using h)
    · exact .inl (by simpa [hs] using h)
  | remove d =>
    by_cases hs : s = d
    · exact .inr (by rw [hs])
    · exact .inl (by simpa [hs] using h)
  | contains => exact .inl h
  | locked => exact .inl h
  | containsKey r => exact .inl h
  | returned => exact .inl h

/-- The cache stays coherent. -/
theorem coherent_pushStep (h : t.slotCache.Coherent) :
    (pushStep p t pc).1.slotCache.Coherent := by
  cases pc with
  | locked => exact h.lockedPushPop p.1
  | _ => exact h

/-- The capacity of the cache stays as it is. -/
theorem capacity_pushStep (h : t.slotCache.Coherent) :
    (pushStep p t pc).1.slotCache.slotQueue.capacity = t.slotCache.slotQueue.capacity := by
  cases pc with
  | locked =>
    change (t.slotCache.lockedPushPop p.1).2.slotQueue.capacity = _
    rcases h.lockedPushPop_cases p.1 with ⟨-, he⟩ | ⟨-, c', he, -, -, hcap, -⟩ |
      ⟨-, oldest, rest, c', he, -, -, -, hcap, -⟩
    · rw [he]
    · rw [he, hcap]
    · rw [he, hcap]
  | _ => rfl

/-- A slot that is new in the cache is the slot of the push, and the push may
    still create it in the store. -/
theorem mem_of_mem_slotSet_pushStep (hc : t.slotCache.Coherent) {s : Slot}
    (h : s ∈ (pushStep p t pc).1.slotCache.slotSet) :
    s ∈ t.slotCache.slotSet ∨ s = p.1 ∧ (pushStep p t pc).2.creating = true := by
  cases pc with
  | locked =>
    change s ∈ (t.slotCache.lockedPushPop p.1).2.slotSet at h
    rcases hc.lockedPushPop_cases p.1 with ⟨-, he⟩ | ⟨-, c', he, -, -, -, hset⟩ |
      ⟨-, oldest, rest, c', he, -, -, -, -, hset⟩
    · rw [he] at h
      exact .inl h
    · rw [he, hset, Finset.mem_insert] at h
      exact h.symm.imp_right fun hs => ⟨hs, rfl⟩
    · rw [he, hset, Finset.mem_insert] at h
      exact h.symm.imp Finset.mem_of_mem_erase fun hs => ⟨hs, rfl⟩
  | _ => exact .inl h

/-- A slot that is gone from the cache is to be removed from the store. -/
theorem notMem_of_notMem_slotSet_pushStep (hc : t.slotCache.Coherent) {s : Slot}
    (h : s ∉ (pushStep p t pc).1.slotCache.slotSet) :
    s ∉ t.slotCache.slotSet ∨ (pushStep p t pc).2.slotToRemove = some s := by
  cases pc with
  | locked =>
    change s ∉ (t.slotCache.lockedPushPop p.1).2.slotSet at h
    change _ ∨ (t.slotCache.lockedPushPop p.1).1 = some s
    rcases hc.lockedPushPop_cases p.1 with ⟨-, he⟩ | ⟨-, c', he, -, -, -, hset⟩ |
      ⟨-, oldest, rest, c', he, -, -, -, -, hset⟩
    · rw [he] at h
      exact .inl h
    · rw [he, hset, Finset.mem_insert, not_or] at h
      exact .inl h.2
    · rw [he, hset, Finset.mem_insert, Finset.mem_erase, not_or, not_and] at h
      rw [he]
      by_cases hs : s = oldest
      · exact .inr (congrArg some hs.symm)
      · exact .inl (h.2 hs)
  | _ => exact .inl h

/-- A push that may still create its slot does so, or finds it in the store. -/
theorem creating_pushStep (h : pc.creating = true) :
    p.1 ∈ (pushStep p t pc).1.priorityFees ∨ (pushStep p t pc).2.creating = true := by
  cases pc with
  | contains =>
    refine .inr ?_
    by_cases hin : p.1 ∈ t.slotCache.slotSet <;>
      simp [pushStep, hin, PushPc.creating, PushPc.entering]
  | locked => exact .inr rfl
  | containsKey r =>
    by_cases hin : p.1 ∈ t.priorityFees
    · exact .inl hin
    · exact .inr (by simp [pushStep, hin, PushPc.creating])
  | insert r =>
    refine .inl ?_
    rw [Table.mem_iff_lookup_ne_none, lookup_pushStep]
    simp
  | andModify r => cases h
  | remove d => cases h
  | returned => cases h

/-- A push that has yet to pass `push_pop` lets its slot enter the cache, or
    finds it there. -/
theorem entering_pushStep (hc : t.slotCache.Coherent) (h : pc.entering = true) :
    p.1 ∈ (pushStep p t pc).1.slotCache.slotSet ∨ (pushStep p t pc).2.entering = true := by
  cases pc with
  | contains =>
    by_cases hin : p.1 ∈ t.slotCache.slotSet
    · exact .inl hin
    · exact .inr (by simp [pushStep, hin, PushPc.entering])
  | locked => exact .inl (hc.mem_lockedPushPop p.1)
  | containsKey r => cases h
  | insert r => cases h
  | andModify r => cases h
  | remove d => cases h
  | returned => cases h

/-- A slot to be removed stays so until it is removed. -/
theorem slotToRemove_pushStep {d : Slot} (h : pc.slotToRemove = some d) :
    d ∉ (pushStep p t pc).1.priorityFees ∨ (pushStep p t pc).2.slotToRemove = some d := by
  cases pc with
  | contains => cases h
  | locked => cases h
  | containsKey r =>
    refine .inr ?_
    by_cases hin : p.1 ∈ t.priorityFees <;> simpa [pushStep, hin, PushPc.slotToRemove] using h
  | insert r => exact .inr ((PushPc.slotToRemove_afterStore r).trans h)
  | andModify r => exact .inr ((PushPc.slotToRemove_afterStore r).trans h)
  | remove d' =>
    obtain rfl : d' = d := Option.some.inj h
    refine .inl ?_
    rw [Table.mem_iff_lookup_ne_none, not_not, lookup_pushStep]
    simp
  | returned => cases h

/-- The step that stores the transaction, where `insert` finds the slot missing
    and `andModify` finds it there. -/
theorem lookup_pushStep_of_storing (h : pc.storing = true)
    (hinsert : ∀ r, pc = .insert r → p.1 ∉ t.priorityFees)
    (hmodify : ∀ r, pc = .andModify r → p.1 ∈ t.priorityFees) :
    (pushStep p t pc).1.priorityFees.lookup p.1 =
        some (extend p.1 p.2 (t.priorityFees.lookup p.1)) ∧
      (pushStep p t pc).2.stored = true := by
  cases pc with
  | insert r =>
    refine ⟨?_, PushPc.stored_afterStore r⟩
    rw [lookup_pushStep, AList.lookup_eq_none.mpr (hinsert r rfl)]
    simp [extend]
  | andModify r =>
    obtain ⟨v, hv⟩ := Table.mem_iff_exists_lookup.mp (hmodify r rfl)
    refine ⟨?_, PushPc.stored_afterStore r⟩
    rw [lookup_pushStep, hv]
    simp [extend]
  | contains => cases h
  | locked => cases h
  | containsKey r => cases h
  | remove d => cases h
  | returned => cases h

/-- A step that neither stores nor removes leaves what is stored as it is. -/
theorem stored_pushStep (h : pc.storing = false) : (pushStep p t pc).2.stored = pc.stored := by
  cases pc with
  | contains =>
    by_cases hin : p.1 ∈ t.slotCache.slotSet <;> simp [pushStep, hin, PushPc.stored]
  | locked => rfl
  | containsKey r => by_cases hin : p.1 ∈ t.priorityFees <;> simp [pushStep, hin, PushPc.stored]
  | insert r => cases h
  | andModify r => cases h
  | remove d => rfl
  | returned => rfl

/-- A slot stays as it is unless the step stores in it or removes it. -/
theorem lookup_pushStep_of_ne {s : Slot} (h : pc.storing = true → s ≠ p.1)
    (hremove : pc ≠ .remove s) :
    (pushStep p t pc).1.priorityFees.lookup s = t.priorityFees.lookup s := by
  rw [lookup_pushStep]
  cases pc with
  | insert r => exact if_neg (h rfl)
  | andModify r => exact if_neg (h rfl)
  | remove d => exact if_neg fun hs : s = d => hremove (by rw [hs])
  | contains => rfl
  | locked => rfl
  | containsKey r => rfl
  | returned => rfl

/-- Where nothing has to leave the cache, nothing is to be removed. -/
theorem slotToRemove_pushStep_eq_none (h : pc.slotToRemove = none)
    (hroom : (t.slotCache.lockedPushPop p.1).1 = none) :
    (pushStep p t pc).2.slotToRemove = none := by
  cases pc with
  | contains =>
    by_cases hin : p.1 ∈ t.slotCache.slotSet <;> simp [pushStep, hin, PushPc.slotToRemove]
  | locked => exact hroom
  | containsKey r =>
    by_cases hin : p.1 ∈ t.priorityFees <;> simpa [pushStep, hin, PushPc.slotToRemove] using h
  | insert r => exact (PushPc.slotToRemove_afterStore r).trans h
  | andModify r => exact (PushPc.slotToRemove_afterStore r).trans h
  | remove d => rfl
  | returned => rfl

/-- A push about to extend its slot has just found it, or was about to before. -/
theorem of_pushStep_eq_andModify {r : Option Slot} (h : (pushStep p t pc).2 = .andModify r) :
    p.1 ∈ t.priorityFees := by
  cases pc with
  | contains => by_cases hin : p.1 ∈ t.slotCache.slotSet <;> simp [pushStep, hin] at h
  | locked => cases h
  | containsKey r' =>
    by_contra hout
    simp [pushStep, hout] at h
  | insert r' => cases r' <;> cases h
  | andModify r' => cases r' <;> cases h
  | remove d => cases h
  | returned => cases h

end Step

/-- The state of the tracker `t` at each step of the push `p`, when the push
    began on `t₀` and nobody else has changed the tracker since. -/
def Midway (t₀ : PriorityFeeTracker) (p : Slot × Txn) (t : PriorityFeeTracker) : PushPc → Prop
  | .contains => t = t₀
  | .locked => t = t₀ ∧ p.1 ∉ t₀.slotCache.slotSet
  | .containsKey r => t.priorityFees = t₀.priorityFees ∧ (r, t.slotCache) = t₀.slotCache.pushPop p.1
  | .insert r => t.priorityFees = t₀.priorityFees ∧ (r, t.slotCache) = t₀.slotCache.pushPop p.1 ∧
      p.1 ∉ t₀.priorityFees
  | .andModify r => t.priorityFees = t₀.priorityFees ∧
      (r, t.slotCache) = t₀.slotCache.pushPop p.1 ∧ p.1 ∈ t₀.priorityFees
  | .remove d => t.priorityFees = .store t₀.priorityFees p.1 p.2.accounts p.2.priorityFee
      p.2.isVote p.2.version ∧ (some d, t.slotCache) = t₀.slotCache.pushPop p.1
  | .returned => t = t₀.push p

namespace Midway

variable {t₀ t : PriorityFeeTracker} {p : Slot × Txn} {pc : PushPc}

/-- What the store holds once the transaction is stored. -/
theorem afterStore {r : Option Slot}
    (hstore : t.priorityFees = .store t₀.priorityFees p.1 p.2.accounts p.2.priorityFee p.2.isVote
      p.2.version)
    (hcache : (r, t.slotCache) = t₀.slotCache.pushPop p.1) : Midway t₀ p t (.afterStore r) := by
  cases r with
  | some d => exact ⟨hstore, hcache⟩
  | none =>
    change t = t₀.push p
    rw [PriorityFeeTracker.push, PriorityFeeTracker.pushPriorityFeeForTxnWithVersion, ← hcache,
      ← hstore]

theorem step (h : Midway t₀ p t pc) : Midway t₀ p (pushStep p t pc).1 (pushStep p t pc).2 := by
  cases pc with
  | contains =>
    obtain rfl := h
    by_cases hin : p.1 ∈ t.slotCache.slotSet
    · simp [pushStep, hin, Midway, SlotCache.pushPop]
    · simp [pushStep, hin, Midway]
  | locked =>
    obtain ⟨rfl, -⟩ := h
    refine ⟨rfl, ?_⟩
    rw [SlotCache.pushPop_eq_lockedPushPop]
    rfl
  | containsKey r =>
    obtain ⟨hstore, hcache⟩ := h
    by_cases hin : p.1 ∈ t.priorityFees
    · simp only [pushStep, hin, not_true_eq_false, if_false]
      exact ⟨hstore, hcache, hstore ▸ hin⟩
    · simp only [pushStep, hin, not_false_eq_true, if_true]
      exact ⟨hstore, hcache, hstore ▸ hin⟩
  | insert r =>
    obtain ⟨hstore, hcache, hout⟩ := h
    refine afterStore ?_ hcache
    rw [PriorityFeesBySlot.store, if_pos hout, ← hstore]
    rfl
  | andModify r =>
    obtain ⟨hstore, hcache, hin⟩ := h
    refine afterStore ?_ hcache
    rw [PriorityFeesBySlot.store, if_neg (not_not.mpr hin), ← hstore]
    rfl
  | remove d =>
    obtain ⟨hstore, hcache⟩ := h
    change _ = t₀.push p
    rw [PriorityFeeTracker.push, PriorityFeeTracker.pushPriorityFeeForTxnWithVersion, ← hcache,
      ← hstore]
    rfl
  | returned => exact h

/-- The slots whose lists are as after the push already. -/
def ahead : PushPc → Slot → Prop
  | .remove d, s => s ≠ d
  | .returned, _ => True
  | _, _ => False

instance (pc : PushPc) (s : Slot) : Decidable (ahead pc s) :=
  match pc with
  | .remove d => inferInstanceAs (Decidable (s ≠ d))
  | .returned => inferInstanceAs (Decidable True)
  | .contains | .locked | .containsKey _ | .insert _ | .andModify _ =>
    inferInstanceAs (Decidable False)

/-- At every step the lists of a slot are those before the push or those after
    it. -/
theorem lookup_eq (h : Midway t₀ p t pc) (hc : t₀.slotCache.Coherent) (s : Slot) :
    t.priorityFees.lookup s =
      if ahead pc s then (t₀.push p).priorityFees.lookup s else t₀.priorityFees.lookup s := by
  cases pc with
  | contains => rw [show t = t₀ from h]; rfl
  | locked => rw [show t = t₀ from h.1]; rfl
  | containsKey r => rw [h.1]; rfl
  | insert r => rw [h.1]; rfl
  | andModify r => rw [h.1]; rfl
  | remove d =>
    have hpop : (t₀.slotCache.pushPop p.1).1 = some d := congrArg Prod.fst h.2.symm
    rw [h.1, PriorityFeesBySlot.lookup_store, PriorityFeeTracker.lookup_push, hpop]
    by_cases hs : s = d
    · -- the slot on its way out is not the slot of the push
      subst hs
      have hne : s ≠ p.1 := fun e => hc.pushPop_ne p.1 (e ▸ hpop)
      simp [ahead, hne]
    · simp [ahead, hs, Ne.symm hs]
  | returned => rw [show t = t₀.push p from h]; rfl

end Midway

/-- How many steps a push has left at most. -/
def PushPc.rank : PushPc → ℕ
  | contains => 5
  | locked => 4
  | containsKey _ => 3
  | insert _ => 2
  | andModify _ => 2
  | remove _ => 1
  | returned => 0

theorem rank_pushStep_lt (p : Slot × Txn) (t : PriorityFeeTracker) {pc : PushPc}
    (h : pc ≠ .returned) : (pushStep p t pc).2.rank < pc.rank := by
  have hafter : ∀ r, (PushPc.afterStore r).rank < 2 := by
    intro r
    cases r with
    | none => exact Nat.zero_lt_two
    | some d => exact Nat.one_lt_two
  cases pc with
  | contains =>
    by_cases hin : p.1 ∈ t.slotCache.slotSet <;> simp [pushStep, hin, PushPc.rank]
  | locked => exact Nat.lt_succ_self 3
  | containsKey r => by_cases hin : p.1 ∈ t.priorityFees <;> simp [pushStep, hin, PushPc.rank]
  | insert r => exact hafter r
  | andModify r => exact hafter r
  | remove d => exact Nat.zero_lt_one
  | returned => exact absurd rfl h

/-- Five steps nobody interferes with make the push, whatever the capacity of
    the cache. -/
theorem iterate_pushStep (p : Slot × Txn) (t : PriorityFeeTracker) :
    (fun x : PriorityFeeTracker × PushPc => pushStep p x.1 x.2)^[5] (t, .contains) =
      (t.push p, .returned) := by
  have hrun : ∀ k, ∀ x : PriorityFeeTracker × PushPc, Midway t p x.1 x.2 → x.2.rank ≤ k →
      (fun x : PriorityFeeTracker × PushPc => pushStep p x.1 x.2)^[k] x =
        (t.push p, .returned) := by
    intro k
    induction k with
    | zero =>
      rintro ⟨t', pc⟩ h hrank
      cases pc with
      | returned => exact Prod.ext h rfl
      | _ => simp [PushPc.rank] at hrank
    | succ k ih =>
      rintro ⟨t', pc⟩ h hrank
      rw [Function.iterate_succ_apply]
      refine ih _ h.step ?_
      by_cases hpc : pc = .returned
      · subst hpc
        exact Nat.zero_le k
      · have hlt := rank_pushStep_lt p t' hpc
        exact Nat.le_of_lt_succ (hlt.trans_le hrank)
  exact hrun 5 (t, .contains) rfl le_rfl

end PriorityFeeEstimator
