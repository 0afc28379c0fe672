import Mathlib
import PriorityFeeEstimator.Lib.Interleaving
import PriorityFeeEstimator.Concurrency.PushSteps
import PriorityFeeEstimator.StoreEquiv

/-!
# Pushes beside each other

Several callers push to one tracker, each one transaction, and their atomic
steps come in any order. Two steps of a push rest on what an earlier step of it
has seen: `insert` on the answer of `contains_key`, and `remove` on the eviction
from the cache. When the answer is out of date by then, the coupling of the cache
and the store, or an update, may be lost. `Settling` and `StoringOnce` are what
these steps need of the state they are taken in.
-/

namespace PriorityFeeEstimator

open SlotPriorityFees

/-- The shared tracker and the next step of each caller. -/
structure Pushing (calls : List (Slot × Txn)) where
  tracker : PriorityFeeTracker
  pcs : Fin calls.length → PushPc

namespace Pushing

variable {calls : List (Slot × Txn)}

/-- A fresh tracker, and callers that have not begun. -/
def start (n : ℕ) (calls : List (Slot × Txn)) : Pushing calls where
  tracker := .new n
  pcs := fun _ => .contains

/-- The next step of caller `i`. -/
def step (x : Pushing calls) (i : Fin calls.length) : Pushing calls :=
  let (tracker, pc) := pushStep (calls.get i) x.tracker (x.pcs i)
  { tracker := tracker, pcs := Function.update x.pcs i pc }

/-- A run of the callers on a fresh tracker. -/
def run (n : ℕ) (calls : List (Slot × Txn)) (es : List (Fin calls.length)) : Pushing calls :=
  es.foldl step (start n calls)

/-- Every caller has returned. -/
def Finished (x : Pushing calls) : Prop := ∀ i, x.pcs i = .returned

instance (x : Pushing calls) : Decidable x.Finished :=
  inferInstanceAs (Decidable (∀ i, x.pcs i = .returned))

/-- Some caller has the slot to remove still. -/
def Removing (x : Pushing calls) (s : Slot) : Prop := ∃ j, (x.pcs j).slotToRemove = some s

/-- Some caller with this slot has `push_pop` to pass still. -/
def Entering (x : Pushing calls) (s : Slot) : Prop :=
  ∃ j, (calls.get j).1 = s ∧ (x.pcs j).entering = true

/-- Some caller with this slot may create it still. -/
def Creating (x : Pushing calls) (s : Slot) : Prop :=
  ∃ j, (calls.get j).1 = s ∧ (x.pcs j).creating = true

instance (x : Pushing calls) (s : Slot) : Decidable (x.Removing s) :=
  inferInstanceAs (Decidable (∃ j, (x.pcs j).slotToRemove = some s))

instance (x : Pushing calls) (s : Slot) : Decidable (x.Entering s) :=
  inferInstanceAs (Decidable (∃ j, (calls.get j).1 = s ∧ (x.pcs j).entering = true))

instance (x : Pushing calls) (s : Slot) : Decidable (x.Creating s) :=
  inferInstanceAs (Decidable (∃ j, (calls.get j).1 = s ∧ (x.pcs j).creating = true))

/-- A slot is created only where the cache holds it, or some caller will remove
    it or let it enter; a slot of the cache is removed only where some caller may
    create it again. -/
def SettlingAt (x : Pushing calls) (slot : Slot) : PushPc → Prop
  | .insert _ => slot ∈ x.tracker.slotCache.slotSet ∨ x.Removing slot ∨ x.Entering slot
  | .remove s => s ∉ x.tracker.slotCache.slotSet ∨ x.Creating s
  | _ => True

/-- A slot is created only where the store does not hold it, and extended only
    for distinct accounts. -/
def StoringOnceAt (x : Pushing calls) (p : Slot × Txn) : PushPc → Prop
  | .insert _ => p.1 ∉ x.tracker.priorityFees
  | .andModify _ => p.2.accounts.Nodup
  | _ => True

/-- The step of caller `i` leaves no slot in one of cache and store for good. -/
def Settling (x : Pushing calls) (i : Fin calls.length) : Prop :=
  x.SettlingAt (calls.get i).1 (x.pcs i)

/-- The step of caller `i` stores its transaction once, beside all others. -/
def StoringOnce (x : Pushing calls) (i : Fin calls.length) : Prop :=
  x.StoringOnceAt (calls.get i) (x.pcs i)

instance (x : Pushing calls) (slot : Slot) (pc : PushPc) : Decidable (x.SettlingAt slot pc) :=
  match pc with
  | .insert _ => inferInstanceAs (Decidable (_ ∨ _ ∨ _))
  | .remove _ => inferInstanceAs (Decidable (_ ∨ _))
  | .contains | .locked | .containsKey _ | .andModify _ | .returned =>
    inferInstanceAs (Decidable True)

instance (x : Pushing calls) (p : Slot × Txn) (pc : PushPc) : Decidable (x.StoringOnceAt p pc) :=
  match pc with
  | .insert _ => inferInstanceAs (Decidable (_ ∉ _))
  | .andModify _ => inferInstanceAs (Decidable p.2.accounts.Nodup)
  | .contains | .locked | .containsKey _ | .remove _ | .returned =>
    inferInstanceAs (Decidable True)

instance (x : Pushing calls) (i : Fin calls.length) : Decidable (x.Settling i) :=
  inferInstanceAs (Decidable (x.SettlingAt _ _))

instance (x : Pushing calls) (i : Fin calls.length) : Decidable (x.StoringOnce i) :=
  inferInstanceAs (Decidable (x.StoringOnceAt _ _))

variable {n : ℕ} {x : Pushing calls} {i : Fin calls.length}

-- ════════════════════════════════════════════════════════════════════════
-- The coupling of the cache and the store
-- ════════════════════════════════════════════════════════════════════════

/-- A slot that only the cache holds may be created still; a slot that only the
    store holds will be removed, or may enter the cache. -/
structure Coupled (x : Pushing calls) : Prop where
  coherent : x.tracker.slotCache.Coherent
  created : ∀ s ∈ x.tracker.slotCache.slotSet, s ∉ x.tracker.priorityFees → x.Creating s
  removed : ∀ s ∈ x.tracker.priorityFees, s ∉ x.tracker.slotCache.slotSet →
    x.Removing s ∨ x.Entering s

theorem start_coupled (hn : 1 ≤ n) (calls : List (Slot × Txn)) : (start n calls).Coupled where
  coherent := .new hn
  created := fun s hs => absurd hs (Finset.notMem_empty s)
  removed := fun s hs => absurd hs (AList.notMem_empty s)

/-- A caller that may create a slot goes on being one until the slot is there. -/
theorem Creating.step {s : Slot} (h : x.Creating s) (i : Fin calls.length) :
    s ∈ (x.step i).tracker.priorityFees ∨ (x.step i).Creating s := by
  refine exists_update_or (fun j (pc : PushPc) => (calls.get j).1 = s ∧ pc.creating = true) h ?_
  rintro ⟨rfl, hpc⟩
  exact (creating_pushStep hpc).imp_right fun hpc' => ⟨rfl, hpc'⟩

/-- A caller that has a slot to remove goes on having it until it is gone. -/
theorem Removing.step {s : Slot} (h : x.Removing s) (i : Fin calls.length) :
    s ∉ (x.step i).tracker.priorityFees ∨ (x.step i).Removing s :=
  exists_update_or (fun _ (pc : PushPc) => pc.slotToRemove = some s) h slotToRemove_pushStep

/-- A caller that has `push_pop` to pass goes on so until its slot is in the
    cache. -/
theorem Entering.step {s : Slot} (h : x.Entering s) (hc : x.tracker.slotCache.Coherent)
    (i : Fin calls.length) :
    s ∈ (x.step i).tracker.slotCache.slotSet ∨ (x.step i).Entering s := by
  refine exists_update_or (fun j (pc : PushPc) => (calls.get j).1 = s ∧ pc.entering = true) h ?_
  rintro ⟨rfl, hpc⟩
  exact (entering_pushStep hc hpc).imp_right fun hpc' => ⟨rfl, hpc'⟩

private theorem step_pcs_self (x : Pushing calls) (i : Fin calls.length) :
    (x.step i).pcs i = (pushStep (calls.get i) x.tracker (x.pcs i)).2 :=
  Function.update_self ..

private theorem step_pcs_of_ne (x : Pushing calls) {i j : Fin calls.length} (h : j ≠ i) :
    (x.step i).pcs j = x.pcs j :=
  Function.update_of_ne h ..

/-- Every settling step keeps the coupling. -/
theorem Coupled.step (h : x.Coupled) (hsettling : x.Settling i) : (x.step i).Coupled where
  coherent := coherent_pushStep h.coherent
  created := by
    intro s hset hstore
    rcases mem_of_mem_slotSet_pushStep h.coherent hset with hold | ⟨hs, hpc⟩
    · rcases notMem_of_notMem_pushStep hstore with hout | hremove
      · exact ((h.created s hold hout).step i).resolve_left hstore
      · -- the slot is removed although the cache holds it
        have hok : s ∉ x.tracker.slotCache.slotSet ∨ x.Creating s := by
          rw [Settling, hremove] at hsettling
          exact hsettling
        exact ((hok.resolve_left (not_not.mpr hold)).step i).resolve_left hstore
    · exact ⟨i, hs.symm, (congrArg PushPc.creating (step_pcs_self x i)).trans hpc⟩
  removed := by
    intro s hstore hset
    rcases notMem_of_notMem_slotSet_pushStep h.coherent hset with hout | hpc
    · have hpending : x.Removing s ∨ x.Entering s := by
        rcases mem_of_mem_pushStep hstore with hold | ⟨rfl, r, hinsert⟩
        · exact h.removed s hold hout
        · -- the slot is created although the cache does not hold it
          rw [Settling, hinsert] at hsettling
          exact hsettling.resolve_left hout
      rcases hpending with hremoving | hentering
      · exact .inl ((hremoving.step i).resolve_left (not_not.mpr hstore))
      · exact .inr ((hentering.step h.coherent i).resolve_left hset)
    · exact .inl ⟨i, (congrArg PushPc.slotToRemove (step_pcs_self x i)).trans hpc⟩

/-- When all callers have returned, cache and store hold the same slots. -/
theorem Coupled.mem_iff (h : x.Coupled) (hfin : x.Finished) (s : Slot) :
    s ∈ x.tracker.priorityFees ↔ s ∈ x.tracker.slotCache.slotSet := by
  constructor
  · intro hstore
    by_contra hset
    rcases h.removed s hstore hset with ⟨j, hj⟩ | ⟨j, -, hj⟩
    · rw [hfin j] at hj
      cases hj
    · rw [hfin j] at hj
      cases hj
  · intro hset
    by_contra hstore
    obtain ⟨j, -, hj⟩ := h.created s hset hstore
    rw [hfin j] at hj
    cases hj

-- ════════════════════════════════════════════════════════════════════════
-- No more slots than the cache has room for
-- ════════════════════════════════════════════════════════════════════════

/-- The slots of all calls. -/
def slots (calls : List (Slot × Txn)) : Finset Slot := (calls.map Prod.fst).toFinset

theorem get_mem_slots (i : Fin calls.length) : (calls.get i).1 ∈ slots calls :=
  List.mem_toFinset.mpr (List.mem_map_of_mem (List.get_mem calls i))

/-- The cache holds the slot of every caller that has passed `push_pop`, nobody
    has a slot to remove, and who is about to extend a slot will find it. -/
structure Roomy (n : ℕ) (x : Pushing calls) : Prop where
  coupled : x.Coupled
  capacity : x.tracker.slotCache.slotQueue.capacity = n
  subset : x.tracker.slotCache.slotSet ⊆ slots calls
  entered : ∀ j, (x.pcs j).entering = false → (calls.get j).1 ∈ x.tracker.slotCache.slotSet
  staying : ∀ j, (x.pcs j).slotToRemove = none
  present : ∀ j r, x.pcs j = .andModify r → (calls.get j).1 ∈ x.tracker.priorityFees

theorem start_roomy (hn : 1 ≤ n) (calls : List (Slot × Txn)) : (start n calls).Roomy n where
  coupled := start_coupled hn calls
  capacity := rfl
  subset := Finset.empty_subset _
  entered := nofun
  staying := fun _ => rfl
  present := nofun

/-- With room enough every step is a settling one. -/
theorem Roomy.settling (h : x.Roomy n) (i : Fin calls.length) : x.Settling i := by
  rw [Settling]
  cases hpc : x.pcs i with
  | insert r => exact .inl (h.entered i (by rw [hpc]; rfl))
  | remove d =>
    have hstay := h.staying i
    rw [hpc] at hstay
    cases hstay
  | contains => trivial
  | locked => trivial
  | containsKey r => trivial
  | andModify r => trivial
  | returned => trivial

/-- With room enough the slot of the step enters the cache against none. -/
theorem Roomy.lockedPushPop_eq_none (h : x.Roomy n) (hroom : (slots calls).card ≤ n)
    (i : Fin calls.length) : (x.tracker.slotCache.lockedPushPop (calls.get i).1).1 = none := by
  refine h.coupled.coherent.lockedPushPop_eq_none ?_
  rw [h.capacity]
  exact (Finset.card_le_card (Finset.insert_subset (get_mem_slots i) h.subset)).trans hroom

/-- With room enough every step keeps it so. -/
theorem Roomy.step (h : x.Roomy n) (hroom : (slots calls).card ≤ n) (i : Fin calls.length) :
    (x.step i).Roomy n := by
  have hc := h.coupled.coherent
  have hnone : (pushStep (calls.get i) x.tracker (x.pcs i)).2.slotToRemove = none :=
    slotToRemove_pushStep_eq_none (h.staying i) (h.lockedPushPop_eq_none hroom i)
  have hgrows : x.tracker.slotCache.slotSet ⊆ (x.step i).tracker.slotCache.slotSet := by
    intro s hs
    by_contra hout
    rcases notMem_of_notMem_slotSet_pushStep hc hout with hout' | hpc
    · exact hout' hs
    · rw [hnone] at hpc
      cases hpc
  have hkept : ∀ s ∈ x.tracker.priorityFees, s ∈ (x.step i).tracker.priorityFees := by
    intro s hs
    by_contra hout
    rcases notMem_of_notMem_pushStep hout with hout' | hpc
    · exact hout' hs
    · have hstay := h.staying i
      rw [hpc] at hstay
      cases hstay
  refine ⟨h.coupled.step (h.settling i), ?_, fun s hs => ?_, fun j hj => ?_, fun j => ?_,
    fun j r hj => ?_⟩
  · exact (capacity_pushStep hc).trans h.capacity
  · rcases mem_of_mem_slotSet_pushStep hc hs with hold | ⟨rfl, -⟩
    · exact h.subset hold
    · exact get_mem_slots i
  · by_cases hji : j = i
    · subst hji
      rw [step_pcs_self] at hj
      by_cases hentering : (x.pcs j).entering = true
      · refine (entering_pushStep hc hentering).resolve_right fun hentering' => ?_
        exact Bool.false_ne_true (hj.symm.trans hentering')
      · exact hgrows (h.entered j (Bool.eq_false_of_not_eq_true hentering))
    · rw [step_pcs_of_ne x hji] at hj
      exact hgrows (h.entered j hj)
  · by_cases hji : j = i
    · subst hji
      rw [step_pcs_self]
      exact hnone
    · rw [step_pcs_of_ne x hji]
      exact h.staying j
  · by_cases hji : j = i
    · subst hji
      rw [step_pcs_self] at hj
      exact hkept _ (of_pushStep_eq_andModify hj)
    · rw [step_pcs_of_ne x hji] at hj
      exact hkept _ (h.present j r hj)

-- ════════════════════════════════════════════════════════════════════════
-- The transactions stored
-- ════════════════════════════════════════════════════════════════════════

/-- Every slot holds the transactions of the callers that have stored theirs,
    each once, in the order in which they did, and after the first of them only
    transactions without repeated accounts. -/
def Recorded (x : Pushing calls) : Prop :=
  ∀ s, ∃ order : List (Fin calls.length), order.Nodup ∧
    (∀ j, j ∈ order ↔ (calls.get j).1 = s ∧ (x.pcs j).stored = true) ∧
    x.tracker.priorityFees.lookup s = ofLog s (order.map fun j => (calls.get j).2) ∧
    ∀ j ∈ order.tail, (calls.get j).2.accounts.Nodup

theorem start_recorded (n : ℕ) (calls : List (Slot × Txn)) : (start n calls).Recorded :=
  fun _ => ⟨[], List.nodup_nil, by simp [start, PushPc.stored], rfl, by simp⟩

/-- A step that stores its transaction once, with room enough. -/
theorem Recorded.step (h : x.Recorded) (hroomy : x.Roomy n) (honce : x.StoringOnce i) :
    (x.step i).Recorded := by
  intro s
  obtain ⟨order, hnd, hmem, hlookup, haccounts⟩ := h s
  have hnoremove : ∀ d, x.pcs i ≠ .remove d := by
    intro d hpc
    have hstay := hroomy.staying i
    rw [hpc] at hstay
    cases hstay
  by_cases hstores : (x.pcs i).storing = true ∧ s = (calls.get i).1
  · -- the transaction of caller `i` comes behind those stored before
    obtain ⟨hstoring, rfl⟩ := hstores
    have hnew : i ∉ order := by
      intro hi
      have hstored := ((hmem i).mp hi).2
      cases hpc : x.pcs i <;> simp_all [PushPc.storing, PushPc.stored]
    have hinsert : ∀ r, x.pcs i = .insert r → (calls.get i).1 ∉ x.tracker.priorityFees := by
      intro r hpc
      rw [StoringOnce, hpc] at honce
      exact honce
    obtain ⟨hlookup', hstored⟩ := lookup_pushStep_of_storing hstoring hinsert (hroomy.present i)
    refine ⟨order ++ [i], ?_, fun j => ?_, ?_, fun j hj => ?_⟩
    · rw [List.nodup_append]
      refine ⟨hnd, List.nodup_singleton i, ?_⟩
      rintro j hj _ hi rfl
      exact hnew (List.mem_singleton.mp hi ▸ hj)
    · rw [List.mem_append, List.mem_singleton, hmem]
      by_cases hji : j = i
      · subst hji
        rw [step_pcs_self]
        exact iff_of_true (.inr rfl) ⟨rfl, hstored⟩
      · rw [step_pcs_of_ne x hji]
        simp only [hji, or_false]
    · rw [List.map_append, List.map_singleton, ofLog_concat, ← hlookup]
      exact hlookup'
    · cases order with
      | nil => cases hj
      | cons first rest =>
        rcases List.mem_append.mp hj with hold | hi
        · exact haccounts j hold
        · -- the slot is there already, so the step extends it
          obtain rfl := List.mem_singleton.mp hi
          cases hpc : x.pcs j with
          | andModify r =>
            rw [StoringOnce, hpc] at honce
            exact honce
          | insert r =>
            refine absurd ?_ (hinsert r hpc)
            rw [Table.mem_iff_lookup_ne_none, hlookup, Ne, ofLog_eq_none_iff]
            simp
          | _ => rw [hpc] at hstoring; cases hstoring
  · -- the slot stays as it is
    refine ⟨order, hnd, fun j => ?_, ?_, haccounts⟩
    · rw [hmem]
      by_cases hji : j = i
      · subst hji
        rw [step_pcs_self]
        refine and_congr_right fun hs => ?_
        have hstoring : (x.pcs j).storing = false :=
          Bool.eq_false_of_not_eq_true fun hst => hstores ⟨hst, hs.symm⟩
        rw [stored_pushStep hstoring]
      · rw [step_pcs_of_ne x hji]
    · rw [← hlookup]
      exact lookup_pushStep_of_ne (fun hst hs => hstores ⟨hst, hs⟩) (hnoremove s)

/-- The transactions of all calls with this slot. -/
def pushedTo (calls : List (Slot × Txn)) (s : Slot) : List Txn :=
  (calls.filter fun p => p.1 = s).map Prod.snd

/-- Callers listed once each carry the transactions of their calls. -/
theorem map_perm_pushedTo {order : List (Fin calls.length)} (hnd : order.Nodup) {s : Slot}
    (hmem : ∀ j, j ∈ order ↔ (calls.get j).1 = s) :
    (order.map fun j => (calls.get j).2).Perm (pushedTo calls s) := by
  have horder : order.Perm ((List.finRange calls.length).filter fun j => (calls.get j).1 = s) := by
    refine (List.perm_ext_iff_of_nodup hnd ((List.nodup_finRange _).filter _)).mpr fun j => ?_
    rw [hmem, List.mem_filter]
    simp
  have hcalls : pushedTo calls s =
      ((List.finRange calls.length).filter fun j => (calls.get j).1 = s).map
        fun j => (calls.get j).2 := by
    conv_lhs => rw [pushedTo, ← List.map_get_finRange calls, List.filter_map, List.map_map]
    rfl
  rw [hcalls]
  exact horder.map _

/-- When all callers have returned, each transaction is stored once. -/
theorem Recorded.of_finished (h : x.Recorded) (hfin : x.Finished) {s : Slot}
    (hs : pushedTo calls s ≠ []) :
    ∃ v, x.tracker.priorityFees.lookup s = some v ∧
      v.fees.Equiv (Fees.ofTxns (pushedTo calls s)) ∧
      ∀ a, Option.Rel Fees.Equiv (v.accountFees.lookup a)
        (Fees.recorded ((pushedTo calls s).filter fun t => a ∈ t.accounts)) := by
  obtain ⟨order, hnd, hmem, hlookup, haccounts⟩ := h s
  have hperm : (order.map fun j => (calls.get j).2).Perm (pushedTo calls s) := by
    refine map_perm_pushedTo hnd fun j => (hmem j).trans (and_iff_left ?_)
    rw [hfin j]
    rfl
  cases hv : ofLog s (order.map fun j => (calls.get j).2) with
  | none =>
    rw [ofLog_eq_none_iff.mp hv] at hperm
    exact absurd hperm.nil_eq.symm hs
  | some v =>
    have hlog := logged_of_ofLog hv
    refine ⟨v, hlookup.trans hv, hlog.fees_eq ▸ .ofTxns hperm, fun a => ?_⟩
    have htail : ∀ t ∈ (order.map fun j => (calls.get j).2).tail, t.accounts.Nodup := by
      intro t ht
      rw [← List.map_tail] at ht
      obtain ⟨j, hj, rfl⟩ := List.mem_map.mp ht
      exact haccounts j hj
    rw [hlog.lookup_account, accountLog_eq_filter htail, Fees.recorded_eq_extended,
      Fees.recorded_eq_extended]
    exact Fees.Equiv.extended none (hperm.filter _)

end Pushing

open Pushing

/-- Any number of callers push one transaction each to a fresh tracker, in any
    interleaving, and have all returned. When every step was a settling one, the
    keys of the store are the slots of the cache. When the calls touch no more
    slots than the cache has room for, this holds in any case; and when every
    step stored its transaction once, each slot holds the fee of each of its
    calls once under Global, and once under each account the call names. -/
theorem concurrent_pushes {n : ℕ} (hn : 1 ≤ n) (calls : List (Slot × Txn))
    (es : List (Fin calls.length))
    (hfin : (Pushing.run n calls es).Finished) :
    let x := Pushing.run n calls es
    (Allowed Pushing.step Settling (.start n calls) es →
      ∀ s, s ∈ x.tracker.priorityFees ↔ s ∈ x.tracker.slotCache.slotSet) ∧
    ((Pushing.slots calls).card ≤ n →
      (∀ s, s ∈ x.tracker.priorityFees ↔ s ∈ x.tracker.slotCache.slotSet) ∧
      (Allowed Pushing.step StoringOnce (.start n calls) es → ∀ s, pushedTo calls s ≠ [] →
        ∃ v, x.tracker.priorityFees.lookup s = some v ∧
          v.fees.Equiv (Fees.ofTxns (pushedTo calls s)) ∧
          ∀ a, Option.Rel Fees.Equiv (v.accountFees.lookup a)
            (Fees.recorded ((pushedTo calls s).filter fun t => a ∈ t.accounts)))) := by
  intro x
  refine ⟨fun hsettling => ?_, fun hroom => ⟨?_, fun honce s hs => ?_⟩⟩
  · have hcoupled : x.Coupled :=
      hsettling.invariant_foldl Coupled (fun _ _ h hok => h.step hok) (start_coupled hn calls)
    exact hcoupled.mem_iff hfin
  · have hroomy : x.Roomy n :=
      invariant_foldl (Roomy n) (fun _ i h => h.step hroom i) (start_roomy hn calls) es
    exact hroomy.coupled.mem_iff hfin
  · have hboth : x.Roomy n ∧ x.Recorded :=
      honce.invariant_foldl (fun x => x.Roomy n ∧ x.Recorded)
        (fun _ i h hok => ⟨h.1.step hroom i, h.2.step h.1 hok⟩)
        ⟨start_roomy hn calls, start_recorded n calls⟩
    exact hboth.2.of_finished hfin hs

/-- Two callers admit a slot together; the second finds it created by the
    first. -/
theorem concurrent_pushes_same_slot :
    let key := Pubkey.filled 1
    let calls : List (Slot × Txn) :=
      [(1, ⟨[key], 100, false, .legacyV0⟩), (1, ⟨[key], 200, false, .legacyV0⟩)]
    let es : List (Fin calls.length) := [0, 1, 0, 1, 0, 0, 1, 1]
    let x := Pushing.run 1 calls es
    (∀ s, s ∈ x.tracker.priorityFees ↔ s ∈ x.tracker.slotCache.slotSet) ∧
    ∃ v, x.tracker.priorityFees.lookup 1 = some v ∧ v.fees.Equiv ⟨[100, 200], []⟩ ∧
      Option.Rel Fees.Equiv (v.accountFees.lookup key) (some ⟨[100, 200], []⟩) := by
  intro key calls es
  have h := concurrent_pushes (n := 1) le_rfl calls es (by decide +kernel)
  refine ⟨h.1 (by decide +kernel), ?_⟩
  obtain ⟨v, hv, hfees, haccounts⟩ :=
    (h.2 (by decide +kernel)).2 (by decide +kernel) 1 (by decide +kernel)
  have hglobal : Fees.ofTxns (pushedTo calls 1) = ⟨[100, 200], []⟩ := by decide +kernel
  have hkey : Fees.recorded ((pushedTo calls 1).filter fun t => key ∈ t.accounts) =
      some ⟨[100, 200], []⟩ := by
    decide +kernel
  exact ⟨v, hv, hglobal ▸ hfees, hkey ▸ haccounts key⟩

/-- Two callers on one slot both find it missing, and the second creates it over
    the first: the rate 100 is lost. And a caller whose slot has left the cache,
    and was removed, before it creates it: slot 1 stays in the store for good. -/
theorem concurrent_pushes_race :
    (let calls : List (Slot × Txn) :=
      [(1, ⟨[], 100, false, .legacyV0⟩), (1, ⟨[], 200, false, .legacyV0⟩)]
    let es : List (Fin calls.length) := [0, 0, 1, 0, 1, 0, 1]
    let x := Pushing.run 1 calls es
    x.Finished ∧ (Pushing.slots calls).card ≤ 1 ∧
      (x.tracker.priorityFees.lookup 1).map (·.fees) = some ⟨[200], []⟩) ∧
    let calls : List (Slot × Txn) :=
      [(1, ⟨[], 100, false, .legacyV0⟩), (2, ⟨[], 200, false, .legacyV0⟩)]
    let es : List (Fin calls.length) := [0, 0, 1, 1, 1, 1, 1, 0, 0]
    let x := Pushing.run 1 calls es
    x.Finished ∧ 1 ∈ x.tracker.priorityFees ∧ 1 ∉ x.tracker.slotCache.slotSet := by
  decide +kernel

end PriorityFeeEstimator
