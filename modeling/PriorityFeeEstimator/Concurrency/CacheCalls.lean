import Mathlib
import PriorityFeeEstimator.Lib.Linearization
import PriorityFeeEstimator.SlotCache

/-!
# Concurrent calls of the cache

`push_pop` tests membership without the lock, takes the write lock of the buffer,
tests again, and then changes the buffer and the set in three steps that others
can see between: the slot is added to the buffer, the oldest one is removed from
the set, the new one is inserted. Any number of callers do this at once.

All the same each call takes effect at one moment: where a membership test finds
the slot, or where the set receives it. Until then the set of a caller in its
critical section lacks at most slots that are on their way out.
-/

namespace PriorityFeeEstimator

/-- The next step of a call of `push_pop`. -/
inductive PushPopPc where
  | contains
  | write
  | containsLocked
  | add
  | remove (oldestSlot : Slot)
  | insert (maybeOldestSlot : Option Slot)
  | unlock (result : Option Slot)
  | returned (result : Option Slot)
deriving DecidableEq

namespace PushPopPc

/-- The steps between taking the lock and giving it back. -/
def locked : PushPopPc → Bool
  | contains => false
  | write => false
  | returned _ => false
  | _ => true

/-- What the call has returned. -/
def result : PushPopPc → Option (Option Slot)
  | returned result => some result
  | _ => none

/-- The result that is settled, returned or not. -/
def settled : PushPopPc → Option (Option Slot)
  | unlock result => some result
  | returned result => some result
  | _ => none

theorem settled_of_result {pc : PushPopPc} {r : Option Slot} (h : pc.result = some r) :
    pc.settled = some r := by
  cases pc with
  | returned result => exact h
  | _ => cases h

/-- The number of steps left, at most. -/
def rank : PushPopPc → ℕ
  | contains => 7
  | write => 6
  | containsLocked => 5
  | add => 4
  | remove _ => 3
  | insert _ => 2
  | unlock _ => 1
  | returned _ => 0

/-- Behind the addition to the buffer comes the removal of the slot that left
    it, when there is one. -/
def afterAdd : Option Slot → PushPopPc
  | some oldestSlot => remove oldestSlot
  | none => insert none

end PushPopPc

/-- The cache, the caller that holds its write lock, and where each caller is. -/
structure CacheCalls (P : Type) where
  cache : SlotCache
  writer : Option P
  pcs : P → PushPopPc

namespace CacheCalls

/-- No caller has begun. -/
def start (P : Type) (slotCacheLength : ℕ) : CacheCalls P where
  cache := .new slotCacheLength
  writer := none
  pcs := fun _ => .contains

variable {P : Type}

/-- All callers have returned. -/
def Finished (x : CacheCalls P) : Prop := ∀ p, (x.pcs p).result.isSome

/-- The cache in the critical section of a call that began it on the cache `s`. -/
def InSection (slot : Slot) (s cache : SlotCache) : PushPopPc → Prop
  | .containsLocked => cache = s
  | .add => cache = s ∧ slot ∉ s.slotSet
  | .remove oldestSlot => slot ∉ s.slotSet ∧ ∃ slotQueue,
      s.slotQueue.add slot = .ok (some oldestSlot, slotQueue) ∧ cache = ⟨slotQueue, s.slotSet⟩
  | .insert maybeOldestSlot => slot ∉ s.slotSet ∧ ∃ slotQueue,
      s.slotQueue.add slot = .ok (maybeOldestSlot, slotQueue) ∧
      cache = ⟨slotQueue, s.slotSet \ maybeOldestSlot.toFinset⟩
  | .unlock _ => cache = s
  | _ => False

/-- The calls seem to have left the cache `s`: it is there while the lock is free,
    and while a caller holds it that caller is at work on it. -/
structure Represents (slot : P → Slot) (x : CacheCalls P) (s : SlotCache) : Prop where
  writer_iff : ∀ p, x.writer = some p ↔ (x.pcs p).locked = true
  free : x.writer = none → x.cache = s
  inSection : ∀ p, x.writer = some p → InSection (slot p) s x.cache (x.pcs p)

variable {slot : P → Slot} {x : CacheCalls P}

theorem start_represents (n : ℕ) : Represents slot (start P n) (.new n) where
  writer_iff := fun p => by simp [start, PushPopPc.locked]
  free := fun _ => rfl
  inSection := nofun

/-- In the critical section the set lacks at most slots it is about to lose. -/
theorem InSection.subset {slot : Slot} {s cache : SlotCache} {pc : PushPopPc}
    (h : InSection slot s cache pc) : cache.slotSet ⊆ s.slotSet := by
  cases pc with
  | contains => exact h.elim
  | write => exact h.elim
  | containsLocked => rw [show cache = s from h]
  | add => rw [show cache = s from h.1]
  | remove d =>
    obtain ⟨-, q, -, rfl⟩ := h
    exact Finset.Subset.refl _
  | insert r =>
    obtain ⟨-, q, -, rfl⟩ := h
    exact Finset.sdiff_subset
  | unlock r => rw [show cache = s from h]
  | returned r => exact h.elim

/-- A slot that is found is in the cache the calls seem to have left. -/
theorem Represents.mem {s : SlotCache} (h : Represents slot x s) {k : Slot}
    (hk : k ∈ x.cache.slotSet) : k ∈ s.slotSet := by
  cases hw : x.writer with
  | none => exact h.free hw ▸ hk
  | some p => exact (h.inSection p hw).subset hk

/-- The cache as a caller in the critical section knows it. -/
theorem Represents.section_eq {s : SlotCache} (h : Represents slot x s) {p : P} {pc : PushPopPc}
    (hp : x.pcs p = pc) (hpc : pc.locked = true) : InSection (slot p) s x.cache pc :=
  hp ▸ h.inSection p ((h.writer_iff p).mpr (hp ▸ hpc))

/-- A finished run has left the lock free. -/
theorem Represents.writer_eq_none {s : SlotCache} (h : Represents slot x s) (hx : x.Finished) :
    x.writer = none := by
  cases hw : x.writer with
  | none => rfl
  | some p =>
    have hlocked := (h.writer_iff p).mp hw
    have hp := hx p
    cases hpc : x.pcs p with
    | returned r => rw [hpc] at hlocked; cases hlocked
    | _ => rw [hpc] at hp; cases hp

/-- A slot that enters, when it enters. -/
theorem pushPop_of_notMem {s : SlotCache} {slot : Slot} (h : slot ∉ s.slotSet)
    {maybeOldestSlot : Option Slot} {slotQueue : CircularBuffer}
    (hadd : s.slotQueue.add slot = .ok (maybeOldestSlot, slotQueue)) :
    s.pushPop slot = (maybeOldestSlot,
      ⟨slotQueue, insert slot (s.slotSet \ maybeOldestSlot.toFinset)⟩) := by
  rw [SlotCache.pushPop, if_neg h, SlotCache.lockedPushPop, if_neg h, hadd]
  cases maybeOldestSlot with
  | none => simp
  | some d => simp [Finset.sdiff_singleton_eq_erase]

theorem pushPop_of_mem {s : SlotCache} {slot : Slot} (h : slot ∈ s.slotSet) :
    s.pushPop slot = (none, s) := if_pos h

/-- The buffer takes every slot. -/
theorem exists_add_eq_ok (b : CircularBuffer) (slot : Slot) : ∃ r q, b.add slot = .ok (r, q) := by
  unfold CircularBuffer.add
  split
  · exact ⟨_, _, rfl⟩
  · exact ⟨_, _, rfl⟩

variable [DecidableEq P]

/-- Caller `p` comes to `pc`. -/
def goto (x : CacheCalls P) (p : P) (pc : PushPopPc) : CacheCalls P :=
  { x with pcs := Function.update x.pcs p pc }

/-- The next step of caller `p`, which pushes `slot p`. A caller waits for the
    lock while another one holds it. -/
def step (slot : P → Slot) (x : CacheCalls P) (p : P) : CacheCalls P :=
  match x.pcs p with
  | .contains => x.goto p (if slot p ∈ x.cache.slotSet then .returned none else .write)
  | .write => if x.writer.isSome then x else { x.goto p .containsLocked with writer := some p }
  | .containsLocked => x.goto p (if slot p ∈ x.cache.slotSet then .unlock none else .add)
  | .add =>
    match x.cache.slotQueue.add (slot p) with
    | .ok (maybeOldestSlot, slotQueue) =>
      { x.goto p (.afterAdd maybeOldestSlot) with cache := { x.cache with slotQueue := slotQueue } }
    | .error _ => x.goto p (.unlock none)
  | .remove oldestSlot =>
    { x.goto p (.insert (some oldestSlot)) with
      cache := { x.cache with slotSet := x.cache.slotSet.erase oldestSlot } }
  | .insert maybeOldestSlot =>
    { x.goto p (.unlock maybeOldestSlot) with
      cache := { x.cache with slotSet := Insert.insert (slot p) x.cache.slotSet } }
  | .unlock result => { x.goto p (.returned result) with writer := none }
  | .returned _ => x

/-- The steps of the callers `es`, in this order. -/
def run (n : ℕ) (slot : P → Slot) (es : List P) : CacheCalls P := es.foldl (step slot) (start P n)

variable {s : SlotCache} {p : P} {pc : PushPopPc}

theorem pcs_step_of_ne (x : CacheCalls P) {p q : P} (hq : q ≠ p) :
    (step slot x p).pcs q = x.pcs q := by
  unfold step
  split <;> try split
  all_goals first
    | rfl
    | exact Function.update_of_ne hq _ _

@[simp] theorem goto_pcs_self (x : CacheCalls P) (p : P) (pc : PushPopPc) :
    (x.goto p pc).pcs p = pc := Function.update_self _ _ _

theorem goto_pcs_of_ne (x : CacheCalls P) {p q : P} (hq : q ≠ p) (pc : PushPopPc) :
    (x.goto p pc).pcs q = x.pcs q := Function.update_of_ne hq _ _

/-- A step outside the critical section. -/
theorem Represents.outside (h : Represents slot x s) (hp : (x.pcs p).locked = false)
    (hpc : pc.locked = false) : Represents slot (x.goto p pc) s where
  writer_iff := by
    intro q
    change x.writer = some q ↔ _
    rw [h.writer_iff]
    by_cases hq : q = p
    · subst hq
      rw [goto_pcs_self, hp, hpc]
    · rw [goto_pcs_of_ne x hq]
  free := h.free
  inSection := by
    intro q hq
    have hne : q ≠ p := by
      rintro rfl
      rw [(h.writer_iff q).mp hq] at hp
      cases hp
    rw [goto_pcs_of_ne x hne]
    exact h.inSection q hq

/-- A caller takes the lock. -/
theorem Represents.enter (h : Represents slot x s) (hfree : x.writer = none) :
    Represents slot { x.goto p .containsLocked with writer := some p } s where
  writer_iff := by
    intro q
    change some p = some q ↔ ((x.goto p .containsLocked).pcs q).locked = true
    by_cases hq : q = p
    · subst hq
      rw [goto_pcs_self]
      exact iff_of_true rfl rfl
    · have hout : (x.pcs q).locked ≠ true := by
        rw [Ne, ← h.writer_iff, hfree]
        simp
      rw [goto_pcs_of_ne x hq]
      exact iff_of_false (fun he => hq (Option.some.inj he).symm) hout
  free := nofun
  inSection := by
    intro q hq
    obtain rfl : p = q := Option.some.inj hq
    change InSection (slot p) s x.cache ((x.goto p .containsLocked).pcs p)
    rw [goto_pcs_self]
    exact h.free hfree

/-- A step in the critical section. -/
theorem Represents.inside (h : Represents slot x s) {pc₀ : PushPopPc} (hp : x.pcs p = pc₀)
    (hpc₀ : pc₀.locked = true) (hpc : pc.locked = true) {s' cache : SlotCache}
    (hin : InSection (slot p) s' cache pc) :
    Represents slot { x.goto p pc with cache := cache } s' := by
  have hw : x.writer = some p := (h.writer_iff p).mpr (hp ▸ hpc₀)
  refine ⟨fun q => ?_, fun hfree => ?_, fun q hq => ?_⟩
  · change x.writer = some q ↔ ((x.goto p pc).pcs q).locked = true
    rw [h.writer_iff]
    by_cases hq : q = p
    · subst hq
      rw [goto_pcs_self, hp, hpc₀, hpc]
    · rw [goto_pcs_of_ne x hq]
  · rw [show x.writer = none from hfree] at hw
    cases hw
  · rw [show x.writer = some q from hq] at hw
    obtain rfl : q = p := Option.some.inj hw
    change InSection (slot q) s' cache ((x.goto q pc).pcs q)
    rw [goto_pcs_self]
    exact hin

/-- A caller gives the lock back. -/
theorem Represents.leave (h : Represents slot x s) {r : Option Slot} (hp : x.pcs p = .unlock r) :
    Represents slot { x.goto p (.returned r) with writer := none } s := by
  have hw : x.writer = some p := (h.writer_iff p).mpr (by rw [hp]; rfl)
  have hin := h.inSection p hw
  rw [hp] at hin
  refine ⟨fun q => ?_, fun _ => hin, nofun⟩
  change none = some q ↔ ((x.goto p (.returned r)).pcs q).locked = true
  by_cases hq : q = p
  · subst hq
    rw [goto_pcs_self]
    exact iff_of_false nofun nofun
  · have hout : (x.pcs q).locked ≠ true := by
      rw [Ne, ← h.writer_iff, hw, Option.some.injEq]
      exact fun he => hq he.symm
    rw [goto_pcs_of_ne x hq]
    exact iff_of_false nofun hout

/-- The next step of the caller is the moment at which its call takes effect: a
    membership test that finds the slot, or the insertion into the set. -/
def commits (slot : P → Slot) (x : CacheCalls P) (p : P) : Bool :=
  match x.pcs p with
  | .contains => slot p ∈ x.cache.slotSet
  | .containsLocked => slot p ∈ x.cache.slotSet
  | .insert _ => true
  | _ => false

/-- A step that finds the slot, or lets it into the set. -/
theorem Represents.commit (h : Represents slot x s) (hp : commits slot x p = true) :
    (x.pcs p).settled = none ∧ Represents slot (step slot x p) (s.pushPop (slot p)).2 ∧
      ((step slot x p).pcs p).settled = some (s.pushPop (slot p)).1 := by
  cases hpc : x.pcs p with
  | contains =>
    have hmem : slot p ∈ x.cache.slotSet := by simpa [commits, hpc] using hp
    rw [pushPop_of_mem (h.mem hmem)]
    have hstep : step slot x p = x.goto p (.returned none) := by simp [step, hpc, hmem]
    rw [hstep, goto_pcs_self]
    exact ⟨rfl, h.outside (by rw [hpc]; rfl) rfl, rfl⟩
  | containsLocked =>
    have hmem : slot p ∈ x.cache.slotSet := by simpa [commits, hpc] using hp
    rw [pushPop_of_mem (h.mem hmem)]
    have hstep : step slot x p = x.goto p (.unlock none) := by simp [step, hpc, hmem]
    rw [hstep, goto_pcs_self]
    exact ⟨rfl, h.inside hpc rfl rfl (h.section_eq hpc rfl : x.cache = s), rfl⟩
  | insert r =>
    obtain ⟨hnot, q, hadd, hcache⟩ := h.section_eq hpc rfl
    have hstep : step slot x p = { x.goto p (.unlock r) with
        cache := { x.cache with slotSet := insert (slot p) x.cache.slotSet } } := by
      simp [step, hpc]
    rw [pushPop_of_notMem hnot hadd, hstep]
    refine ⟨rfl, h.inside hpc rfl rfl ?_, congrArg PushPopPc.settled (goto_pcs_self x p _)⟩
    rw [hcache]
    rfl
  | write => simp [commits, hpc] at hp
  | add => simp [commits, hpc] at hp
  | remove d => simp [commits, hpc] at hp
  | unlock r => simp [commits, hpc] at hp
  | returned r => simp [commits, hpc] at hp

/-- Any other step. -/
theorem Represents.silent (h : Represents slot x s) (hp : commits slot x p = false) :
    Represents slot (step slot x p) s ∧ ((step slot x p).pcs p).settled = (x.pcs p).settled := by
  cases hpc : x.pcs p with
  | contains =>
    have hmem : slot p ∉ x.cache.slotSet := by simpa [commits, hpc] using hp
    have hstep : step slot x p = x.goto p .write := by simp [step, hpc, hmem]
    rw [hstep, goto_pcs_self]
    exact ⟨h.outside (by rw [hpc]; rfl) rfl, rfl⟩
  | write =>
    cases hw : x.writer with
    | some q =>
      have hstep : step slot x p = x := by simp [step, hpc, hw]
      rw [hstep, hpc]
      exact ⟨h, rfl⟩
    | none =>
      have hstep : step slot x p = { x.goto p .containsLocked with writer := some p } := by
        simp [step, hpc, hw]
      rw [hstep]
      exact ⟨h.enter hw, (congrArg PushPopPc.settled (goto_pcs_self x p .containsLocked) :)⟩
  | containsLocked =>
    have hmem : slot p ∉ x.cache.slotSet := by simpa [commits, hpc] using hp
    have hcache : x.cache = s := h.section_eq hpc rfl
    have hstep : step slot x p = x.goto p .add := by simp [step, hpc, hmem]
    rw [hstep, goto_pcs_self]
    exact ⟨h.inside hpc rfl rfl ⟨hcache, hcache ▸ hmem⟩, rfl⟩
  | add =>
    obtain ⟨hcache, hnot⟩ := h.section_eq hpc rfl
    obtain ⟨r, q, hadd⟩ := exists_add_eq_ok s.slotQueue (slot p)
    have hstep : step slot x p = { x.goto p (.afterAdd r) with
        cache := { x.cache with slotQueue := q } } := by
      simp [step, hpc, hcache, hadd]
    rw [hstep]
    have hset : ((x.goto p (.afterAdd r)).pcs p).settled = none := by
      rw [goto_pcs_self]
      cases r <;> rfl
    refine ⟨h.inside hpc rfl (by cases r <;> rfl) ?_, hset⟩
    cases r with
    | some d => exact ⟨hnot, q, hadd, by rw [hcache]⟩
    | none => exact ⟨hnot, q, hadd, by simp [hcache]⟩
  | remove d =>
    obtain ⟨hnot, q, hadd, hcache⟩ := h.section_eq hpc rfl
    have hstep : step slot x p = { x.goto p (.insert (some d)) with
        cache := { x.cache with slotSet := x.cache.slotSet.erase d } } := by
      simp [step, hpc]
    rw [hstep]
    refine ⟨h.inside hpc rfl rfl ⟨hnot, q, hadd, ?_⟩,
      (congrArg PushPopPc.settled (goto_pcs_self x p (.insert (some d))) :)⟩
    rw [hcache]
    simp [Finset.sdiff_singleton_eq_erase]
  | insert r => simp [commits, hpc] at hp
  | unlock r =>
    have hstep : step slot x p = { x.goto p (.returned r) with writer := none } := by
      simp [step, hpc]
    rw [hstep]
    exact ⟨h.leave hpc, (congrArg PushPopPc.settled (goto_pcs_self x p (.returned r)) :)⟩
  | returned r =>
    have hstep : step slot x p = x := by simp [step, hpc]
    rw [hstep, hpc]
    exact ⟨h, rfl⟩

/-- The moments at which calls take effect. -/
def linearizationPoints (slot : P → Slot) :
    LinearizationPoints (step slot) SlotCache.pushPop slot where
  commits := commits slot
  promised := fun x p => (x.pcs p).settled
  Represents := Represents slot
  commit := fun h hp => h.commit hp
  silent := fun h hp => h.silent hp
  others := fun hq => congrArg PushPopPc.settled (pcs_step_of_ne _ hq)

/-- The calls seem to have left the cache that they leave one after another, in
    the order in which they took effect. -/
theorem represents_run (n : ℕ) (slot : P → Slot) (es : List P) :
    Represents slot (run n slot es) (applyAll SlotCache.pushPop (.new n)
      (((linearizationPoints slot).order (start P n) es).map slot)) :=
  ((linearizationPoints slot).tracks_run (start_represents n) (fun _ => rfl) es).represents

theorem explains_run (n : ℕ) (slot : P → Slot) (es : List P) :
    Explains SlotCache.pushPop (.new n) slot (fun es p => ((run n slot es).pcs p).result) es
      ((linearizationPoints slot).order (start P n) es) :=
  (linearizationPoints slot).explains (start_represents n) (fun _ => rfl)
    (fun _ _ _ => PushPopPc.settled_of_result) es

/-- A caller that has not returned, and does not wait for the lock, moves on. -/
theorem rank_step_lt (hpc : ∀ r, x.pcs p ≠ .returned r)
    (hw : x.pcs p = .write → x.writer = none) :
    ((step slot x p).pcs p).rank < (x.pcs p).rank := by
  have hgoto : ∀ {pc' cache writer}, ({ x.goto p pc' with
      cache := cache, writer := writer } : CacheCalls P).pcs p = pc' := goto_pcs_self x p _
  cases hp : x.pcs p with
  | contains =>
    simp only [step, hp, goto_pcs_self]
    split <;> decide
  | write =>
    simp only [step, hp, hw hp, Option.isSome_none, Bool.false_eq_true, if_false, hgoto]
    decide
  | containsLocked =>
    simp only [step, hp, goto_pcs_self]
    split <;> decide
  | add =>
    obtain ⟨r, q, hadd⟩ := exists_add_eq_ok x.cache.slotQueue (slot p)
    simp only [step, hp, hadd, hgoto]
    cases r with
    | none => decide
    | some d => exact Nat.lt_succ_self 3
  | remove d =>
    simp only [step, hp, hgoto]
    exact Nat.lt_succ_self 2
  | insert r =>
    simp only [step, hp, hgoto]
    exact Nat.lt_succ_self 1
  | unlock r =>
    simp only [step, hp, hgoto]
    exact Nat.lt_succ_self 0
  | returned r => exact absurd hp (hpc r)

/-- A step that does anything brings its caller closer to the end. -/
theorem step_eq_or_rank_lt (slot : P → Slot) (x : CacheCalls P) (p : P) :
    step slot x p = x ∨ ((step slot x p).pcs p).rank < (x.pcs p).rank := by
  by_cases hpc : ∃ r, x.pcs p = .returned r
  · obtain ⟨r, hr⟩ := hpc
    exact .inl (by simp [step, hr])
  · rw [not_exists] at hpc
    by_cases hwait : x.pcs p = .write ∧ x.writer.isSome
    · exact .inl (by simp [step, hwait.1, hwait.2])
    · refine .inr (rank_step_lt hpc fun hp => ?_)
      rw [not_and, Option.not_isSome_iff_eq_none] at hwait
      exact hwait hp

/-- While some caller has not returned, some caller can move: the one that holds
    the lock, or any when the lock is free. -/
theorem Represents.exists_step_ne (h : Represents slot x s) (hx : ¬x.Finished) :
    ∃ p, step slot x p ≠ x := by
  suffices hmove : ∃ p, (∀ r, x.pcs p ≠ .returned r) ∧ (x.pcs p = .write → x.writer = none) by
    obtain ⟨p, hpc, hw⟩ := hmove
    refine ⟨p, fun he => ?_⟩
    have hlt : ((step slot x p).pcs p).rank < (x.pcs p).rank := rank_step_lt hpc hw
    rw [he] at hlt
    exact lt_irrefl _ hlt
  cases hw : x.writer with
  | some p =>
    have hlocked := (h.writer_iff p).mp hw
    refine ⟨p, fun r hr => ?_, fun hr => ?_⟩
    · rw [hr] at hlocked
      cases hlocked
    · rw [hr] at hlocked
      cases hlocked
  | none =>
    obtain ⟨p, hp⟩ := not_forall.mp hx
    exact ⟨p, fun r hr => hp (by rw [hr]; rfl), fun _ => rfl⟩

theorem Finished.step (h : x.Finished) (p : P) : (step slot x p).Finished := by
  have hstay : CacheCalls.step slot x p = x := by
    obtain ⟨r, hr⟩ := Option.isSome_iff_exists.mp (h p)
    cases hp : x.pcs p with
    | returned r => simp [CacheCalls.step, hp]
    | _ => rw [hp] at hr; cases hr
  rw [hstay]
  exact h

/-- The steps that all callers have left, at most. -/
def stepsLeft [Fintype P] (x : CacheCalls P) : ℕ := ∑ p, (x.pcs p).rank

theorem step_eq_or_stepsLeft_lt [Fintype P] (slot : P → Slot) (x : CacheCalls P) (p : P) :
    step slot x p = x ∨ (step slot x p).stepsLeft < x.stepsLeft := by
  refine (step_eq_or_rank_lt slot x p).imp_right fun hlt => ?_
  refine Finset.sum_lt_sum (fun q _ => ?_) ⟨p, Finset.mem_univ p, hlt⟩
  by_cases hq : q = p
  · rw [hq]
    exact hlt.le
  · rw [pcs_step_of_ne x hq]

end CacheCalls

open CacheCalls

/-- Any number of callers call `push_pop` on one cache of any capacity, in any
    interleaving. There is an order of the calls, in which a call that returned
    before another began comes first, such that every caller gets what
    `push_pop` returns when the calls are made one after another in this order.
    While no caller holds the lock the cache is the one they leave then, and at
    every moment the set shows only slots of that cache. -/
theorem push_pops_linearizable {P : Type} [DecidableEq P] (n : ℕ) (slot : P → Slot)
    (es : List P) :
    let x := CacheCalls.run n slot es
    ∃ order : List P,
      Explains SlotCache.pushPop (.new n) slot
        (fun es p => ((CacheCalls.run n slot es).pcs p).result) es order ∧
      (x.writer = none → x.cache = applyAll SlotCache.pushPop (.new n) (order.map slot)) ∧
      x.cache.slotSet ⊆ (applyAll SlotCache.pushPop (.new n) (order.map slot)).slotSet :=
  ⟨_, explains_run n slot es, (represents_run n slot es).free,
    fun _ => (represents_run n slot es).mem⟩

/-- Finitely many callers, on a schedule on which everyone moves again and again:
    all calls return, and they leave the cache that they leave one after another
    in some order. -/
theorem push_pops_return {P : Type} [DecidableEq P] [Fintype P] (n : ℕ) (slot : P → Slot)
    {schedule : ℕ → P} (hfair : Fair schedule) :
    ∃ t, ∀ t', t ≤ t' →
      let x := stateAt (CacheCalls.step slot) (CacheCalls.start P n) schedule t'
      x.Finished ∧ ∃ order : List P, order.Nodup ∧ (∀ p, p ∈ order) ∧
        x.cache = applyAll SlotCache.pushPop (.new n) (order.map slot) := by
  have hinv : ∃ s, Represents slot (CacheCalls.start P n) s := ⟨_, start_represents n⟩
  have hstep : ∀ (x : CacheCalls P) p, (∃ s, Represents slot x s) →
      ∃ s, Represents slot (x.step slot p) s := by
    rintro x p ⟨s, h⟩
    cases hp : commits slot x p with
    | true => exact ⟨_, (h.commit hp).2.1⟩
    | false => exact ⟨_, (h.silent hp).1⟩
  obtain ⟨t, ht⟩ := hfair.exists_done _ stepsLeft Finished hinv hstep
    (fun x p _ => step_eq_or_stepsLeft_lt slot x p) (fun x ⟨_, h⟩ hx => h.exists_step_ne hx)
    (fun x p hx => hx.step p)
  refine ⟨t, fun t' hle => ⟨ht t' hle, ?_⟩⟩
  have hfin := ht t' hle
  rw [stateAt_eq_foldl] at hfin ⊢
  set es := (List.range t').map schedule
  have hrep := represents_run n slot es
  have hexplains := explains_run n slot es
  refine ⟨_, hexplains.nodup, fun p => ?_, hrep.free (hrep.writer_eq_none hfin)⟩
  obtain ⟨r, hr⟩ := Option.isSome_iff_exists.mp (hfin p)
  obtain ⟨before, after, he, -⟩ := hexplains.results p r hr
  rw [he]
  simp

/-- Two callers that take turns, with different slots and room for one. -/
theorem push_pops_return_two :
    let slot : Fin 2 → Slot := ![5, 6]
    let schedule (t : ℕ) : Fin 2 := Fin.ofNat 2 t
    ∃ t, (stateAt (CacheCalls.step slot) (CacheCalls.start (Fin 2) 1) schedule t).Finished := by
  intro slot schedule
  have hfair : Fair schedule := by
    intro p t
    refine ⟨2 * t + p.val, by omega, ?_⟩
    ext
    simp only [schedule, Fin.val_ofNat]
    omega
  obtain ⟨t, ht⟩ := push_pops_return 1 slot hfair
  exact ⟨t, (ht t le_rfl).1⟩

end PriorityFeeEstimator
