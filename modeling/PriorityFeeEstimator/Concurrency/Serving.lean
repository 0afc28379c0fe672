import Mathlib
import PriorityFeeEstimator.Lib.Interleaving
import PriorityFeeEstimator.Concurrency.PushSteps
import PriorityFeeEstimator.Concurrency.Readers
import PriorityFeeEstimator.Contributions

/-!
# Readers beside a writer

One writer pushes transactions, any number of readers run calculations, and the
atomic steps of all of them come in any order.

Each slot goes through versions: version `j` is what the slot holds after the
first `j` pushes. At every moment, in the middle of a push too, every slot is at
some version, and the versions only grow (`Serving.clock`). So what a reader
looks up is the log of the slot after a whole number of pushes.
-/

namespace PriorityFeeEstimator

open SlotPriorityFees

/-- What a slot holds after the first `j` pushes. -/
def slotVersion (n : ℕ) (ps : List (Slot × Txn)) (j : ℕ) (s : Slot) : Option SlotPriorityFees :=
  ofLog s ((KeyedFifo.run n (ps.take j) : Window n).log s)

-- ════════════════════════════════════════════════════════════════════════
-- What a reader has collected
-- ════════════════════════════════════════════════════════════════════════

/-- The slots are distinct, each was in the store at some version from `j` on, and
    no slot of the shards listed is missing that was there at all of them. -/
structure ListedSince (n : ℕ) (ps : List (Slot × Txn)) (clock : Slot → ℕ) (j : ℕ) (shards : Shards)
    (left : List (Fin shards.count)) (slotsVec : List Slot) : Prop where
  nodup : slotsVec.Nodup
  seen : ∀ s ∈ slotsVec, shards.shardOf s ∉ left ∧ SeenSince (slotVersion n ps) clock j s
  held : ∀ s, shards.shardOf s ∉ left → HeldSince (slotVersion n ps) clock j s → s ∈ slotsVec

section Collected

variable {n : ℕ} {ps : List (Slot × Txn)} {shards : Shards} {c : Calculations}
  {clock clock' : Slot → ℕ} {j : ℕ}

/-- The visits to the slots read, each at the version it was read at. -/
def Calculations.visitReads (c : Calculations) (n : ℕ) (ps : List (Slot × Txn))
    (reads : List (Slot × ℕ)) : c.sampler.Acc :=
  reads.foldl (fun acc e => c.sampler.visitEntry acc (slotVersion n ps e.2 e.1)) c.sampler.init

/-- The slots listed, those looked up since with what was found, and the samples
    made of it. -/
def ReaderPc.Since (n : ℕ) (ps : List (Slot × Txn)) (clock : Slot → ℕ) (j : ℕ)
    (looked : List (Slot × Option SlotPriorityFees)) : ReaderPc shards c → Prop
  | .listing left slotsVec =>
    looked = [] ∧ left.Nodup ∧ ListedSince n ps clock j shards left slotsVec
  | .reading todo acc => ∃ slotsVec reads, ListedSince n ps clock j shards [] slotsVec ∧
      reads.map Prod.fst ++ todo = cutSlots c.lookbackPeriod slotsVec ∧
      (∀ e ∈ reads, ReadSince (slotVersion n ps) clock j e.1 e.2) ∧
      looked = reads.map (fun e => (e.1, slotVersion n ps e.2 e.1)) ∧
      acc = c.visitReads n ps reads
  | .panicked => False
  | .returned data => ∃ slotsVec reads, ListedSince n ps clock j shards [] slotsVec ∧
      reads.map Prod.fst = cutSlots c.lookbackPeriod slotsVec ∧
      (∀ e ∈ reads, ReadSince (slotVersion n ps) clock j e.1 e.2) ∧
      looked = reads.map (fun e => (e.1, slotVersion n ps e.2 e.1)) ∧
      data = c.sampler.finish (c.visitReads n ps reads)

/-- Later versions do not spoil the list. -/
theorem ListedSince.mono {left : List (Fin shards.count)} {slotsVec : List Slot}
    (h : ListedSince n ps clock j shards left slotsVec) (hclock : ∀ s, clock s ≤ clock' s) :
    ListedSince n ps clock' j shards left slotsVec where
  nodup := h.nodup
  seen := fun s hs => ⟨(h.seen s hs).1, (h.seen s hs).2.mono hclock⟩
  held := fun s hleft hheld => h.held s hleft (hheld.anti hclock)

/-- The slots of one shard more. -/
theorem ListedSince.append {shard : Fin shards.count} {left : List (Fin shards.count)}
    {slotsVec : List Slot} (h : ListedSince n ps clock j shards (shard :: left) slotsVec)
    (hnew : shard ∉ left) {m : PriorityFeesBySlot}
    (hm : ∀ s, m.lookup s = slotVersion n ps (clock s) s) (hj : ∀ s, j ≤ clock s)
    (o : IterOrder Slot) :
    ListedSince n ps clock j shards left (slotsVec ++ shardSlots shards o m shard) := by
  have hkeyed : WellKeyed m := fun s v hv => (logged_of_ofLog ((hm s).symm.trans hv)).slot_eq
  refine ⟨?_, fun s hs => ?_, fun s hleft hheld => List.mem_append.mpr ?_⟩
  · rw [List.nodup_append]
    refine ⟨h.nodup, nodup_shardSlots o hkeyed shard, ?_⟩
    rintro s hold s' hs' rfl
    have hshard := ((mem_shardSlots hkeyed).mp hs').1
    exact (h.seen s hold).1 (hshard ▸ List.mem_cons_self)
  · rcases List.mem_append.mp hs with hold | hs
    · exact ⟨fun hin => (h.seen s hold).1 (List.mem_cons_of_mem _ hin), (h.seen s hold).2⟩
    · obtain ⟨hshard, hin⟩ := (mem_shardSlots hkeyed).mp hs
      exact ⟨hshard ▸ hnew, clock s, hj s, le_rfl, hm s ▸ Table.mem_iff_lookup_ne_none.mp hin⟩
  · by_cases hshard : shards.shardOf s = shard
    · -- the slot is in the store now
      refine .inr ((mem_shardSlots hkeyed).mpr ⟨hshard, ?_⟩)
      rw [Table.mem_iff_lookup_ne_none, hm s]
      exact hheld.now (hj s)
    · refine .inl (h.held s ?_ hheld)
      rw [List.mem_cons, not_or]
      exact ⟨hshard, hleft⟩

namespace ReaderPc.Since

variable {looked : List (Slot × Option SlotPriorityFees)}

theorem start : (ReaderPc.start shards c).Since n ps clock j [] :=
  ⟨rfl, List.nodup_finRange _, List.nodup_nil, by simp,
    fun s hs => absurd (List.mem_finRange _) hs⟩

/-- Later versions do not spoil what was collected. -/
theorem mono {pc : ReaderPc shards c} (h : pc.Since n ps clock j looked)
    (hclock : ∀ s, clock s ≤ clock' s) : pc.Since n ps clock' j looked := by
  cases pc with
  | listing left slotsVec => exact ⟨h.1, h.2.1, h.2.2.mono hclock⟩
  | reading todo acc =>
    obtain ⟨slotsVec, reads, hlisted, hcut, hread, hrest⟩ := h
    exact ⟨slotsVec, reads, hlisted.mono hclock, hcut, fun e he => (hread e he).mono hclock, hrest⟩
  | panicked => exact h
  | returned data =>
    obtain ⟨slotsVec, reads, hlisted, hcut, hread, hrest⟩ := h
    exact ⟨slotsVec, reads, hlisted.mono hclock, hcut, fun e he => (hread e he).mono hclock, hrest⟩

/-- A step on a store in which every slot is at its version, from `j` on. -/
theorem step {pc : ReaderPc shards c} (h : pc.Since n ps clock j looked) (o : IterOrder Slot)
    {m : PriorityFeesBySlot} (hm : ∀ s, m.lookup s = slotVersion n ps (clock s) s)
    (hj : ∀ s, j ≤ clock s) :
    (readerStep o m pc).Since n ps clock j (looked ++ (pc.nextLookup m).toList) := by
  cases pc with
  | listing left slotsVec =>
    obtain ⟨rfl, hleft, hlisted⟩ := h
    cases left with
    | nil =>
      rw [readerStep_listing_nil]
      exact ⟨slotsVec, [], hlisted, rfl, by simp, rfl, rfl⟩
    | cons shard left =>
      rw [List.nodup_cons] at hleft
      exact ⟨rfl, hleft.2, hlisted.append hleft.1 hm hj o⟩
  | reading todo acc =>
    obtain ⟨slotsVec, reads, hlisted, hcut, hread, hlooked, hacc⟩ := h
    cases todo with
    | nil =>
      refine ⟨slotsVec, reads, hlisted, by simpa using hcut, hread, ?_, by rw [hacc]⟩
      rw [← hlooked]
      exact List.append_nil looked
    | cons slot todo =>
      refine ⟨slotsVec, reads ++ [(slot, clock slot)], hlisted, by simpa using hcut,
        fun e he => ?_, ?_, ?_⟩
      · rcases List.mem_append.mp he with hold | hnew
        · exact hread e hold
        · obtain rfl := List.mem_singleton.mp hnew
          have hslot : slot ∈ cutSlots c.lookbackPeriod slotsVec := hcut ▸ by simp
          exact (hlisted.seen slot (mem_of_mem_cutSlots hslot)).2.read
      · rw [List.map_append, ← hlooked, List.map_singleton, ← hm slot]
        rfl
      · rw [Calculations.visitReads, List.foldl_concat, hacc, ← hm slot]
        rfl
  | panicked => exact h
  | returned data =>
    have hnone : looked ++ ((ReaderPc.returned data : ReaderPc shards c).nextLookup m).toList =
        looked := List.append_nil looked
    rwa [hnone]

/-- The samples returned are made of what was looked up, each slot once. -/
theorem returned {data : DataStats}
    (h : (.returned data : ReaderPc shards c).Since n ps clock j looked) :
    (looked.map Prod.fst).Nodup ∧
      data = c.sampler.finish ((looked.map Prod.snd).foldl c.sampler.visitEntry c.sampler.init) := by
  obtain ⟨slotsVec, reads, hlisted, hcut, -, rfl, rfl⟩ := h
  have hslots : (reads.map fun e => (e.1, slotVersion n ps e.2 e.1)).map Prod.fst =
      reads.map Prod.fst := by
    rw [List.map_map]
    rfl
  refine ⟨?_, ?_⟩
  · rw [hslots, hcut]
    exact cutSlots_nodup hlisted.nodup _
  · rw [List.map_map, List.foldl_map]
    rfl

end ReaderPc.Since

end Collected

-- ════════════════════════════════════════════════════════════════════════
-- One writer, any number of readers
-- ════════════════════════════════════════════════════════════════════════

/-- The shared tracker, the writer's place in its list of pushes, and the
    readers. A reader that makes several requests is several readers, each
    free to start when it likes. -/
structure Serving {R : Type} (shards : Shards) (calcs : R → Calculations) where
  tracker : PriorityFeeTracker
  done : ℕ
  pc : PushPc
  readers : (r : R) → ReaderPc shards (calcs r)

/-- Who moves next. The order in which a shard yields its slots comes with the
    move. -/
inductive ServingEvent (R : Type) where
  | writer
  | reader (r : R) (o : IterOrder Slot)

namespace Serving

variable {R : Type} {shards : Shards} {calcs : R → Calculations}

/-- A fresh tracker, before the first push and the first request. -/
def start (n : ℕ) (shards : Shards) (calcs : R → Calculations) : Serving shards calcs where
  tracker := .new n
  done := 0
  pc := .contains
  readers := fun r => .start shards (calcs r)

/-- One atomic step of the writer: of the push it is at, if any is left. -/
def writerStep (ps : List (Slot × Txn)) (x : Serving shards calcs) : Serving shards calcs :=
  match ps[x.done]? with
  | some p =>
    let (tracker, pc) := pushStep p x.tracker x.pc
    if pc = .returned then { x with tracker := tracker, done := x.done + 1, pc := .contains }
    else { x with tracker := tracker, pc := pc }
  | none => x

/-- One atomic step. -/
def step [DecidableEq R] (ps : List (Slot × Txn)) (x : Serving shards calcs) :
    ServingEvent R → Serving shards calcs
  | .writer => x.writerStep ps
  | .reader r o => { x with
      readers := Function.update x.readers r
        (readerStep o x.tracker.priorityFees (x.readers r)) }

/-- The version each slot is at: the number of pushes made, and one more where
    the push under way has done its work on the slot. -/
def clock (x : Serving shards calcs) (s : Slot) : ℕ :=
  x.done + if Midway.ahead x.pc s then 1 else 0

/-- What reader `r` looks up in the next step, if that is a step of this reader. -/
def lookupOf [DecidableEq R] (r : R) (x : Serving shards calcs) :
    ServingEvent R → Option (Slot × Option SlotPriorityFees)
  | .writer => none
  | .reader r' _ => if r' = r then (x.readers r).nextLookup x.tracker.priorityFees else none

/-- The lookups of reader `r` during some steps, each with what it found. -/
def lookups [DecidableEq R] (ps : List (Slot × Txn)) (r : R) (x : Serving shards calcs)
    (es : List (ServingEvent R)) : List (Slot × Option SlotPriorityFees) :=
  observed (step ps) (lookupOf r) x es

/-- The number of pushes whose transaction is stored: those made, and the push
    under way when only a removal is left of it. -/
def stored (x : Serving shards calcs) : ℕ := x.done + if x.pc.stored then 1 else 0

/-- The tracker is in the middle of the push the writer is at. -/
structure Ok (n : ℕ) (ps : List (Slot × Txn)) (x : Serving shards calcs) : Prop where
  midway : ∀ p, ps[x.done]? = some p →
    Midway (.run n (ps.take x.done)) p x.tracker x.pc
  idle : ps[x.done]? = none → x.tracker = .run n (ps.take x.done) ∧ x.pc = .contains
  running : x.pc ≠ .returned

variable {n : ℕ} {ps : List (Slot × Txn)} {x : Serving shards calcs}

theorem start_ok (n : ℕ) (ps : List (Slot × Txn)) (shards : Shards) (calcs : R → Calculations) :
    (start n shards calcs).Ok n ps where
  midway := fun _ _ => rfl
  idle := fun _ => ⟨rfl, rfl⟩
  running := nofun

/-- After one push more the tracker is that of one push more. -/
private theorem run_take_succ {j : ℕ} {p : Slot × Txn} (hp : ps[j]? = some p) :
    PriorityFeeTracker.run n (ps.take (j + 1)) =
      (PriorityFeeTracker.run n (ps.take j)).push p := by
  rw [List.take_add_one, hp, Option.toList_some, PriorityFeeTracker.run_concat]

private theorem lookup_run_take (hn : 0 < n) (j : ℕ) (s : Slot) :
    (PriorityFeeTracker.run n (ps.take j)).priorityFees.lookup s = slotVersion n ps j s :=
  (Simulates.run hn (ps.take j)).store s

/-- Every slot is at its version, in the middle of a push too. -/
theorem Ok.lookup_eq (h : x.Ok n ps) (hn : 0 < n) (s : Slot) :
    x.tracker.priorityFees.lookup s = slotVersion n ps (x.clock s) s := by
  cases hp : ps[x.done]? with
  | none =>
    obtain ⟨ht, hpc⟩ := h.idle hp
    rw [ht, clock, hpc, if_neg (by simp [Midway.ahead]), Nat.add_zero, lookup_run_take hn]
  | some p =>
    have hc := (Simulates.run hn (ps.take x.done)).coherent hn
    rw [(h.midway p hp).lookup_eq hc, clock, ← run_take_succ hp, lookup_run_take hn,
      lookup_run_take hn]
    split <;> rfl

theorem done_le_clock (x : Serving shards calcs) (s : Slot) : x.done ≤ x.clock s :=
  Nat.le_add_right _ _

/-- No slot is further than the pushes stored. -/
theorem clock_le_stored (x : Serving shards calcs) (s : Slot) : x.clock s ≤ x.stored := by
  refine Nat.add_le_add_left ?_ x.done
  cases x.pc with
  | remove d =>
    change (if s ≠ d then 1 else 0) ≤ 1
    split <;> simp
  | _ => simp [Midway.ahead, PushPc.stored]

/-- What a step of the writer does: it moves within a push, ends it, or finds
    none left. -/
theorem writerStep_cases (ps : List (Slot × Txn)) (x : Serving shards calcs) :
    (ps[x.done]? = none ∧ x.writerStep ps = x) ∨
    (∃ p, ps[x.done]? = some p ∧ (pushStep p x.tracker x.pc).2 = .returned ∧
      x.writerStep ps = { x with tracker := (pushStep p x.tracker x.pc).1
                                 done := x.done + 1
                                 pc := .contains }) ∨
    ∃ p, ps[x.done]? = some p ∧ (pushStep p x.tracker x.pc).2 ≠ .returned ∧
      x.writerStep ps = { x with tracker := (pushStep p x.tracker x.pc).1
                                 pc := (pushStep p x.tracker x.pc).2 } := by
  cases hp : ps[x.done]? with
  | none => exact .inl ⟨rfl, by simp [writerStep, hp]⟩
  | some p =>
    by_cases hret : (pushStep p x.tracker x.pc).2 = .returned
    · exact .inr (.inl ⟨p, rfl, hret, by simp [writerStep, hp, hret]⟩)
    · exact .inr (.inr ⟨p, rfl, hret, by simp [writerStep, hp, hret]⟩)

/-- The writer moves no slot back to an earlier version. -/
theorem clock_le_writerStep (hrun : x.pc ≠ .returned) (s : Slot) :
    x.clock s ≤ (x.writerStep ps).clock s := by
  rcases writerStep_cases ps x with ⟨-, he⟩ | ⟨p, -, -, he⟩ | ⟨p, -, hret, he⟩
  · rw [he]
  · rw [he, clock, clock, if_neg (id : ¬Midway.ahead .contains s)]
    change x.done + _ ≤ x.done + 1 + 0
    split <;> omega
  · rw [he, clock, clock]
    by_cases hahead : Midway.ahead x.pc s
    · -- only the removal is ahead anywhere, and it ends the push
      exfalso
      cases hpc : x.pc with
      | remove d => exact hret (by rw [hpc]; rfl)
      | returned => exact hrun hpc
      | _ => rw [hpc] at hahead; exact hahead
    · rw [if_neg hahead]
      exact Nat.le_add_right _ _

theorem done_le_writerStep (ps : List (Slot × Txn)) (x : Serving shards calcs) :
    x.done ≤ (x.writerStep ps).done := by
  rcases writerStep_cases ps x with ⟨-, he⟩ | ⟨p, -, -, he⟩ | ⟨p, -, -, he⟩
  · rw [he]
  · rw [he]
    exact Nat.le_succ _
  · rw [he]

/-- The writer keeps the invariant. -/
theorem Ok.writerStep (h : x.Ok n ps) : (x.writerStep ps).Ok n ps := by
  rcases writerStep_cases ps x with ⟨-, he⟩ | ⟨p, hp, hret, he⟩ | ⟨p, hp, hret, he⟩
  · rw [he]
    exact h
  · rw [he]
    have ht : (pushStep p x.tracker x.pc).1 = .run n (ps.take (x.done + 1)) := by
      have hmid := (h.midway p hp).step
      rw [hret] at hmid
      rw [run_take_succ hp]
      exact hmid
    exact ⟨fun _ _ => ht, fun _ => ⟨ht, rfl⟩, nofun⟩
  · rw [he]
    refine ⟨fun p' hp' => ?_, fun hnone => ?_, hret⟩
    · obtain rfl : p = p' := Option.some.inj (hp.symm.trans hp')
      exact (h.midway p hp).step
    · exact absurd (hp.symm.trans hnone) (by simp)

variable [DecidableEq R]

/-- Every step keeps the invariant: those of the readers do not touch the tracker. -/
theorem Ok.step (h : x.Ok n ps) (e : ServingEvent R) : (x.step ps e).Ok n ps := by
  cases e with
  | writer => exact h.writerStep
  | reader r o => exact ⟨h.midway, h.idle, h.running⟩

/-- The invariant holds after every interleaving. -/
theorem ok_run (n : ℕ) (ps : List (Slot × Txn)) (shards : Shards) (calcs : R → Calculations)
    (es : List (ServingEvent R)) : (es.foldl (step ps) (start n shards calcs)).Ok n ps :=
  invariant_foldl (Ok n ps) (fun _ e h => h.step e) (start_ok n ps shards calcs) es

/-- A reader's own step moves that reader; the others stay, and look up nothing. -/
theorem readers_step (ps : List (Slot × Txn)) (x : Serving shards calcs) (e : ServingEvent R)
    (r : R) :
    ((x.step ps e).readers r = x.readers r ∧ x.lookupOf r e = none) ∨ ∃ o, e = .reader r o ∧
      (x.step ps e).readers r = readerStep o x.tracker.priorityFees (x.readers r) ∧
      x.lookupOf r e = (x.readers r).nextLookup x.tracker.priorityFees := by
  cases e with
  | writer =>
    refine .inl ⟨?_, rfl⟩
    show (x.writerStep ps).readers r = x.readers r
    rcases writerStep_cases ps x with ⟨-, he⟩ | ⟨p, -, -, he⟩ | ⟨p, -, -, he⟩ <;> rw [he]
  | reader r' o =>
    by_cases hr : r' = r
    · subst hr
      exact .inr ⟨o, rfl, Function.update_self .., if_pos rfl⟩
    · exact .inl ⟨Function.update_of_ne (Ne.symm hr) .., if_neg hr⟩

theorem done_le_step (ps : List (Slot × Txn)) (x : Serving shards calcs) (e : ServingEvent R) :
    x.done ≤ (x.step ps e).done := by
  cases e with
  | writer => exact done_le_writerStep ps x
  | reader r o => exact le_rfl

theorem readers_foldl_writer (ps : List (Slot × Txn)) (k : ℕ) (x : Serving shards calcs) (r : R) :
    ((List.replicate k .writer).foldl (step ps) x).readers r = x.readers r := by
  induction k generalizing x with
  | zero => rfl
  | succ k ih =>
    rw [List.replicate_succ, List.foldl_cons, ih]
    exact ((readers_step ps x .writer r).resolve_right (by rintro ⟨o, ho, -⟩; cases ho)).1

/-- What a reader has collected stays right, whoever moves. -/
theorem Ok.since_step (h : x.Ok n ps) (hn : 0 < n) {r : R} {j : ℕ} (hj : j ≤ x.done)
    {looked : List (Slot × Option SlotPriorityFees)}
    (hsince : (x.readers r).Since n ps x.clock j looked) (e : ServingEvent R) :
    ((x.step ps e).readers r).Since n ps (x.step ps e).clock j
      (looked ++ (x.lookupOf r e).toList) := by
  rcases readers_step ps x e r with ⟨hstay, hnone⟩ | ⟨o, rfl, hmove, hlookup⟩
  · rw [hstay, hnone, Option.toList_none, List.append_nil]
    refine hsince.mono fun s => ?_
    cases e with
    | writer => exact clock_le_writerStep h.running s
    | reader r' o => exact le_rfl
  · rw [hmove, hlookup]
    exact hsince.step o (h.lookup_eq hn) fun s => hj.trans (done_le_clock x s)

/-- A reader that starts when `j` pushes are made draws on versions from `j` on,
    whatever happens meanwhile. -/
theorem since_run (hn : 0 < n) {r : R} (h : x.Ok n ps)
    (hstart : x.readers r = .start shards (calcs r)) (es : List (ServingEvent R)) :
    x.done ≤ (es.foldl (step ps) x).done ∧
      ((es.foldl (step ps) x).readers r).Since n ps (es.foldl (step ps) x).clock x.done
        (x.lookups ps r es) := by
  refine (invariant_observed (fun (y : Serving shards calcs) looked =>
    y.Ok n ps ∧ x.done ≤ y.done ∧ (y.readers r).Since n ps y.clock x.done looked)
    (fun y looked e hy => ?_) ⟨h, le_rfl, hstart ▸ .start⟩ es).2
  obtain ⟨hok, hdone, hsince⟩ := hy
  exact ⟨hok.step e, hdone.trans (done_le_step ps y e), hok.since_step hn hdone hsince e⟩

end Serving

-- ════════════════════════════════════════════════════════════════════════
-- What a reader gets
-- ════════════════════════════════════════════════════════════════════════

theorem Fees.counted_ofTxns_sublist (includeVote : Bool) {l l' : List Txn} (h : l.Sublist l') :
    (counted includeVote (ofTxns l)).Sublist (counted includeVote (ofTxns l')) := by
  refine List.Sublist.append ?_ ((h.filter _).map _)
  cases includeVote with
  | false => exact .refl _
  | true => exact (h.filter _).map _

/-- Without zero fill and without repeated accounts, what a slot contributes to
    the sample of an account it contributes to the Global sample too. -/
theorem SlotPriorityFees.Logged.part_account_sublist {v : SlotPriorityFees} {s : Slot}
    {l : List Txn} (h : v.Logged s l) (hl : ∀ t ∈ l, t.accounts.Nodup) {c : Calculations}
    (hempty : c.includeEmptySlots = false) (hc : c.accounts.Nodup) (a : Pubkey) :
    (c.part v (.account a)).Sublist (c.part v .global) := by
  cases c with
  | calculation1 accounts includeVote includeEmptySlots lookback => exact List.nil_sublist _
  | calculation2 accounts includeVote includeEmptySlots lookback =>
    obtain rfl : includeEmptySlots = false := hempty
    change (List.replicate (accounts.count a) _).flatten.Sublist (v.globalPart includeVote)
    have hpart : (v.accountPart includeVote false a).Sublist (v.globalPart includeVote) := by
      rw [globalPart, h.fees_eq]
      by_cases hne : accountLog a l = []
      · have hnot : a ∉ v.accountFees := by
          rw [Table.mem_iff_lookup_ne_none, not_not, h.lookup_account, hne, Fees.recorded_nil]
        rw [accountPart_of_notMem hnot]
        exact List.nil_sublist _
      · rw [accountPart_of_lookup (by rw [h.lookup_account, Fees.recorded_of_ne_nil hne]),
          accountLog_eq_filter fun t ht => hl t (List.mem_of_mem_tail ht)]
        exact Fees.counted_ofTxns_sublist includeVote List.filter_sublist
    by_cases ha : a ∈ accounts
    · have hone : accounts.count a = 1 := List.count_eq_one_of_mem hc ha
      rw [hone]
      simpa using hpart
    · rw [List.count_eq_zero_of_not_mem ha]
      exact List.nil_sublist _

/-- The sample of a group is put together from the parts of the slots read. -/
theorem Calculations.sample_visitReads (c : Calculations) (n : ℕ) (ps : List (Slot × Txn))
    (reads : List (Slot × ℕ)) (d : DataType) :
    (c.sampler.finish (c.visitReads n ps reads)).sample d =
      (reads.filterMap fun e => slotVersion n ps e.2 e.1).flatMap (c.part · d) := by
  have h := c.sampler.foldl_visitEntry (reads.map fun e => slotVersion n ps e.2 e.1) c.sampler.init
  rw [List.foldl_map, List.filterMap_map] at h
  rw [visitReads, h, sample_foldl_visit]
  rfl

/-- The sample of a group is put together from what the logs of the slots read
    contribute. -/
theorem Calculations.coe_sample_visitReads (c : Calculations) (n : ℕ) (ps : List (Slot × Txn))
    (reads : List (Slot × ℕ)) (d : DataType) :
    ((c.sampler.finish (c.visitReads n ps reads)).sample d : Multiset ℚ) =
      (reads.map fun e =>
        let l := (KeyedFifo.run n (ps.take e.2) : Window n).log e.1
        if l = [] then 0 else c.contribution l d).sum := by
  rw [c.sample_visitReads]
  induction reads with
  | nil => rfl
  | cons e reads ih =>
    rw [List.map_cons, List.sum_cons, ← ih, List.filterMap_cons]
    cases hv : slotVersion n ps e.2 e.1 with
    | none => rw [if_pos (ofLog_eq_none_iff.mp hv), zero_add]
    | some v =>
      have hlog : (KeyedFifo.run n (ps.take e.2) : Window n).log e.1 ≠ [] := fun hnil => by
        rw [slotVersion, hnil] at hv
        cases hv
      rw [if_neg hlog, List.flatMap_cons, ← Multiset.coe_add, (logged_of_ofLog hv).coe_part]

/-- One writer pushes `ps`, in any interleaving with any number of readers, and
    after the steps `es₁` reader `r` starts. After any further steps `es₂` its slice
    has not been out of bounds, and when it has returned: the slots listed were all
    in the window after some number of pushes made meanwhile, and none that was
    there after each of them is missing; the slots read are the listed ones cut to
    the lookback, each read once, after `e.2` pushes and no earlier than it was in
    the window; what was found is the log of the slot after these pushes, and each
    sample consists of what these logs contribute, nothing where the slot had left
    the window. -/
theorem readers_see_whole_pushes {R : Type} [DecidableEq R] {n : ℕ} (hn : 1 ≤ n)
    (ps : List (Slot × Txn)) (shards : Shards) (calcs : R → Calculations)
    (es₁ es₂ : List (ServingEvent R)) (r : R) :
    let state (es : List (ServingEvent R)) := es.foldl (Serving.step ps)
      (Serving.start n shards calcs)
    let c := calcs r
    let log (i : ℕ) (s : Slot) := (KeyedFifo.run n (ps.take i) : Window n).log s
    let during (i : ℕ) := (state es₁).done ≤ i ∧ i ≤ (state (es₁ ++ es₂)).stored
    (state es₁).readers r = .start shards c →
    (state (es₁ ++ es₂)).readers r ≠ .panicked ∧
    ∀ data, (state (es₁ ++ es₂)).readers r = .returned data →
      ∃ (listed : List Slot) (reads : List (Slot × ℕ)),
      (listed.Nodup ∧ (∀ s ∈ listed, ∃ i, during i ∧ log i s ≠ []) ∧
        ∀ s, (∀ i, during i → log i s ≠ []) → s ∈ listed) ∧
      (reads.map Prod.fst = cutSlots c.lookbackPeriod listed ∧ (reads.map Prod.fst).Nodup) ∧
      (∀ e ∈ reads, during e.2 ∧ ∃ i ≤ e.2, during i ∧ log i e.1 ≠ []) ∧
      (state es₁).lookups ps r es₂ = reads.map (fun e => (e.1, ofLog e.1 (log e.2 e.1))) ∧
      (∀ d, (data.sample d : Multiset ℚ) =
        (reads.map fun e => if log e.2 e.1 = [] then 0 else c.contribution (log e.2 e.1) d).sum) ∧
      (c.includeEmptySlots = false → c.accounts.Nodup → (∀ p ∈ ps, p.2.accounts.Nodup) →
        ∀ a, (data.sample (.account a)).Subperm (data.sample .global)) := by
  intro state c log during hstart
  have hend : state (es₁ ++ es₂) = es₂.foldl (Serving.step ps) (state es₁) :=
    List.foldl_append
  obtain ⟨-, hsince⟩ := Serving.since_run hn (Serving.ok_run n ps shards calcs es₁) hstart es₂
  rw [← hend] at hsince
  have hclock : ∀ s, (state (es₁ ++ es₂)).clock s ≤ (state (es₁ ++ es₂)).stored :=
    Serving.clock_le_stored _
  have hlog : ∀ {i s}, slotVersion n ps i s ≠ none ↔ log i s ≠ [] :=
    fun {i s} => not_congr ofLog_eq_none_iff
  refine ⟨fun hpanic => ?_, fun data hdata => ?_⟩
  · rw [hpanic] at hsince
    exact hsince
  · rw [hdata] at hsince
    obtain ⟨listed, reads, hlisted, hcut, hread, hlooked, rfl⟩ := hsince
    refine ⟨listed, reads, ⟨hlisted.nodup, fun s hs => ?_, fun s hs => ?_⟩,
      ⟨hcut, hcut ▸ cutSlots_nodup hlisted.nodup _⟩, fun e he => ?_, hlooked,
      c.coe_sample_visitReads n ps reads, fun hempty haccounts hps a => ?_⟩
    · obtain ⟨-, i, hj, hi, hv⟩ := hlisted.seen s hs
      exact ⟨i, ⟨hj, hi.trans (hclock s)⟩, hlog.mp hv⟩
    · exact hlisted.held s (List.not_mem_nil) fun i hj hi =>
        hlog.mpr (hs i ⟨hj, hi.trans (hclock s)⟩)
    · obtain ⟨hi, i₀, hle, hj, hv⟩ := hread e he
      have hstored := hi.trans (hclock e.1)
      exact ⟨⟨hj.trans hle, hstored⟩, i₀, hle, ⟨hj, hle.trans hstored⟩, hlog.mp hv⟩
    · rw [c.sample_visitReads, c.sample_visitReads]
      refine (List.Sublist.flatMap_right _ fun v hv => ?_).subperm
      obtain ⟨e, -, hv⟩ := List.mem_filterMap.mp hv
      refine (logged_of_ofLog hv).part_account_sublist (fun t ht => ?_) hempty haccounts a
      exact hps (e.1, t) (List.mem_of_mem_take (mem_of_mem_run_log ht))

/-- Slot 5 is listed before it leaves the window and looked up after it has. -/
theorem readers_see_whole_pushes_evicted :
    let key := Pubkey.filled 1
    let ps : List (Slot × Txn) :=
      [(5, ⟨[key], 100, false, .legacyV0⟩), (6, ⟨[key], 200, false, .legacyV0⟩)]
    let pushes : List (ServingEvent Unit) := List.replicate 4 .writer
    let reads : List (ServingEvent Unit) := List.replicate 4 .writer ++
      List.replicate 2 (.reader () (.stored Slot)) ++
      .writer :: List.replicate 3 (.reader () (.stored Slot))
    let c : Calculations := .calculation2 [key] false false none
    let state (es : List (ServingEvent Unit)) := es.foldl (Serving.step ps)
      (Serving.start 1 ⟨1, fun _ => 0⟩ fun _ => c)
    ∃ data, (state (pushes ++ reads)).readers () = .returned data ∧
      data.sample .global = [200] ∧ (data.sample (.account key)).Subperm (data.sample .global) ∧
      ((state pushes).lookups ps () reads).map (fun e => (e.1, e.2.isSome)) =
        [(6, true), (5, false)] := by
  intro key ps pushes reads c state
  have h := readers_see_whole_pushes (n := 1) le_rfl ps ⟨1, fun _ => 0⟩ (fun _ => c) pushes reads ()
    (Serving.readers_foldl_writer _ _ _ _)
  have hresult : (((state (pushes ++ reads)).readers ()).result.map fun data =>
      data.sample .global) = some [200] := by
    decide +kernel
  obtain ⟨data, hdata, hglobal⟩ := Option.map_eq_some_iff.mp hresult
  have hreturned := ReaderPc.eq_returned_of_result hdata
  obtain ⟨listed, looked, -, -, -, -, -, hsub⟩ := h.2 data hreturned
  exact ⟨data, hreturned, hglobal, hsub rfl (List.nodup_singleton key) (by decide) key,
    by decide +kernel⟩

end PriorityFeeEstimator
