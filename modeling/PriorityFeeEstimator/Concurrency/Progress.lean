import Mathlib
import PriorityFeeEstimator.Concurrency.Freshness

/-!
# Nobody waits for anybody

The writer and the readers share the store without waiting for each other. A push
is over after five steps of the writer, and a request after a number of steps of
its reader that depends on the shards and on the capacity only, however the steps
of the others fall in between.
-/

namespace PriorityFeeEstimator

/-- Who takes the step: a reader, or the writer. -/
def ServingEvent.mover {R : Type} : ServingEvent R → Option R
  | .writer => none
  | .reader r _ => some r

namespace ReaderPc

variable {shards : Shards} {c : Calculations}

/-- How many steps a reader has left at most, when no shard ever has more than
    `k` slots. -/
def rank (k : ℕ) : ReaderPc shards c → ℕ
  | .listing left slotsVec => left.length * (k + 1) + slotsVec.length + 2
  | .reading todo _ => todo.length + 1
  | .panicked => 0
  | .returned _ => 0

/-- A shard has no more slots than the store. -/
theorem length_shardSlots_le (o : IterOrder Slot) (m : PriorityFeesBySlot)
    (shard : Fin shards.count) : (shardSlots shards o m shard).length ≤ m.keys.length := by
  rw [shardSlots, (o.perm _).length_eq, List.length_map, AList.keys, List.keys, List.length_map]
  exact List.length_filter_le _ _

theorem rank_readerStep_lt {k : ℕ} {pc : ReaderPc shards c} (h : pc.rank k ≠ 0) (o : IterOrder Slot)
    {m : PriorityFeesBySlot} (hm : m.keys.length ≤ k) : (readerStep o m pc).rank k < pc.rank k := by
  cases pc with
  | listing left slotsVec =>
    cases left with
    | nil =>
      have hcut := calculateLookbackSize_le c.lookbackPeriod slotsVec.length
      rw [readerStep_listing_nil, rank, rank, length_cutSlots]
      omega
    | cons shard left =>
      have hlen := length_shardSlots_le o m shard
      rw [readerStep, rank, rank, List.length_append, List.length_cons, Nat.add_one_mul]
      omega
  | reading todo acc =>
    cases todo with
    | nil => exact Nat.zero_lt_one
    | cons slot todo => exact Nat.lt_succ_self _
  | panicked => exact absurd rfl h
  | returned data => exact absurd rfl h

/-- No step panics: the slice of the slots is in bounds. -/
theorem readerStep_ne_panicked {pc : ReaderPc shards c} (h : pc ≠ .panicked) (o : IterOrder Slot)
    (m : PriorityFeesBySlot) : readerStep o m pc ≠ .panicked := by
  cases pc with
  | listing left slotsVec =>
    cases left with
    | nil =>
      rw [readerStep_listing_nil]
      nofun
    | cons shard left => nofun
  | reading todo acc => cases todo <;> nofun
  | panicked => exact absurd rfl h
  | returned data => nofun

/-- A reader that has no step left and has not panicked has its answer. -/
theorem returned_of_rank_eq_zero {k : ℕ} {pc : ReaderPc shards c} (h : pc ≠ .panicked)
    (hrank : pc.rank k = 0) : ∃ data, pc = .returned data := by
  cases pc with
  | listing left slotsVec => simp [rank] at hrank
  | reading todo acc => simp [rank] at hrank
  | panicked => exact absurd rfl h
  | returned data => exact ⟨data, rfl⟩

end ReaderPc

namespace Serving

variable {R : Type} {shards : Shards} {calcs : R → Calculations} {n : ℕ}
  {ps : List (Slot × Txn)} {x : Serving shards calcs}

/-- The store never has more than one slot above the capacity. -/
theorem Ok.keys_length_le (h : x.Ok n ps) (hn : 0 < n) :
    x.tracker.priorityFees.keys.length ≤ n + 1 := by
  have hsim := Simulates.run hn (ps.take x.done)
  have hle := (hsim.length_keys_le hn).trans (Nat.le_succ n)
  cases hp : ps[x.done]? with
  | none =>
    rw [(h.idle hp).1]
    exact hle
  | some p =>
    rw [(h.midway p hp).length_keys hsim hn h.running]
    split
    · exact le_rfl
    · exact hle

/-- How many steps the writer has left at most. -/
def writerRank (ps : List (Slot × Txn)) (x : Serving shards calcs) : ℕ :=
  if x.done < ps.length then 5 * (ps.length - x.done - 1) + x.pc.rank else 0

theorem rank_pos_of_ne_returned {pc : PushPc} (h : pc ≠ .returned) : 0 < pc.rank := by
  cases pc with
  | returned => exact absurd rfl h
  | _ => exact Nat.succ_pos _

theorem writerRank_writerStep_lt (hrun : x.pc ≠ .returned) (hleft : x.done < ps.length) :
    (x.writerStep ps).writerRank ps < x.writerRank ps := by
  have hpos := rank_pos_of_ne_returned hrun
  rw [writerRank, writerRank, if_pos hleft]
  rcases writerStep_cases ps x with ⟨hnone, -⟩ | ⟨p, -, -, he⟩ | ⟨p, -, -, he⟩
  · rw [List.getElem?_eq_none_iff] at hnone
    omega
  · -- the next push, if there is one, starts with all its steps left
    rw [he]
    change (if x.done + 1 < ps.length then 5 * (ps.length - (x.done + 1) - 1) + 5 else 0) < _
    split <;> omega
  · have hlt := rank_pushStep_lt p x.tracker hrun
    rw [he, if_pos hleft]
    exact Nat.add_lt_add_left hlt _

variable [DecidableEq R]

/-- The steps of others leave a reader alone. -/
theorem readers_step_of_mover_ne {r : R} {e : ServingEvent R} (h : e.mover ≠ some r) :
    (x.step ps e).readers r = x.readers r := by
  refine ((readers_step ps x e r).resolve_right ?_).1
  rintro ⟨o, rfl, -⟩
  exact h rfl

/-- The steps of readers leave the writer alone. -/
theorem writerRank_step_of_mover_ne {e : ServingEvent R} (h : e.mover ≠ none) :
    (x.step ps e).writerRank ps = x.writerRank ps := by
  cases e with
  | writer => exact absurd rfl h
  | reader r o => rfl

/-- Once the writer has taken five steps for each of its pushes it has no push left. -/
theorem length_le_done_of_countP (n : ℕ) (ps : List (Slot × Txn))
    (shards : Shards) (calcs : R → Calculations) {es : List (ServingEvent R)}
    (hcount : 5 * ps.length ≤ es.countP (·.mover = none)) :
    ps.length ≤ (es.foldl (step ps) (start n shards calcs)).done := by
  refine done_of_rank_le_countP (Ok n ps) _ (writerRank ps) (fun x => ps.length ≤ x.done)
    (fun x e hx => hx.step e) (fun x e hx hleft he => ?_) (fun x e _ he => ?_)
    (fun x e hend => hend.trans (done_le_step ps x e)) (fun x hx hzero => ?_) (start_ok n ps shards calcs) (le_trans ?_ hcount)
  · obtain rfl : e = .writer := by
      cases e with
      | writer => rfl
      | reader r o => simp [ServingEvent.mover] at he
    exact writerRank_writerStep_lt hx.running (Nat.lt_of_not_le hleft)
  · exact (writerRank_step_of_mover_ne (of_decide_eq_false he)).le
  · by_contra hleft
    have hpos := rank_pos_of_ne_returned hx.running
    rw [writerRank, if_pos (Nat.lt_of_not_le hleft)] at hzero
    omega
  · rw [writerRank]
    change (if 0 < ps.length then 5 * (ps.length - 0 - 1) + 5 else 0) ≤ _
    split <;> omega

/-- A reader that has taken `n + 2` steps for each shard and two more has returned. -/
theorem exists_returned_of_countP {n : ℕ} (hn : 1 ≤ n) (ps : List (Slot × Txn))
    (shards : Shards) (calcs : R → Calculations) {es : List (ServingEvent R)} {r : R}
    (hcount : shards.count * (n + 2) + 2 ≤ es.countP (·.mover = some r)) :
    ∃ data, (es.foldl (step ps) (start n shards calcs)).readers r = .returned data := by
  refine done_of_rank_le_countP
    (fun x : Serving shards calcs => x.Ok n ps ∧ x.readers r ≠ .panicked) _
    (fun x => (x.readers r).rank (n + 1)) (fun x => ∃ data, x.readers r = .returned data)
    (fun x e hx => ⟨hx.1.step e, ?_⟩) (fun x e hx hleft he => ?_) (fun x e _ he => ?_)
    (fun x e hend => ?_) (fun x hx hzero => ReaderPc.returned_of_rank_eq_zero hx.2 hzero)
    ⟨start_ok n ps shards calcs, nofun⟩ (le_trans ?_ hcount)
  · rcases readers_step ps x e r with ⟨hstay, -⟩ | ⟨o, -, hmove, -⟩
    · rw [hstay]
      exact hx.2
    · rw [hmove]
      exact ReaderPc.readerStep_ne_panicked hx.2 o x.tracker.priorityFees
  · obtain ⟨o, rfl⟩ : ∃ o, e = .reader r o := by
      cases e with
      | writer => simp [ServingEvent.mover] at he
      | reader r' o =>
        obtain rfl : r' = r := Option.some.inj (of_decide_eq_true he)
        exact ⟨o, rfl⟩
    have hmove : (x.step ps (.reader r o)).readers r =
        readerStep o x.tracker.priorityFees (x.readers r) := Function.update_self ..
    rw [hmove]
    refine ReaderPc.rank_readerStep_lt (fun hzero => ?_) o (hx.1.keys_length_le hn)
    exact hleft (ReaderPc.returned_of_rank_eq_zero hx.2 hzero)
  · exact (congrArg _ (readers_step_of_mover_ne (of_decide_eq_false he))).le
  · obtain ⟨data, hdata⟩ := hend
    rcases readers_step ps x e r with ⟨hstay, -⟩ | ⟨o, -, hmove, -⟩
    · exact ⟨data, hstay.trans hdata⟩
    · exact ⟨data, by rw [hmove, hdata]; rfl⟩
  · change (List.finRange shards.count).length * (n + 1 + 1) + 0 + 2 ≤ _
    rw [List.length_finRange]

end Serving

/-- Whatever the order of the steps: once the writer has taken five steps for each
    of its pushes they are all made, and a reader has its answer once it has taken
    `n + 2` steps for each shard and two more. -/
theorem everyone_finishes {R : Type} [DecidableEq R] {n : ℕ} (hn : 1 ≤ n)
    (ps : List (Slot × Txn)) (shards : Shards) (calcs : R → Calculations)
    (es : List (ServingEvent R)) :
    let x := es.foldl (Serving.step ps) (Serving.start n shards calcs)
    (5 * ps.length ≤ es.countP (·.mover = none) → x.tracker = .run n ps) ∧
    ∀ r, shards.count * (n + 2) + 2 ≤ es.countP (·.mover = some r) →
      ∃ data, x.readers r = .returned data := by
  intro x
  refine ⟨fun hcount => ?_, fun r => Serving.exists_returned_of_countP hn ps shards calcs⟩
  have hdone : ps.length ≤ x.done := Serving.length_le_done_of_countP n ps shards calcs hcount
  have hok : x.Ok n ps := Serving.ok_run n ps shards calcs es
  rw [(hok.idle (List.getElem?_eq_none hdone)).1, List.take_of_length_le hdone]

/-- The writer and a reader take turns. -/
theorem everyone_finishes_turns :
    let ps : List (Slot × Txn) := [(1, ⟨[], 100, false, .legacyV0⟩), (2, ⟨[], 200, false, .v1⟩)]
    let es : List (ServingEvent Unit) :=
      (List.replicate 10 [.writer, .reader () (.stored Slot)]).flatten
    let x := es.foldl (Serving.step ps)
      (Serving.start 1 ⟨1, fun _ => 0⟩ fun _ => .calculation2 [] false false none)
    x.tracker = .run 1 ps ∧ ∃ data, x.readers () = .returned data := by
  intro ps es x
  have h := everyone_finishes (n := 1) le_rfl ps ⟨1, fun _ => 0⟩
    (fun _ => .calculation2 [] false false none) es
  exact ⟨h.1 (by decide), h.2 () (by decide)⟩

end PriorityFeeEstimator
