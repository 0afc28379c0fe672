import Mathlib
import PriorityFeeEstimator.Concurrency.Serving

/-!
# The slots listed at one instant

A push stores its transaction before it removes the slot that has to go, so that
between these two steps the store holds one slot more than the window. A reader
that lists the slots just then, all at once, lists one slot too many, and without
a lookback it averages over all of them. `Clear` is the guard that keeps readers
out of the gap; a lookback within the capacity does so as well.
-/

namespace PriorityFeeEstimator

open SlotPriorityFees

-- ════════════════════════════════════════════════════════════════════════
-- The slots in the store
-- ════════════════════════════════════════════════════════════════════════

/-- The slot that has to go is the one step left of the push. -/
def PushPc.removing : PushPc → Bool
  | remove _ => true
  | _ => false

/-- A transaction of a new slot makes the store one slot larger. -/
theorem length_keys_store {m : PriorityFeesBySlot} {slot : Slot} (h : slot ∉ m) (x : Txn) :
    (m.store slot x.accounts x.priorityFee x.isVote x.version).keys.length =
      m.keys.length + 1 := by
  have hkeys : slot ∉ m.keys := fun hmem => h (AList.mem_keys.mpr hmem)
  rw [PriorityFeesBySlot.store, if_pos h, AList.keys_insert, List.erase_of_not_mem hkeys,
    List.length_cons]

/-- The store during a push on a tracker of positive capacity: as large as before,
    but for the gap, where it exceeds the capacity by one. -/
theorem Midway.length_keys {n : ℕ} {t₀ t : PriorityFeeTracker} {w : Window n}
    (hsim : Simulates t₀ w) (hn : 0 < n) {p : Slot × Txn} {pc : PushPc}
    (h : Midway t₀ p t pc) (hpc : pc ≠ .returned) :
    t.priorityFees.keys.length =
      if pc.removing then n + 1 else t₀.priorityFees.keys.length := by
  cases pc with
  | contains => rw [show t = t₀ from h]; rfl
  | locked => rw [show t = t₀ from h.1]; rfl
  | containsKey r => rw [h.1]; rfl
  | insert r => rw [h.1]; rfl
  | andModify r => rw [h.1]; rfl
  | remove d =>
    obtain ⟨hstore, hcache⟩ := h
    have hpop : (t₀.slotCache.lockedPushPop p.1).1 = some d := by
      rw [← SlotCache.pushPop_eq_lockedPushPop, ← hcache]
    rcases (hsim.coherent hn).lockedPushPop_cases p.1 with ⟨-, he⟩ | ⟨-, c', he, -⟩ |
      ⟨hout, oldest, rest, c', he, hfull, -⟩
    · rw [he] at hpop
      cases hpop
    · rw [he] at hpop
      cases hpop
    · have hlen : t₀.priorityFees.keys.length = n := by
        rw [hsim.keys_perm.length_eq, ← hsim.queue, hfull, hsim.capacity]
      have hnew : p.1 ∉ t₀.priorityFees := by rwa [hsim.mem_store_iff, ← hsim.set]
      rw [hstore, length_keys_store hnew, hlen]
      rfl
  | returned => exact absurd rfl hpc

namespace Serving

variable {R : Type} {shards : Shards} {calcs : R → Calculations} {n : ℕ}
  {ps : List (Slot × Txn)} {x : Serving shards calcs}

/-- The store holds more slots than the window exactly in the gap. -/
theorem Ok.keys_length_le_iff (h : x.Ok n ps) (hn : 0 < n) :
    x.tracker.priorityFees.keys.length ≤ n ↔ x.pc.removing = false := by
  have hsim := Simulates.run hn (ps.take x.done)
  have hle := hsim.length_keys_le hn
  cases hp : ps[x.done]? with
  | none =>
    obtain ⟨ht, hpc⟩ := h.idle hp
    rw [ht, hpc]
    exact iff_of_true hle rfl
  | some p =>
    rw [(h.midway p hp).length_keys hsim hn h.running]
    cases hgap : x.pc.removing with
    | false => exact iff_of_true hle rfl
    | true =>
      refine iff_of_false ?_ (by simp)
      show ¬n + 1 ≤ n
      omega

end Serving

-- ════════════════════════════════════════════════════════════════════════
-- The slots a reader lists and looks up
-- ════════════════════════════════════════════════════════════════════════

/-- The whole store as one shard, whose slots are listed at one instant. -/
def Shards.one : Shards := ⟨1, fun _ => 0⟩

namespace ReaderPc

section Reader

variable {shards : Shards} {c : Calculations}

/-- The list of slots while it is collected. -/
def slotsVec : ReaderPc shards c → List Slot
  | .listing _ slotsVec => slotsVec
  | _ => []

/-- The next step lists slots. -/
def lists : ReaderPc shards c → Bool
  | .listing (_ :: _) _ => true
  | _ => false

/-- The slots looked up so far, together with those still to be looked up, are at
    most `k`. -/
def DrawsOn (k : ℕ) (looked : List (Slot × Option SlotPriorityFees)) : ReaderPc shards c → Prop
  | .listing _ _ => looked = []
  | .reading todo _ => looked.length + todo.length ≤ k
  | .panicked => looked.length ≤ k
  | .returned _ => looked.length ≤ k

/-- A step keeps the bound, when the lookback cuts the list to it. -/
theorem DrawsOn.step {k : ℕ} {looked : List (Slot × Option SlotPriorityFees)}
    {pc : ReaderPc shards c} (h : pc.DrawsOn k looked) (o : IterOrder Slot)
    (m : PriorityFeesBySlot)
    (hcut : ∀ slotsVec, pc = .listing [] slotsVec →
      calculateLookbackSize c.lookbackPeriod slotsVec.length ≤ k) :
    (readerStep o m pc).DrawsOn k (looked ++ (pc.nextLookup m).toList) := by
  cases pc with
  | listing left slotsVec =>
    obtain rfl : looked = [] := h
    cases left with
    | nil =>
      rw [readerStep_listing_nil]
      show ([] : List (Slot × Option SlotPriorityFees)).length + (cutSlots _ slotsVec).length ≤ k
      rw [List.length_nil, Nat.zero_add, length_cutSlots]
      exact hcut slotsVec rfl
    | cons shard left => exact rfl
  | reading todo acc =>
    change looked.length + todo.length ≤ k at h
    cases todo with
    | nil =>
      show (looked ++ []).length ≤ k
      rwa [List.append_nil]
    | cons slot todo =>
      show (looked ++ [_]).length + todo.length ≤ k
      rw [List.length_cons] at h
      rw [List.length_append, List.length_singleton]
      omega
  | panicked =>
    show (looked ++ []).length ≤ k
    rwa [List.append_nil]
  | returned data =>
    show (looked ++ []).length ≤ k
    rwa [List.append_nil]

end Reader

section OneShard

variable {c : Calculations} {o : IterOrder Slot} {m : PriorityFeesBySlot}

theorem length_shardSlots_one (o : IterOrder Slot) (m : PriorityFeesBySlot)
    (shard : Fin Shards.one.count) :
    (shardSlots Shards.one o m shard).length = m.keys.length := by
  have hall : (m.entries.filter fun entry => Shards.one.shardOf entry.1 = shard) = m.entries := by
    apply List.filter_eq_self.mpr
    intro entry _
    apply decide_eq_true
    show (0 : Fin 1) = shard
    exact Subsingleton.elim _ _
  rw [shardSlots, (o.perm _).length_eq, List.length_map, hall, AList.keys, List.keys,
    List.length_map]

/-- With one shard the list is collected in one step, and has at most `k` slots
    then. -/
def Listed (k : ℕ) : ReaderPc Shards.one c → Prop
  | .listing left slotsVec =>
    left.length ≤ 1 ∧ (left ≠ [] → slotsVec = []) ∧ slotsVec.length ≤ k
  | _ => True

theorem Listed.step {k : ℕ} {pc : ReaderPc Shards.one c} (h : pc.Listed k)
    (hm : pc.lists = true → m.keys.length ≤ k) : (readerStep o m pc).Listed k := by
  cases pc with
  | listing left slotsVec =>
    cases left with
    | nil =>
      rw [readerStep_listing_nil]
      exact trivial
    | cons shard left =>
      obtain ⟨hone, hempty, -⟩ := h
      obtain rfl : left = [] := List.eq_nil_of_length_eq_zero (by simpa using hone)
      obtain rfl := hempty (List.cons_ne_nil shard [])
      refine ⟨Nat.zero_le _, fun hne => absurd rfl hne, ?_⟩
      rw [List.nil_append, length_shardSlots_one]
      exact hm rfl
  | reading todo acc => cases todo <;> exact trivial
  | panicked => exact trivial
  | returned data => exact trivial

/-- A list that is collected has all the slots of the store. -/
theorem length_keys_le_of_lists {pc : ReaderPc Shards.one c} (h : pc.lists = true) :
    m.keys.length ≤ (readerStep o m pc).slotsVec.length := by
  cases pc with
  | listing left slotsVec =>
    cases left with
    | nil => cases h
    | cons shard left =>
      show _ ≤ (slotsVec ++ shardSlots Shards.one o m shard).length
      rw [List.length_append, length_shardSlots_one]
      omega
  | reading todo acc => cases h
  | panicked => cases h
  | returned data => cases h

theorem Listed.length_slotsVec_le {k : ℕ} {pc : ReaderPc Shards.one c} (h : pc.Listed k) :
    pc.slotsVec.length ≤ k := by
  cases pc with
  | listing left slotsVec => exact h.2.2
  | reading todo acc => exact Nat.zero_le k
  | panicked => exact Nat.zero_le k
  | returned data => exact Nat.zero_le k

end OneShard

end ReaderPc

-- ════════════════════════════════════════════════════════════════════════
-- Runs
-- ════════════════════════════════════════════════════════════════════════

namespace Serving

variable {R : Type} {shards : Shards} {calcs : R → Calculations} {n : ℕ}
  {ps : List (Slot × Txn)}

/-- The guard: no reader lists slots in the gap between the transaction of a new
    slot and the removal of the slot that goes for it. -/
def Clear (x : Serving shards calcs) : ServingEvent R → Prop
  | .writer => True
  | .reader r _ => (x.readers r).lists = true → x.pc.removing = false

instance (x : Serving shards calcs) (e : ServingEvent R) : Decidable (x.Clear e) :=
  match e with
  | .writer => inferInstanceAs (Decidable True)
  | .reader r _ =>
    inferInstanceAs (Decidable ((x.readers r).lists = true → x.pc.removing = false))

variable [DecidableEq R]

/-- A step that meets the guard keeps a list of slots to the capacity. -/
theorem Ok.listed_step {calcs : R → Calculations} {x : Serving Shards.one calcs}
    (hok : x.Ok n ps) (hn : 0 < n) {r : R} (h : (x.readers r).Listed n) {e : ServingEvent R}
    (he : x.Clear e) : ((x.step ps e).readers r).Listed n := by
  rcases readers_step ps x e r with ⟨hstay, -⟩ | ⟨o, rfl, hmove, -⟩
  · rwa [hstay]
  · rw [hmove]
    exact h.step fun hlists => (hok.keys_length_le_iff hn).mpr (he hlists)

/-- A step keeps the bound on the lookups, when the lookback cuts to it. -/
theorem drawsOn_step {x : Serving shards calcs} {r : R} {k : ℕ}
    {looked : List (Slot × Option SlotPriorityFees)} (h : (x.readers r).DrawsOn k looked)
    (hcut : ∀ slotsVec, x.readers r = .listing [] slotsVec →
      calculateLookbackSize (calcs r).lookbackPeriod slotsVec.length ≤ k)
    (e : ServingEvent R) :
    ((x.step ps e).readers r).DrawsOn k (looked ++ (x.lookupOf r e).toList) := by
  rcases readers_step ps x e r with ⟨hstay, hnone⟩ | ⟨o, rfl, hmove, hlookup⟩
  · rwa [hstay, hnone, Option.toList_none, List.append_nil]
  · rw [hmove, hlookup]
    exact h.step o x.tracker.priorityFees hcut

/-- A run whose steps all meet the guard keeps both bounds. -/
theorem within_run (hn : 0 < n) (ps : List (Slot × Txn)) (calcs : R → Calculations)
    {es : List (ServingEvent R)} (h : Allowed (step ps) Clear (start n Shards.one calcs) es)
    (r : R) :
    ((es.foldl (step ps) (start n Shards.one calcs)).readers r).Listed n ∧
      ((es.foldl (step ps) (start n Shards.one calcs)).readers r).DrawsOn n
        ((start n Shards.one calcs).lookups ps r es) := by
  have hstep : ∀ (x : Serving Shards.one calcs) looked e,
      x.Ok n ps ∧ (x.readers r).Listed n ∧ (x.readers r).DrawsOn n looked → x.Clear e →
        (x.step ps e).Ok n ps ∧ ((x.step ps e).readers r).Listed n ∧
          ((x.step ps e).readers r).DrawsOn n (looked ++ (x.lookupOf r e).toList) := by
    rintro x looked e ⟨hok, hlisted, hdraws⟩ he
    refine ⟨hok.step e, hok.listed_step hn hlisted he, drawsOn_step hdraws (fun slots hpc => ?_) e⟩
    rw [hpc] at hlisted
    exact (calculateLookbackSize_le _ _).trans hlisted.2.2
  exact (h.invariant_observed _ hstep (l := []) ⟨start_ok n ps Shards.one calcs,
    ⟨le_rfl, fun _ => rfl, Nat.zero_le n⟩, rfl⟩).2

/-- What a reader returns is made of its lookups, each of another slot. -/
theorem returned_of_lookups (hn : 0 < n) (ps : List (Slot × Txn)) {r : R} {data : DataStats}
    {es : List (ServingEvent R)}
    (hdata : (es.foldl (step ps) (start n shards calcs)).readers r = .returned data) :
    let looked := (start n shards calcs).lookups ps r es
    (looked.map Prod.fst).Nodup ∧ data = (calcs r).sampler.finish
      ((looked.map Prod.snd).foldl (calcs r).sampler.visitEntry (calcs r).sampler.init) := by
  have hsince := (since_run (r := r) hn (start_ok n ps shards calcs) rfl es).2
  rw [hdata] at hsince
  exact hsince.returned

end Serving

/-- In an interleaving of the pushes of one writer with readers that list the
    slots at one instant, every list collected has at most `n` slots exactly when
    no reader lists them in the gap, between the transaction that a push stores
    in a new slot and its removal of the slot that goes. Then an estimate is made
    of at most `n` lookups, each of another slot and with what the store held for
    it then. -/
theorem snapshots_within_iff {R : Type} [DecidableEq R] {n : ℕ} (hn : 1 ≤ n)
    (ps : List (Slot × Txn)) (calcs : R → Calculations) (es : List (ServingEvent R)) :
    let start := Serving.start n Shards.one calcs
    let state := fun es : List (ServingEvent R) => es.foldl (Serving.step ps) start
    let clear := Allowed (Serving.step ps) Serving.Clear start es
    ((∀ es₁, es₁ <+: es → ∀ r, ((state es₁).readers r).slotsVec.length ≤ n) ↔ clear) ∧
    (clear → ∀ r data, (state es).readers r = .returned data →
      let looked := start.lookups ps r es
      looked.length ≤ n ∧ (looked.map Prod.fst).Nodup ∧ data = (calcs r).sampler.finish
        ((looked.map Prod.snd).foldl (calcs r).sampler.visitEntry (calcs r).sampler.init)) := by
  intro start state clear
  refine ⟨⟨fun h => ?_, fun h es₁ hes₁ r => ?_⟩, fun h r data hdata => ?_⟩
  · refine allowed_iff_forall_concat.mpr fun es₁ e hes₁ => ?_
    cases e with
    | writer => exact trivial
    | reader r o =>
      intro hlists
      rw [← (Serving.ok_run n ps Shards.one calcs es₁).keys_length_le_iff hn]
      have hstate : state (es₁ ++ [.reader r o]) = (state es₁).step ps (.reader r o) := by
        simp only [state, List.foldl_append, List.foldl_cons, List.foldl_nil]
      have hnext : ((state es₁).step ps (.reader r o)).readers r =
          readerStep o (state es₁).tracker.priorityFees ((state es₁).readers r) :=
        Function.update_self ..
      have hlist := h _ hes₁ r
      rw [hstate, hnext] at hlist
      exact (ReaderPc.length_keys_le_of_lists hlists).trans hlist
  · exact (Serving.within_run hn ps calcs (h.initial_part hes₁) r).1.length_slotsVec_le
  · have hdraws := (Serving.within_run hn ps calcs h r).2
    change ((state es).readers r).DrawsOn n _ at hdraws
    rw [hdata] at hdraws
    exact ⟨hdraws, Serving.returned_of_lookups hn ps hdata⟩

/-- A reader that lists the slots when the second push is over. -/
theorem snapshots_within_iff_settled :
    let ps : List (Slot × Txn) := [(1, ⟨[], 100, false, .legacyV0⟩), (2, ⟨[], 200, false, .v1⟩)]
    let es : List (ServingEvent Unit) :=
      List.replicate 9 .writer ++ List.replicate 4 (.reader () (.stored Slot))
    let c : Calculations := .calculation2 [] false false none
    let x := es.foldl (Serving.step ps) (Serving.start 1 Shards.one fun _ => c)
    let looked := (Serving.start 1 Shards.one fun _ => c).lookups ps () es
    ∃ data, x.readers () = .returned data ∧
      data.sample .global = [200] ∧ looked.map Prod.fst = [2] ∧ looked.length ≤ 1 ∧
      data = c.sampler.finish
        ((looked.map Prod.snd).foldl c.sampler.visitEntry c.sampler.init) := by
  intro ps es c x looked
  have h := snapshots_within_iff (n := 1) le_rfl ps (fun _ => c) es
  have hresult : ((x.readers ()).result.map fun data => data.sample .global) = some [200] := by
    decide +kernel
  obtain ⟨data, hdata, hglobal⟩ := Option.map_eq_some_iff.mp hresult
  have hreturned := ReaderPc.eq_returned_of_result hdata
  obtain ⟨hlen, -, hmade⟩ := h.2 (by decide +kernel) () data hreturned
  exact ⟨data, hreturned, hglobal, by decide +kernel, hlen, hmade⟩

/-- A reader that lists the slots after slot 2 is stored and before slot 1 is
    removed, with a window of one: it lists both, and averages over both. -/
theorem snapshots_within_gap :
    let ps : List (Slot × Txn) := [(1, ⟨[], 100, false, .legacyV0⟩), (2, ⟨[], 200, false, .v1⟩)]
    let state := fun es : List (ServingEvent Unit) => es.foldl (Serving.step ps)
      (Serving.start 1 Shards.one fun _ => .calculation2 [] false false none)
    let gap : List (ServingEvent Unit) := List.replicate 8 .writer
    let read : ServingEvent Unit := .reader () (.stored Slot)
    ((state (gap ++ [read])).readers ()).slotsVec.length = 2 ∧
    (((state (gap ++ List.replicate 5 read)).readers ()).result.map fun data =>
      data.sample .global) = some [200, 100] := by
  decide +kernel

/-- A lookback of at most `n` keeps an estimate to `n` lookups of different slots in
    every interleaving, in the gap too and however the slots are listed. -/
theorem lookback_within {R : Type} [DecidableEq R] {n : ℕ} (hn : 1 ≤ n)
    (ps : List (Slot × Txn)) (shards : Shards) (calcs : R → Calculations)
    (es : List (ServingEvent R)) {r : R} {L : UInt32}
    (hlookback : (calcs r).lookbackPeriod = some L) (hL : L.toNat ≤ n) {data : DataStats}
    (hdata : (es.foldl (Serving.step ps) (Serving.start n shards calcs)).readers r =
      .returned data) :
    let looked := (Serving.start n shards calcs).lookups ps r es
    looked.length ≤ n ∧ (looked.map Prod.fst).Nodup ∧ data = (calcs r).sampler.finish
      ((looked.map Prod.snd).foldl (calcs r).sampler.visitEntry (calcs r).sampler.init) := by
  have hcut : ∀ slotsVec : List Slot,
      calculateLookbackSize (calcs r).lookbackPeriod slotsVec.length ≤ n := by
    intro slotsVec
    rw [calculateLookbackSize, hlookback]
    exact (Nat.min_le_right _ _).trans hL
  have hstart : ((Serving.start n shards calcs).readers r).DrawsOn n [] := rfl
  have hdraws : ((es.foldl (Serving.step ps) (Serving.start n shards calcs)).readers r).DrawsOn n
      ((Serving.start n shards calcs).lookups ps r es) :=
    invariant_observed (fun (x : Serving shards calcs) looked => (x.readers r).DrawsOn n looked)
      (fun _ _ e hx => Serving.drawsOn_step hx (fun slotsVec _ => hcut slotsVec) e) hstart es
  rw [hdata] at hdraws
  exact ⟨hdraws, Serving.returned_of_lookups hn ps hdata⟩

end PriorityFeeEstimator
