import Mathlib
import PriorityFeeEstimator.Lib.FifoHistory
import PriorityFeeEstimator.Concurrency.Snapshots

/-!
# How recent an answer is

A reader that starts when `j` pushes are made works on versions from `j` on. It
lists every slot that stays in the store while it runs, so it counts all that was
pushed to such a slot before it started. And when the pushes made meanwhile are
all to one slot, and none of them sends a slot away, what the reader returns is
what it would have got alone, after some whole number of pushes.
-/

namespace PriorityFeeEstimator

open SlotPriorityFees

namespace Serving

variable {R : Type} {shards : Shards} {calcs : R → Calculations} {n : ℕ}
  {ps : List (Slot × Txn)} {x : Serving shards calcs}

/-- In a push that sends no slot away every slot is at the version before it, until
    the push ends. -/
theorem Ok.clock_eq_done (h : x.Ok n ps) (hn : 0 < n)
    (hroom : ∀ p, ps[x.done]? = some p → p.1 ∈ (.run n (ps.take x.done) : Window n).keys ∨
      (.run n (ps.take x.done) : Window n).keys.length < n) (s : Slot) : x.clock s = x.done := by
  have hbehind : ¬Midway.ahead x.pc s := by
    cases hpc : x.pc with
    | remove d =>
      exfalso
      cases hp : ps[x.done]? with
      | none => exact absurd (hpc.symm.trans (h.idle hp).2) (by simp)
      | some p =>
        have hmid := h.midway p hp
        rw [hpc] at hmid
        have hpop := congrArg Prod.fst hmid.2
        rw [SlotCache.pushPop_eq_lockedPushPop,
          ((Simulates.run hn (ps.take x.done)).lockedPushPop hn p.1 p.2).1] at hpop
        rcases hroom p hp with hheld | hlt
        · rw [if_pos hheld] at hpop
          cases hpop
        · rw [KeyedFifo.dropped, if_pos hlt, ite_self] at hpop
          cases hpop
    | returned => exact absurd hpc h.running
    | _ => exact id
  rw [clock, if_neg hbehind, Nat.add_zero]

end Serving

/-- The transactions counted under an account stay when a slot gets more. -/
theorem accountLog_mono (a : Pubkey) {l l' : List Txn} (h : l <+: l') :
    accountLog a l <+: accountLog a l' := by
  obtain ⟨more, rfl⟩ := h
  cases l with
  | nil => exact List.nil_prefix
  | cons t ts =>
    rw [List.cons_append, accountLog, accountLog, List.flatMap_append, ← List.append_assoc]
    exact List.prefix_append _ _

/-- A slot listed is looked up when the lookback reaches beyond the slots above
    it. -/
theorem mem_cutSlots {lookbackPeriod : Option UInt32} {slots : List Slot} (hnd : slots.Nodup)
    {s : Slot} (hs : s ∈ slots)
    (h : ∀ l, lookbackPeriod = some l → (slots.toFinset.filter fun t => s < t).card < l.toNat) :
    s ∈ cutSlots lookbackPeriod slots := by
  have hall : (slots.toFinset.filter fun t => s < t).card < slots.length := by
    rw [← List.toFinset_card_of_nodup hnd]
    refine Finset.card_lt_card (Finset.filter_ssubset.mpr ⟨s, List.mem_toFinset.mpr hs, ?_⟩)
    exact lt_irrefl s
  rw [← List.mem_toFinset, cutSlots, toFinset_take_descending hnd, mem_highest]
  refine ⟨List.mem_toFinset.mpr hs, lt_min hall ?_⟩
  cases hl : lookbackPeriod with
  | none => exact hall
  | some l => exact h l hl

namespace Calculations

/-- What a slot contributes grows with its log. Only the fee that fills an empty
    slot may go. -/
theorem elim_part_sublist (c : Calculations) {l l' : List Txn} (hl : l <+: l') (s : Slot)
    {d : DataType} (hd : d = .global ∨ c.includeEmptySlots = false) :
    ((ofLog s l).elim [] (c.part · d)).Sublist ((ofLog s l').elim [] (c.part · d)) := by
  have hglobal : ∀ includeVote, ((ofLog s l).elim [] (·.globalPart includeVote)).Sublist
      ((ofLog s l').elim [] (·.globalPart includeVote)) := by
    intro includeVote
    rw [elim_globalPart_ofLog, elim_globalPart_ofLog]
    exact Fees.counted_ofTxns_sublist includeVote hl.sublist
  have haccount : ∀ includeVote a,
      ((ofLog s l).elim [] (·.accountPart includeVote false a)).Sublist
        ((ofLog s l').elim [] (·.accountPart includeVote false a)) := by
    intro includeVote a
    rw [elim_accountPart_ofLog, elim_accountPart_ofLog]
    exact Fees.counted_ofTxns_sublist includeVote (accountLog_mono a hl).sublist
  cases hv : ofLog s l with
  | none => exact List.nil_sublist _
  | some v =>
    obtain ⟨v', hv'⟩ : ∃ v', ofLog s l' = some v' := by
      have hne : l ≠ [] := fun he => by rw [he] at hv; cases hv
      rw [← Option.ne_none_iff_exists']
      exact mt ofLog_eq_none_iff.mp fun he => hne (List.prefix_nil.mp (he ▸ hl))
    simp only [hv, hv', Option.elim_some] at hglobal haccount ⊢
    cases c with
    | calculation1 accounts includeVote includeEmptySlots lookback =>
      cases d with
      | global => exact hglobal includeVote
      | account a => exact .refl _
      | allAccounts =>
        obtain rfl : includeEmptySlots = false := hd.resolve_left (by simp)
        simp only [part, allAccountsPart, Bool.false_eq_true, and_false, if_false, List.append_nil]
        exact List.Sublist.flatMap_right _ fun a _ => haccount includeVote a
    | calculation2 accounts includeVote includeEmptySlots lookback =>
      cases d with
      | global => exact hglobal includeVote
      | allAccounts => exact .refl _
      | account a =>
        obtain rfl : includeEmptySlots = false := hd.resolve_left (by simp)
        simp only [part]
        induction accounts.count a with
        | zero => exact .refl _
        | succ k ih =>
          rw [List.replicate_succ, List.replicate_succ, List.flatten_cons, List.flatten_cons]
          exact (haccount includeVote a).append ih

end Calculations

/-- A sample put together from the slots read, those that were gone included. -/
theorem Calculations.sample_visitReads_elim (c : Calculations) (n : ℕ) (ps : List (Slot × Txn))
    (reads : List (Slot × ℕ)) (d : DataType) :
    (c.sampler.finish (c.visitReads n ps reads)).sample d =
      reads.flatMap fun e => (slotVersion n ps e.2 e.1).elim [] (c.part · d) := by
  rw [c.sample_visitReads, List.filterMap_eq_flatMap_toList, List.flatMap_assoc]
  congr 1
  funext e
  cases slotVersion n ps e.2 e.1 with
  | none => rfl
  | some v => exact List.append_nil _

/-- What a reader returns counts all that was pushed before it started to the slots
    that stay in the window while it runs: under every group, whatever other pushes
    come in between, as far as its lookback reaches. A slot stays when it is in the
    window after every number of pushes from those made at the start to those whose
    transaction is stored when the reader returns: a push that has only its removal
    left counts among them. -/
theorem readers_count_earlier_pushes {R : Type} [DecidableEq R] {n : ℕ} (hn : 1 ≤ n)
    (ps : List (Slot × Txn)) (shards : Shards) (calcs : R → Calculations)
    (es₁ es₂ : List (ServingEvent R)) (r : R) :
    let state := fun es : List (ServingEvent R) =>
      es.foldl (Serving.step ps) (Serving.start n shards calcs)
    let c := calcs r
    let log (i : ℕ) (s : Slot) := (KeyedFifo.run n (ps.take i) : Window n).log s
    let held (s : Slot) (i : ℕ) := log i s ≠ []
    let j := (state es₁).done
    let during (i : ℕ) := j ≤ i ∧ i ≤ (state (es₁ ++ es₂)).stored
    (state es₁).readers r = .start shards c →
    ∀ data, (state (es₁ ++ es₂)).readers r = .returned data →
    ∀ slots : List Slot, slots.Nodup → (∀ s ∈ slots, ∀ i, during i → held s i) →
    (∀ l, c.lookbackPeriod = some l → ∀ s ∈ slots, ∃ above : Finset Slot,
      above.card < l.toNat ∧ ∀ t, s < t → (∃ i, during i ∧ held t i) → t ∈ above) →
    ∀ d, d = .global ∨ c.includeEmptySlots = false →
      (slots.flatMap fun s => (ofLog s (log j s)).elim [] (c.part · d)).Subperm
        (data.sample d) := by
  intro state c log held j during hstart data hdata slots hnd hheld hlookback d hd
  have hok := Serving.ok_run n ps shards calcs es₁
  obtain ⟨-, hsince⟩ := Serving.since_run hn hok hstart es₂
  rw [← List.foldl_append] at hsince
  change ((state (es₁ ++ es₂)).readers r).Since n ps (state (es₁ ++ es₂)).clock j _ at hsince
  rw [hdata] at hsince
  obtain ⟨listed, reads, hlisted, hcut, hread, -, rfl⟩ := hsince
  have hclock : ∀ s, (state (es₁ ++ es₂)).clock s ≤ (state (es₁ ++ es₂)).stored :=
    Serving.clock_le_stored _
  have hlooked : ∀ s ∈ slots, s ∈ cutSlots c.lookbackPeriod listed := by
    intro s hs
    have hstay : HeldSince (slotVersion n ps) (state (es₁ ++ es₂)).clock j s := fun i hj hi =>
      mt ofLog_eq_none_iff.mp (hheld s hs i ⟨hj, hi.trans (hclock s)⟩)
    refine mem_cutSlots hlisted.nodup (hlisted.held s List.not_mem_nil hstay) fun l hl => ?_
    obtain ⟨above, hcard, habove⟩ := hlookback l hl s hs
    refine (Finset.card_le_card fun t ht => ?_).trans_lt hcard
    obtain ⟨ht, hst⟩ := Finset.mem_filter.mp ht
    obtain ⟨i, hj, hi, hv⟩ := (hlisted.seen t (List.mem_toFinset.mp ht)).2
    exact habove t hst ⟨i, ⟨hj, hi.trans (hclock t)⟩, mt ofLog_eq_none_iff.mpr hv⟩
  have hgrow : ∀ e ∈ reads.filter fun e => e.1 ∈ slots,
      ((ofLog e.1 (log j e.1)).elim [] (c.part · d)).Sublist
        ((slotVersion n ps e.2 e.1).elim [] (c.part · d)) := by
    intro e he
    obtain ⟨he, hs⟩ := List.mem_filter.mp he
    obtain ⟨hi, i₀, hi₀, hj, -⟩ := hread e he
    refine Calculations.elim_part_sublist c (KeyedFifo.log_prefix_of_held (hj.trans hi₀) ?_) e.1 hd
    intro i hji hie
    exact hheld e.1 (of_decide_eq_true hs) i ⟨hji, hie.trans (hi.trans (hclock e.1))⟩
  have hslots : slots.Perm ((reads.filter fun e => e.1 ∈ slots).map Prod.fst) := by
    have hreads : (reads.map Prod.fst).Nodup := hcut ▸ cutSlots_nodup hlisted.nodup _
    refine (List.perm_ext_iff_of_nodup hnd
      (hreads.sublist (List.filter_sublist.map _))).mpr fun s => ⟨fun hs => ?_, fun hs => ?_⟩
    · obtain ⟨e, he, rfl⟩ := List.mem_map.mp (hcut ▸ hlooked s hs)
      exact List.mem_map_of_mem (List.mem_filter.mpr ⟨he, decide_eq_true hs⟩)
    · obtain ⟨e, he, rfl⟩ := List.mem_map.mp hs
      exact of_decide_eq_true (List.mem_filter.mp he).2
  rw [c.sample_visitReads_elim]
  refine ((hslots.flatMap_right _).subperm).trans ?_
  rw [List.flatMap_map]
  exact ((List.Sublist.flatMap_right _ hgrow).trans (List.filter_sublist.flatMap _)).subperm

/-- Slot 6 enters the window while the reader runs; what slot 5 got before counts. -/
theorem readers_count_earlier_pushes_entering :
    let key := Pubkey.filled 1
    let ps : List (Slot × Txn) := [(5, ⟨[key], 100, false, .legacyV0⟩),
      (6, ⟨[key], 200, false, .legacyV0⟩), (5, ⟨[key], 300, false, .legacyV0⟩)]
    let first : List (ServingEvent Unit) := List.replicate 4 .writer
    let push : List (ServingEvent Unit) := List.replicate 7 .writer
    let read : List (ServingEvent Unit) := List.replicate 2 (.reader () (.stored Slot))
    let c : Calculations := .calculation2 [key] false false none
    let x := (first ++ (read ++ push ++ read)).foldl (Serving.step ps)
      (Serving.start 2 ⟨1, fun _ => 0⟩ fun _ => c)
    x.done = 3 ∧ ∃ data, x.readers () = .returned data ∧
      ([100] : List ℚ).Subperm (data.sample (.account key)) := by
  intro key ps first push read c x
  have hbefore : (first.foldl (Serving.step ps)
      (Serving.start 2 ⟨1, fun _ => 0⟩ fun _ => c)).done = 1 := by decide +kernel
  have hafter : x.done = 3 := by decide +kernel
  have hstored : x.stored = 3 := by decide +kernel
  have hresult : (x.readers ()).result.isSome := by decide +kernel
  obtain ⟨data, hdata⟩ := Option.isSome_iff_exists.mp hresult
  have hreturned := ReaderPc.eq_returned_of_result hdata
  have h := readers_count_earlier_pushes (n := 2) (by decide) ps ⟨1, fun _ => 0⟩ (fun _ => c) first
    (read ++ push ++ read) () (Serving.readers_foldl_writer _ _ _ _) data
  have hx : (first ++ (read ++ push ++ read)).foldl (Serving.step ps)
      (Serving.start 2 ⟨1, fun _ => 0⟩ fun _ => c) = x := rfl
  simp only [hx, hbefore, hstored] at h
  have hheld : ∀ i, 1 ≤ i ∧ i ≤ 3 → (KeyedFifo.run 2 (ps.take i) : Window 2).log 5 ≠ [] := by
    rintro i ⟨h1, h3⟩
    interval_cases i <;> decide
  have hone := h hreturned [5] (List.nodup_singleton 5)
    (fun s hs i hi => List.mem_singleton.mp hs ▸ hheld i hi) nofun (.account key) (.inr rfl)
  have hpart : ([5].flatMap fun s => (ofLog s ((.run 2 (ps.take 1) : Window 2).log s)).elim []
      (c.part · (.account key))) = [100] := by decide +kernel
  exact ⟨hafter, data, hreturned, hpart ▸ hone⟩

section OneSlot

variable {n : ℕ} {ps : List (Slot × Txn)} {shards : Shards} {c : Calculations}
  {clock : Slot → ℕ} {j k : ℕ}

/-- When the slots listed are those of version `i`, and every slot was read as it
    is at that version, the reader got what it would get alone on a store at that
    version. -/
theorem finish_visitReads_eq {i : ℕ} {slots : List Slot} {reads : List (Slot × ℕ)}
    (hnd : slots.Nodup) (hlisted : ∀ t, t ∈ slots ↔ slotVersion n ps i t ≠ none)
    (hcut : reads.map Prod.fst = cutSlots c.lookbackPeriod slots)
    (hread : ∀ e ∈ reads, slotVersion n ps e.2 e.1 = slotVersion n ps i e.1)
    {m : PriorityFeesBySlot} (hm : ∀ t, m.lookup t = slotVersion n ps i t) (o : IterOrder Slot) :
    c.sampler.finish (c.visitReads n ps reads) = c.getPriorityFeeEstimates o m := by
  have hkeyed : WellKeyed m := fun t v hv => (logged_of_ofLog ((hm t).symm.trans hv)).slot_eq
  have hperm : slots.Perm m.keys :=
    (List.perm_ext_iff_of_nodup hnd m.keys_nodup).mpr fun t => by
      rw [hlisted, ← AList.mem_keys, Table.mem_iff_lookup_ne_none, hm]
  have hvisit : c.visitReads n ps reads = (reads.map Prod.fst).foldl
      (fun acc t => c.sampler.visitEntry acc (m.lookup t)) c.sampler.init := by
    rw [Calculations.visitReads, List.foldl_map]
    refine List.foldl_ext _ _ _ fun acc e he => ?_
    rw [hread e he, hm]
  rw [hvisit, hcut, cutSlots_eq_of_perm (hperm.trans (slotsVec_perm hkeyed o).symm),
    Calculations.getPriorityFeeEstimates_eq]
  rfl

/-- While no slot goes and only slot `s` gets more, the slots collected from
    version `j` on and what was read of them belong to one version. -/
theorem exists_version_of_since {s : Slot}
    (hothers : ∀ i, j ≤ i → i ≤ k → ∀ t ≠ s, slotVersion n ps i t = slotVersion n ps j t)
    (hself : ∀ i i', j ≤ i → i ≤ i' → i' ≤ k → slotVersion n ps i s ≠ none →
      slotVersion n ps i' s ≠ none)
    (hjk : j ≤ k) (hclock : ∀ t, clock t ≤ k) {slots : List Slot} {reads : List (Slot × ℕ)}
    (hlisted : ListedSince n ps clock j shards [] slots)
    (hread : ∀ e ∈ reads, e.1 ∈ slots ∧ ReadSince (slotVersion n ps) clock j e.1 e.2)
    (hnd : (reads.map Prod.fst).Nodup) :
    ∃ i, j ≤ i ∧ i ≤ k ∧ (∀ t, t ∈ slots ↔ slotVersion n ps i t ≠ none) ∧
      ∀ e ∈ reads, slotVersion n ps e.2 e.1 = slotVersion n ps i e.1 := by
  -- the slots other than `s` are the same at every version
  have hlistedOthers : ∀ i, j ≤ i → i ≤ k → ∀ t ≠ s,
      (t ∈ slots ↔ slotVersion n ps i t ≠ none) := by
    intro i hji hik t hts
    rw [hothers i hji hik t hts]
    constructor
    · intro ht
      obtain ⟨i₀, hj, hi₀, hv⟩ := (hlisted.seen t ht).2
      rwa [hothers i₀ hj (hi₀.trans (hclock t)) t hts] at hv
    · intro hv
      refine hlisted.held t List.not_mem_nil fun i₀ hj hi₀ => ?_
      rwa [hothers i₀ hj (hi₀.trans (hclock t)) t hts]
  have hreadOthers : ∀ i, j ≤ i → i ≤ k → ∀ e ∈ reads, e.1 ≠ s →
      slotVersion n ps e.2 e.1 = slotVersion n ps i e.1 := by
    intro i hji hik e he hes
    obtain ⟨hi, i₀, hi₀, hj, -⟩ := (hread e he).2
    rw [hothers i hji hik e.1 hes,
      hothers e.2 (hj.trans hi₀) (hi.trans (hclock e.1)) e.1 hes]
  by_cases hs : s ∈ slots
  · -- the version at which `s` was read, or else at which it was seen
    obtain ⟨i, hji, hik, hv, hsame⟩ : ∃ i, j ≤ i ∧ i ≤ k ∧ slotVersion n ps i s ≠ none ∧
        ∀ e ∈ reads, e.1 = s → e.2 = i := by
      by_cases hin : ∃ i, (s, i) ∈ reads
      · obtain ⟨i, hin⟩ := hin
        obtain ⟨-, hi, i₀, hi₀, hj, hv⟩ := hread _ hin
        have hik : i ≤ k := hi.trans (hclock s)
        refine ⟨i, hj.trans hi₀, hik, hself i₀ i hj hi₀ hik hv, fun e he hes => ?_⟩
        have heq := List.inj_on_of_nodup_map hnd he hin hes
        rw [heq]
      · obtain ⟨i, hj, hi, hv⟩ := (hlisted.seen s hs).2
        refine ⟨i, hj, hi.trans (hclock s), hv, fun e he hes => absurd ⟨e.2, ?_⟩ hin⟩
        rw [← hes]
        exact he
    refine ⟨i, hji, hik, fun t => ?_, fun e he => ?_⟩
    · by_cases hts : t = s
      · rw [hts]
        exact iff_of_true hs hv
      · exact hlistedOthers i hji hik t hts
    · by_cases hes : e.1 = s
      · rw [hsame e he hes]
      · exact hreadOthers i hji hik e he hes
  · refine ⟨j, le_rfl, hjk, fun t => ?_, fun e he => ?_⟩
    · by_cases hts : t = s
      · rw [hts]
        refine iff_of_false hs (not_not_intro ?_)
        by_contra hv
        exact hs (hlisted.held s List.not_mem_nil fun i hji hi =>
          hself j i le_rfl hji (hi.trans (hclock s)) hv)
      · exact hlistedOthers j le_rfl hjk t hts
    · exact hreadOthers j le_rfl hjk e he fun hes => hs (hes ▸ (hread e he).1)

end OneSlot

/-- While the pushes made are all to one slot, which the window holds or has room
    for, a request takes effect at one instant: what the reader returns is what it
    would get alone after some number of whole pushes. Those that were over when it
    started are among them, and those that were not over when it returned are not. -/
theorem requests_serialize_within_slot {R : Type} [DecidableEq R] {n : ℕ} (hn : 1 ≤ n)
    (ps : List (Slot × Txn)) (shards : Shards) (calcs : R → Calculations)
    (es₁ es₂ : List (ServingEvent R)) (r : R) (s : Slot) :
    let state := fun es : List (ServingEvent R) =>
      es.foldl (Serving.step ps) (Serving.start n shards calcs)
    let j := (state es₁).done
    let k := (state (es₁ ++ es₂)).done
    let w : Window n := .run n (ps.take j)
    (state es₁).readers r = .start shards (calcs r) →
    (∀ i p, j ≤ i → i ≤ k → ps[i]? = some p → p.1 = s) →
    s ∈ w.keys ∨ w.keys.length < n →
    ∀ data, (state (es₁ ++ es₂)).readers r = .returned data →
      ∃ i, j ≤ i ∧ i ≤ k ∧ ∀ o, data =
        (calcs r).getPriorityFeeEstimates o (PriorityFeeTracker.run n (ps.take i)).priorityFees := by
  intro state j k w hstart honly hroom data hdata
  have hok := Serving.ok_run n ps shards calcs es₁
  have hokEnd : (state (es₁ ++ es₂)).Ok n ps := Serving.ok_run n ps shards calcs (es₁ ++ es₂)
  obtain ⟨hjk, hsince⟩ := Serving.since_run hn hok hstart es₂
  rw [← List.foldl_append] at hjk hsince
  change ((state (es₁ ++ es₂)).readers r).Since n ps (state (es₁ ++ es₂)).clock j _ at hsince
  rw [hdata] at hsince
  obtain ⟨listed, reads, hlisted, hcut, hread, -, rfl⟩ := hsince
  have hrun := fun i (hji : j ≤ i) (hik : i ≤ k) =>
    KeyedFifo.run_take_of_room hji hroom fun m e hjm hmi =>
      honly m e hjm (hmi.le.trans hik)
  have hothers : ∀ i, j ≤ i → i ≤ k → ∀ t ≠ s, slotVersion n ps i t = slotVersion n ps j t := by
    intro i hji hik t hts
    rw [slotVersion, slotVersion, (hrun i hji hik).1 t hts]
  have hself : ∀ i i', j ≤ i → i ≤ i' → i' ≤ k → slotVersion n ps i s ≠ none →
      slotVersion n ps i' s ≠ none := by
    intro i i' hji hii hik
    rw [slotVersion, slotVersion, Ne, Ne, ofLog_eq_none_iff, ofLog_eq_none_iff,
      KeyedFifo.log_eq_nil_iff, KeyedFifo.log_eq_nil_iff, not_not, not_not]
    intro hheld
    rcases (KeyedFifo.run_take_of_room hii (.inl hheld) fun m e him hmi =>
      honly m e (hji.trans him) (hmi.le.trans hik)).2 with hstay | hsame
    · exact hstay
    · rwa [hsame]
  have hclock : ∀ t, (state (es₁ ++ es₂)).clock t = k := by
    refine hokEnd.clock_eq_done hn fun p hp => ?_
    obtain rfl := honly k p hjk le_rfl hp
    rcases (hrun k hjk le_rfl).2 with hheld | hsame
    · exact .inl hheld
    · rw [show (.run n (ps.take (state (es₁ ++ es₂)).done) : Window n) = w from hsame]
      exact hroom
  obtain ⟨i, hji, hik, hslots, hversion⟩ := exists_version_of_since hothers hself hjk
    (fun t => (hclock t).le) hlisted
    (fun e he => ⟨mem_of_mem_cutSlots (hcut ▸ List.mem_map_of_mem he), hread e he⟩)
    (hcut ▸ cutSlots_nodup hlisted.nodup _)
  exact ⟨i, hji, hik, fun o => finish_visitReads_eq hlisted.nodup hslots hcut hversion
    (Simulates.run hn (ps.take i)).store o⟩

/-- Slot 5 gets more between its listing and its lookup, and more again before the
    reader returns. -/
theorem requests_serialize_within_slot_twice :
    let key := Pubkey.filled 1
    let ps : List (Slot × Txn) := [(5, ⟨[key], 100, false, .legacyV0⟩),
      (5, ⟨[key], 200, false, .legacyV0⟩), (5, ⟨[key], 300, false, .legacyV0⟩)]
    let first : List (ServingEvent Unit) := List.replicate 4 .writer
    let push : List (ServingEvent Unit) := List.replicate 3 .writer
    let read : List (ServingEvent Unit) := List.replicate 2 (.reader () (.stored Slot))
    let c : Calculations := .calculation2 [key] false false none
    let x := (first ++ (read ++ push ++ read ++ push)).foldl (Serving.step ps)
      (Serving.start 1 ⟨1, fun _ => 0⟩ fun _ => c)
    x.done = 3 ∧ ∃ data, x.readers () = .returned data ∧ data.sample .global = [100, 200] ∧
      ∃ i, 1 ≤ i ∧ i ≤ 3 ∧ ∀ o, data =
        c.getPriorityFeeEstimates o (PriorityFeeTracker.run 1 (ps.take i)).priorityFees := by
  intro key ps first push read c x
  have hbefore : (first.foldl (Serving.step ps)
      (Serving.start 1 ⟨1, fun _ => 0⟩ fun _ => c)).done = 1 := by decide +kernel
  have hafter : x.done = 3 := by decide +kernel
  have hresult : ((x.readers ()).result.map fun data => data.sample .global) =
      some [100, 200] := by decide +kernel
  obtain ⟨data, hdata, hglobal⟩ := Option.map_eq_some_iff.mp hresult
  have hreturned := ReaderPc.eq_returned_of_result hdata
  have hslot : ∀ p ∈ ps, p.1 = 5 := by decide
  have hheld : ∀ j, j = 1 → 5 ∈ (.run 1 (ps.take j) : Window 1).keys := by
    rintro _ rfl
    decide
  have h := requests_serialize_within_slot (n := 1) le_rfl ps ⟨1, fun _ => 0⟩ (fun _ => c) first
    (read ++ push ++ read ++ push) () 5 (Serving.readers_foldl_writer _ _ _ _)
    (fun i p _ _ hp => hslot p (List.mem_of_getElem? hp)) (.inl (hheld _ hbefore)) data
  have hx : (first ++ (read ++ push ++ read ++ push)).foldl (Serving.step ps)
      (Serving.start 1 ⟨1, fun _ => 0⟩ fun _ => c) = x := rfl
  simp only [hx, hbefore, hafter] at h
  exact ⟨hafter, data, hreturned, hglobal, h hreturned⟩

end PriorityFeeEstimator
