import Mathlib
import PriorityFeeEstimator.Pricing
import PriorityFeeEstimator.SlotOrder

/-!
# Blocks

`consume` takes the transactions of a block one by one, and there are six places
where it passes one over: an error in its status, no transaction, no message, an
account key that is none, a price that the processor refuses, a configured price
without a limit. `Accepted` says what a transaction that passes them all is like.
A block then comes to the pushes of its accepted transactions, in their order,
and the rejected ones leave no trace.
-/

namespace PriorityFeeEstimator

-- ════════════════════════════════════════════════════════════════════════
-- What passes the checks
-- ════════════════════════════════════════════════════════════════════════

/-- A message has a price: by its configuration, where it has one, and there the
    compute-unit limit must be positive; by the instruction processor otherwise. -/
def Proto.Message.Priced (process : ComputeBudgetProcessor) (message : Proto.Message)
    (accounts : List Pubkey) : Prop :=
  match message.config with
  | some config => ∃ limit, config.computeUnitLimit = some limit ∧ 0 < limit
  | none =>
    ∃ rate, process.calculatePriorityFeeDetails accounts (compiledInstructions message) = .ok rate

/-- A transaction of a block passes every check: its status has no error, the
    transaction and its message are there, every account key is a key, and the
    message has a price. -/
def Proto.SubscribeUpdateTransactionInfo.Accepted (process : ComputeBudgetProcessor)
    (txn : Proto.SubscribeUpdateTransactionInfo) : Prop :=
  (∀ info, txn.statusMeta = some info → info.err = none) ∧
  ∃ tran message accounts, txn.transaction = some tran ∧ tran.message = some message ∧
    message.accountKeys = accounts.map Pubkey.bytes ∧ message.Priced process accounts

theorem extractFromMeta_isOk_iff (transactionMeta : Option Proto.TransactionStatusMeta) :
    (∃ loaded, extractFromMeta transactionMeta = .ok loaded) ↔
      ∀ info, transactionMeta = some info → info.err = none := by
  cases transactionMeta with
  | none => simp [extractFromMeta]
  | some info =>
    cases h : info.err with
    | none => simp [extractFromMeta, h]
    | some e => simp [extractFromMeta, h]

theorem isSome_v1PriorityRate_iff (config : Proto.TransactionConfig) :
    (v1PriorityRate config).isSome ↔
      ∃ limit, config.computeUnitLimit = some limit ∧ 0 < limit := by
  rw [Option.isSome_iff_ne_none, Ne, v1PriorityRate_eq_none_iff]
  cases config.computeUnitLimit with
  | none => simp
  | some limit => simp [UInt32.pos_iff_ne_zero]

theorem isSome_resolvePriorityRate_iff (process : ComputeBudgetProcessor)
    (message : Proto.Message) (accounts : List Pubkey) :
    (resolvePriorityRate process message.config accounts (compiledInstructions message)).isSome ↔
      message.Priced process accounts := by
  unfold resolvePriorityRate Proto.Message.Priced
  cases message.config with
  | some config => exact isSome_v1PriorityRate_iff config
  | none =>
    cases h : process.calculatePriorityFeeDetails accounts (compiledInstructions message) with
    | ok rate => simp
    | error e => simp

/-- A transaction is recorded exactly when it passes every check. -/
theorem isSome_recordedTxn_iff (process : ComputeBudgetProcessor)
    (txn : Proto.SubscribeUpdateTransactionInfo) :
    (recordedTxn process txn).isSome ↔ txn.Accepted process := by
  unfold Proto.SubscribeUpdateTransactionInfo.Accepted
  rw [← extractFromMeta_isOk_iff]
  constructor
  · intro h
    cases htransaction : extractFromTransaction txn with
    | error e => simp [recordedTxn, htransaction] at h
    | ok r =>
      obtain ⟨message, loaded, isVote⟩ := r
      obtain ⟨hmeta, ⟨tran, htran, hmessage⟩, -⟩ :=
        extractFromTransaction_eq_ok_iff.mp htransaction
      cases hextract : extractFromMessage message with
      | error e => simp [recordedTxn, htransaction, hextract] at h
      | ok r =>
        obtain ⟨accounts, instructions, header, config⟩ := r
        have hkeys := (extractFromMessage_eq_ok_iff.mp hextract).1
        rw [recordedTxn_eq process hmeta htran hmessage hkeys, Option.isSome_map,
          isSome_resolvePriorityRate_iff] at h
        exact ⟨⟨loaded, hmeta⟩, tran, message, accounts, htran, hmessage, hkeys, h⟩
  · rintro ⟨⟨loaded, hmeta⟩, tran, message, accounts, htran, hmessage, hkeys, hpriced⟩
    rw [recordedTxn_eq process hmeta htran hmessage hkeys, Option.isSome_map,
      isSome_resolvePriorityRate_iff]
    exact hpriced

instance (process : ComputeBudgetProcessor) (txn : Proto.SubscribeUpdateTransactionInfo) :
    Decidable (txn.Accepted process) :=
  decidable_of_iff _ (isSome_recordedTxn_iff process txn)

/-- Every accepted transaction is recorded as one, and nothing else is. -/
theorem map_recordedTxn_filter (process : ComputeBudgetProcessor)
    (txns : List Proto.SubscribeUpdateTransactionInfo) :
    (txns.filter fun txn => txn.Accepted process).map (recordedTxn process) =
      (txns.filterMap (recordedTxn process)).map some := by
  have hdecide : (fun txn : Proto.SubscribeUpdateTransactionInfo =>
      decide (txn.Accepted process)) = Option.isSome ∘ recordedTxn process := by
    funext txn
    apply Bool.eq_iff_iff.mpr
    rw [decide_eq_true_iff]
    exact (isSome_recordedTxn_iff process txn).symm
  rw [List.map_filterMap_some_eq_filter_map_isSome, List.filter_map, hdecide]

/-- Lists with the same accepted transactions are recorded alike. -/
theorem filterMap_recordedTxn_congr {process : ComputeBudgetProcessor}
    {txns txns' : List Proto.SubscribeUpdateTransactionInfo}
    (h : (txns.filter fun txn => txn.Accepted process) =
      txns'.filter fun txn => txn.Accepted process) :
    txns.filterMap (recordedTxn process) = txns'.filterMap (recordedTxn process) := by
  apply List.map_injective_iff.mpr (Option.some_injective Txn)
  rw [← map_recordedTxn_filter, ← map_recordedTxn_filter, h]

-- ════════════════════════════════════════════════════════════════════════
-- A block as its pushes
-- ════════════════════════════════════════════════════════════════════════

namespace PriorityFeeTracker

/-- The update that brings a block. -/
def blockUpdate (block : Proto.SubscribeUpdateBlock) : Proto.SubscribeUpdate :=
  ⟨some (.block block)⟩

/-- The transactions that a block has recorded. -/
def recordedTxns (process : ComputeBudgetProcessor) (block : Proto.SubscribeUpdateBlock) :
    List Txn :=
  block.transactions.filterMap (recordedTxn process)

/-- The slots that leave the cache along some pushes. -/
def evictions (t : PriorityFeeTracker) : List (Slot × Txn) → List Slot
  | [] => []
  | p :: ps => (t.slotCache.pushPop p.1).1.toList ++ (t.push p).evictions ps

theorem foldl_consumeTransaction (process : ComputeBudgetProcessor) (slot : Slot)
    (t : PriorityFeeTracker) (txns : List Proto.SubscribeUpdateTransactionInfo) :
    txns.foldl (consumeTransaction process slot) t =
      t.pushAll ((txns.filterMap (recordedTxn process)).map (slot, ·)) := by
  induction txns generalizing t with
  | nil => rfl
  | cons txn txns ih =>
    rw [List.foldl_cons, ih, consumeTransaction_eq]
    cases h : recordedTxn process txn with
    | none => rw [List.filterMap_cons_none h]; rfl
    | some x => rw [List.filterMap_cons_some h]; rfl

theorem consume_block (process : ComputeBudgetProcessor) (t : PriorityFeeTracker)
    (block : Proto.SubscribeUpdateBlock) :
    t.consume process (blockUpdate block) =
      (.ok (), t.pushAll ((recordedTxns process block).map (block.slot, ·))) :=
  congrArg (Prod.mk _) (foldl_consumeTransaction process block.slot t block.transactions)

theorem consume_of_not_block (process : ComputeBudgetProcessor) (t : PriorityFeeTracker)
    {update : Proto.SubscribeUpdate} (h : ∀ block, update ≠ blockUpdate block) :
    t.consume process update = (.ok (), t) := by
  obtain ⟨o⟩ := update
  cases o with
  | none => rfl
  | some u =>
    cases u with
    | block block => exact absurd rfl (h block)
    | other => rfl

/-- Nothing leaves the cache for a slot it holds. -/
theorem evictions_of_mem {t : PriorityFeeTracker} {s : Slot} (hs : s ∈ t.slotCache.slotSet)
    (l : List Txn) : t.evictions (l.map (s, ·)) = [] := by
  induction l generalizing t with
  | nil => rfl
  | cons x l ih =>
    obtain ⟨hpop, hcache⟩ := push_slotCache_of_mem hs x
    show (t.slotCache.pushPop s).1.toList ++ (t.push (s, x)).evictions (l.map (s, ·)) = []
    rw [ih (hcache ▸ hs), hpop]
    rfl

/-- Along the pushes to one slot only the first can make a slot leave. -/
theorem evictions_slot {t : PriorityFeeTracker} (hc : t.slotCache.Coherent) (s : Slot)
    {l : List Txn} (hl : l ≠ []) :
    t.evictions (l.map (s, ·)) = (t.slotCache.pushPop s).1.toList := by
  obtain ⟨x, xs, rfl⟩ := List.exists_cons_of_ne_nil hl
  show (t.slotCache.pushPop s).1.toList ++ (t.push (s, x)).evictions (xs.map (s, ·)) = _
  rw [evictions_of_mem (mem_slotSet_push hc x), List.append_nil]

end PriorityFeeTracker

open PriorityFeeTracker

theorem SlotPriorityFees.extendAll_ne_none (s : Slot) {l : List Txn} (hl : l ≠ [])
    (o : Option SlotPriorityFees) : extendAll s l o ≠ none := by
  cases o with
  | none => rwa [extendAll_none, Ne, ofLog_eq_none_iff]
  | some v => simp [extendAll_some]

/-- After every sequence of pushes the set of the cache and the store hold the
    same slots. -/
theorem mem_slotSet_run_iff {n : ℕ} (hn : 1 ≤ n) (ps : List (Slot × Txn)) (k : Slot) :
    k ∈ (run n ps).slotCache.slotSet ↔ k ∈ (run n ps).priorityFees := by
  have h := Simulates.run hn ps
  rw [h.set, h.mem_store_iff]

/-- The pushes of one block make at most one slot leave, which was held before,
    is gone afterwards, and is not the slot of the block. -/
theorem evictions_block {n : ℕ} (hn : 1 ≤ n) (ps : List (Slot × Txn)) (s : Slot) (l : List Txn) :
    ∃ gone : Option Slot, (run n ps).evictions (l.map (s, ·)) = gone.toList ∧ gone ≠ some s ∧
      ∀ k, (k ∈ (run n ps).priorityFees ∧
        k ∉ ((run n ps).pushAll (l.map (s, ·))).priorityFees) ↔ gone = some k := by
  have hc : (run n ps).slotCache.Coherent := (Simulates.run hn ps).coherent hn
  by_cases hl : l = []
  · subst hl
    exact ⟨none, rfl, by simp, fun k => by simp⟩
  · refine ⟨_, evictions_slot hc s hl, hc.pushPop_ne s, fun k => ?_⟩
    rw [Table.mem_iff_lookup_ne_none, Table.mem_iff_lookup_ne_none, not_not,
      lookup_pushAll_slot hc hl]
    constructor
    · rintro ⟨hheld, hgone⟩
      by_contra hk
      rw [if_neg hk] at hgone
      split at hgone
      · exact SlotPriorityFees.extendAll_ne_none s hl _ hgone
      · exact hheld hgone
    · intro hk
      have hin := (hc.of_lockedPushPop_some
        ((SlotCache.pushPop_eq_lockedPushPop _ s) ▸ hk)).1
      rw [mem_slotSet_run_iff hn, Table.mem_iff_lookup_ne_none] at hin
      exact ⟨hin, if_pos hk⟩

/-- An update is always consumed. One that is not a block changes nothing. A
    block is pushed to its slot, one push for each accepted transaction in the
    order of the block; blocks with the same accepted transactions, however
    many rejected ones stand between these, leave the same tracker. On a tracker
    of positive capacity a block makes at most one slot leave, and never its
    own. -/
theorem blocks_push_accepted (process : ComputeBudgetProcessor) :
    (∀ (t : PriorityFeeTracker) update, (t.consume process update).1 = .ok ()) ∧
    (∀ (t : PriorityFeeTracker) update, (∀ block, update ≠ blockUpdate block) →
      (t.consume process update).2 = t) ∧
    (∀ (t : PriorityFeeTracker) block,
      (block.transactions.filter fun txn => txn.Accepted process).map (recordedTxn process) =
        (recordedTxns process block).map some ∧
      (t.consume process (blockUpdate block)).2 =
        t.pushAll ((recordedTxns process block).map (block.slot, ·))) ∧
    (∀ (t : PriorityFeeTracker) slot txns txns',
      (txns.filter fun txn => txn.Accepted process) =
        (txns'.filter fun txn => txn.Accepted process) →
      t.consume process (blockUpdate ⟨slot, txns⟩) =
        t.consume process (blockUpdate ⟨slot, txns'⟩)) ∧
    (∀ n ps block, 1 ≤ n →
      let t := run n ps
      let t' := (t.consume process (blockUpdate block)).2
      ∃ gone : Option Slot,
        t.evictions ((recordedTxns process block).map (block.slot, ·)) = gone.toList ∧
        gone ≠ some block.slot ∧
        (∀ k, (k ∈ t.priorityFees ∧ k ∉ t'.priorityFees) ↔ gone = some k) ∧
        ∀ k, (k ∈ t.slotCache.slotSet ∧ k ∉ t'.slotCache.slotSet) ↔ gone = some k) := by
  refine ⟨?_, ?_, ?_, ?_, ?_⟩
  · intro t update
    by_cases h : ∃ block, update = blockUpdate block
    · obtain ⟨block, rfl⟩ := h
      rfl
    · rw [consume_of_not_block process t (not_exists.mp h)]
  · intro t update h
    rw [consume_of_not_block process t h]
  · intro t block
    exact ⟨map_recordedTxn_filter process block.transactions, by rw [consume_block]⟩
  · intro t slot txns txns' h
    rw [consume_block, consume_block]
    simp only [recordedTxns, filterMap_recordedTxn_congr h]
  · intro n ps block hn t t'
    have ht' : t' = t.pushAll ((recordedTxns process block).map (block.slot, ·)) := by
      show (t.consume process (blockUpdate block)).2 = _
      rw [consume_block]
    obtain ⟨gone, hevict, hown, hstore⟩ :=
      evictions_block hn ps block.slot (recordedTxns process block)
    refine ⟨gone, hevict, hown, ?_, fun k => ?_⟩
    · rw [ht']
      exact hstore
    · have hrun : t' = run n (ps ++ (recordedTxns process block).map (block.slot, ·)) := by
        rw [ht']
        exact (List.foldl_append ..).symm
      rw [← hstore, mem_slotSet_run_iff hn, hrun, mem_slotSet_run_iff hn, ← hrun, ht']

/-- A block whose first transaction is missing, on a tracker that is full. -/
theorem blocks_push_accepted_missing :
    let missing : Proto.SubscribeUpdateTransactionInfo := ⟨false, none, none⟩
    let landed := setPriceTransaction (.filled 1) 5
    let t := run 1 [(1, ⟨[], 7, false, .legacyV0⟩)]
    (t.consume priceProcessor ⟨some .other⟩).2 = t ∧
    t.consume priceProcessor (blockUpdate ⟨2, [missing, landed]⟩) =
      t.consume priceProcessor (blockUpdate ⟨2, [landed]⟩) ∧
    ∃ gone : Option Slot, gone ≠ some 2 ∧
      ∀ k, (k ∈ t.priorityFees ∧
        k ∉ (t.consume priceProcessor (blockUpdate ⟨2, [missing, landed]⟩)).2.priorityFees) ↔
          gone = some k := by
  intro missing landed t
  have h := blocks_push_accepted priceProcessor
  obtain ⟨gone, -, hown, hstore, -⟩ := h.2.2.2.2 1 _ ⟨2, [missing, landed]⟩ le_rfl
  exact ⟨h.2.1 t _ (by simp [blockUpdate]), h.2.2.2.1 t 2 _ _ rfl, gone, hown, hstore⟩

end PriorityFeeEstimator
