import Mathlib
import PriorityFeeEstimator.Geyser

/-!
# Counters

`consume` counts what it does with every transaction of a block. Here it is
modelled with its counters: what is sent to the metrics client is the list of
counts so far. The tracker is not changed by that, and over whole runs of the
stream the counters balance: every transaction received has one outcome, every
transaction processed was pushed or could not be priced, and every configured
compute-unit limit falls in one bucket.
-/

namespace PriorityFeeEstimator

open Geyser

/-- `error.into()`: the metric that counts an error. -/
def TransactionValidationError.into : TransactionValidationError → String
  | .transactionFailed => "txn_failed"
  | .transactionMissing => "txn_missing"
  | .messageMissing => "message_missing"
  | .invalidAccount => "invalid_pubkey"

/-- A count as it is sent, with its tags. -/
structure Count where
  name : String
  amount : ℤ
  tags : List (String × String)
deriving DecidableEq

/-- One more of something. -/
def Count.one (name : String) : Count := ⟨name, 1, []⟩

def computeUnitLimitBucket : Option UInt32 → String
  | none => "missing"
  | some limit =>
    if limit = 0 then "zero"
    else if limit ≤ 100 then "1_100"
    else if limit ≤ 1000 then "101_1000"
    else if limit ≤ 100000 then "1001_100000"
    else if limit ≤ maxComputeUnitLimit then "100001_runtime_max"
    else "above_runtime_max"

namespace Metered

/-- The instructions whose program is an account of the message; the others are
    counted. -/
def instructionsForProcessing (accounts : List Pubkey) :
    List CompiledInstruction → List Count × List (Pubkey × CompiledInstruction)
  | [] => ([], [])
  | ix :: instructions =>
    let (counts, rest) := instructionsForProcessing accounts instructions
    match accounts[ix.programIdIndex.toNat]? with
    | none => (.one "program_id_index_not_found" :: counts, rest)
    | some account => (counts, (account, ix) :: rest)

def calculatePriorityFeeDetails (process : ComputeBudgetProcessor) (accounts : List Pubkey)
    (instructions : List CompiledInstruction) : List Count × Except String UInt64 :=
  let (counts, instructions) := instructionsForProcessing accounts instructions
  (counts, process instructions)

def resolvePriorityRate (process : ComputeBudgetProcessor)
    (config : Option Proto.TransactionConfig) (accounts : List Pubkey)
    (instructions : List CompiledInstruction) : List Count × Option UInt64 :=
  match config with
  | none =>
    let (counts, result) := calculatePriorityFeeDetails process accounts instructions
    match result with
    | .ok rate => (counts, some rate)
    | .error _ => (counts ++ [.one "priority_fee_details_error"], none)
  | some config =>
    match v1PriorityRate config with
    | none => ([.one "v1_txn_unpriceable"], none)
    | some rate => ([.one "txns_priced_from_v1_config"], some rate)

/-- The version of a message, and the bucket of its compute-unit limit. -/
def transactionVersion (config : Option Proto.TransactionConfig) :
    List Count × TransactionVersion :=
  match config with
  | some config => ([⟨"v1_config_compute_unit_limit", 1,
      [("bucket", computeUnitLimitBucket config.computeUnitLimit)]⟩], .v1)
  | none => ([], .legacyV0)

/-- One transaction of a block, after the counts of those before it. -/
def consumeTransaction (process : ComputeBudgetProcessor) (slot : Slot)
    (x : List Count × PriorityFeeTracker) (txn : Proto.SubscribeUpdateTransactionInfo) :
    List Count × PriorityFeeTracker :=
  match extractFromTransaction txn with
  | .error error => (x.1 ++ [.one error.into], x.2)
  | .ok (message, writableAccounts, isVote) =>
    match extractFromMessage message with
    | .error error => (x.1 ++ [.one error.into], x.2)
    | .ok (accounts, instructions, header, config) =>
      let (versionCounts, transactionVersion) := transactionVersion config
      let (rateCounts, priorityRate) := resolvePriorityRate process config accounts instructions
      let writableAccounts := constructWritableAccounts accounts header ++ writableAccounts
      let counts := x.1 ++ (versionCounts ++ rateCounts ++
        [⟨"priority_fee_tracker.accounts_processed", writableAccounts.length, []⟩,
          .one "txns_processed"])
      match priorityRate with
      | some priorityRate =>
        (counts, x.2.pushPriorityFeeForTxnWithVersion slot writableAccounts priorityRate isVote
          transactionVersion)
      | none => (counts, x.2)

def consume (process : ComputeBudgetProcessor) (x : List Count × PriorityFeeTracker)
    (update : Proto.SubscribeUpdate) : Except String Unit × (List Count × PriorityFeeTracker) :=
  match update.updateOneof with
  | some (.block block) =>
    let counts := x.1 ++ [.one "blocks_processed",
      ⟨"txns_received", block.transactions.length, []⟩]
    (.ok (), block.transactions.foldl (consumeTransaction process block.slot) (counts, x.2))
  | _ => (.ok (), x)

/-- The tracker with its counters consumes updates. -/
def consumer (process : ComputeBudgetProcessor) : GrpcConsumer (List Count × PriorityFeeTracker) :=
  fun update x => consume process x update.read

theorem instructionsForProcessing_snd (accounts : List Pubkey)
    (instructions : List CompiledInstruction) :
    (instructionsForProcessing accounts instructions).2 = instructions.filterMap fun ix =>
      (accounts[ix.programIdIndex.toNat]?).map fun account => (account, ix) := by
  induction instructions with
  | nil => rfl
  | cons ix instructions ih =>
    cases h : accounts[ix.programIdIndex.toNat]? with
    | none =>
      rw [List.filterMap_cons_none (by rw [h]; rfl), ← ih]
      simp only [instructionsForProcessing, h]
    | some account =>
      rw [List.filterMap_cons_some (by rw [h]; rfl), ← ih]
      simp only [instructionsForProcessing, h]

theorem resolvePriorityRate_snd (process : ComputeBudgetProcessor)
    (config : Option Proto.TransactionConfig) (accounts : List Pubkey)
    (instructions : List CompiledInstruction) :
    (resolvePriorityRate process config accounts instructions).2 =
      PriorityFeeEstimator.resolvePriorityRate process config accounts instructions := by
  cases config with
  | none =>
    have hresult : (calculatePriorityFeeDetails process accounts instructions).2 =
        process.calculatePriorityFeeDetails accounts instructions :=
      congrArg process (instructionsForProcessing_snd accounts instructions)
    unfold resolvePriorityRate PriorityFeeEstimator.resolvePriorityRate
    simp only [hresult]
    cases process.calculatePriorityFeeDetails accounts instructions <;> rfl
  | some config =>
    unfold resolvePriorityRate PriorityFeeEstimator.resolvePriorityRate
    cases h : v1PriorityRate config <;> simp only [h]

end Metered

/-- The count of a configured compute-unit limit. -/
def Count.limit (bucket : String) : Count :=
  ⟨"v1_config_compute_unit_limit", 1, [("bucket", bucket)]⟩

/-- The counts of a transaction that passed its checks. -/
def Count.processed (accounts : ℕ) : List Count :=
  [⟨"priority_fee_tracker.accounts_processed", accounts, []⟩, .one "txns_processed"]

/-- The buckets of a limit that gives a rate. -/
def pricedBuckets : List String :=
  ["1_100", "101_1000", "1001_100000", "100001_runtime_max", "above_runtime_max"]

/-- What is counted for a transaction, beside what is recorded of it. -/
inductive Counted : List Count → Option Txn → Prop
  | rejected (error : TransactionValidationError) : Counted [.one error.into] none
  | priced (missing : ℕ) (x : Txn) (hversion : x.version = .legacyV0) :
    Counted (List.replicate missing (.one "program_id_index_not_found") ++
      Count.processed x.accounts.length) (some x)
  | failed (missing accounts : ℕ) :
    Counted (List.replicate missing (.one "program_id_index_not_found") ++
      .one "priority_fee_details_error" :: Count.processed accounts) none
  | pricedFromConfig (bucket : String) (hbucket : bucket ∈ pricedBuckets) (x : Txn)
    (hversion : x.version = .v1) :
    Counted (.limit bucket :: .one "txns_priced_from_v1_config" ::
      Count.processed x.accounts.length) (some x)
  | unpriceable (bucket : String) (hbucket : bucket ∈ ["missing", "zero"]) (accounts : ℕ) :
    Counted (.limit bucket :: .one "v1_txn_unpriceable" :: Count.processed accounts) none

/-- A limit has a bucket of its own exactly when it gives a rate. -/
theorem computeUnitLimitBucket_mem (config : Proto.TransactionConfig) :
    computeUnitLimitBucket config.computeUnitLimit ∈
      if v1PriorityRate config = none then ["missing", "zero"] else pricedBuckets := by
  cases hlimit : config.computeUnitLimit with
  | none =>
    have hrate : v1PriorityRate config = none := by simp [v1PriorityRate, hlimit]
    rw [if_pos hrate]
    exact List.mem_cons_self
  | some limit =>
    by_cases hzero : limit = 0
    · subst hzero
      have hrate : v1PriorityRate config = none := by simp [v1PriorityRate, hlimit]
      rw [if_pos hrate]
      decide
    · have hrate : v1PriorityRate config ≠ none := by
        simp [v1PriorityRate, hlimit, hzero]
      rw [if_neg hrate, computeUnitLimitBucket, if_neg hzero]
      repeat' split
      all_goals decide

namespace Metered

theorem instructionsForProcessing_fst (accounts : List Pubkey)
    (instructions : List CompiledInstruction) :
    ∃ missing, (instructionsForProcessing accounts instructions).1 =
      List.replicate missing (.one "program_id_index_not_found") := by
  induction instructions with
  | nil => exact ⟨0, rfl⟩
  | cons ix instructions ih =>
    obtain ⟨missing, hmissing⟩ := ih
    cases h : accounts[ix.programIdIndex.toNat]? with
    | none =>
      refine ⟨missing + 1, ?_⟩
      simp only [instructionsForProcessing, h, hmissing, List.replicate_succ]
    | some account =>
      refine ⟨missing, ?_⟩
      simp only [instructionsForProcessing, h, hmissing]

/-- A transaction is consumed as it is without counters, and counted once. -/
theorem consumeTransaction_eq (process : ComputeBudgetProcessor) (slot : Slot)
    (x : List Count × PriorityFeeTracker) (txn : Proto.SubscribeUpdateTransactionInfo) :
    ∃ m, Counted m (recordedTxn process txn) ∧ consumeTransaction process slot x txn =
      (x.1 ++ m, x.2.consumeTransaction process slot txn) := by
  unfold consumeTransaction PriorityFeeTracker.consumeTransaction recordedTxn
  cases extractFromTransaction txn with
  | error e => exact ⟨_, .rejected e, rfl⟩
  | ok r =>
    obtain ⟨message, writableAccounts, isVote⟩ := r
    cases hmessage : extractFromMessage message with
    | error e => exact ⟨[.one e.into], by simpa [hmessage] using .rejected e, by simp [hmessage]⟩
    | ok r =>
      obtain ⟨accounts, instructions, header, config⟩ := r
      simp only [hmessage, ← resolvePriorityRate_snd]
      set writable := constructWritableAccounts accounts header ++ writableAccounts
      cases config with
      | none =>
        obtain ⟨missing, hmissing⟩ := instructionsForProcessing_fst accounts instructions
        cases hresult : process (instructionsForProcessing accounts instructions).2 with
        | ok rate =>
          have hrate : resolvePriorityRate process none accounts instructions =
              (List.replicate missing (.one "program_id_index_not_found"), some rate) := by
            simp [resolvePriorityRate, calculatePriorityFeeDetails, hresult, hmissing]
          rw [hrate]
          exact ⟨_, .priced missing ⟨writable, rate, isVote, .legacyV0⟩ rfl, rfl⟩
        | error e =>
          have hrate : resolvePriorityRate process none accounts instructions =
              (List.replicate missing (.one "program_id_index_not_found") ++
                [.one "priority_fee_details_error"], none) := by
            simp [resolvePriorityRate, calculatePriorityFeeDetails, hresult, hmissing]
          rw [hrate]
          refine ⟨_, .failed missing writable.length, ?_⟩
          simp [transactionVersion, Count.processed, writable]
      | some config =>
        have hbucket := computeUnitLimitBucket_mem config
        cases hlimit : v1PriorityRate config with
        | none =>
          have hrate : resolvePriorityRate process (some config) accounts instructions =
              ([.one "v1_txn_unpriceable"], none) := by
            simp [resolvePriorityRate, hlimit]
          rw [if_pos hlimit] at hbucket
          rw [hrate]
          exact ⟨_, .unpriceable _ hbucket writable.length, rfl⟩
        | some rate =>
          have hrate : resolvePriorityRate process (some config) accounts instructions =
              ([.one "txns_priced_from_v1_config"], some rate) := by
            simp [resolvePriorityRate, hlimit]
          rw [if_neg (by simp [hlimit])] at hbucket
          rw [hrate]
          exact ⟨_, .pricedFromConfig _ hbucket ⟨writable, rate, isVote, .v1⟩ rfl, rfl⟩

end Metered

/-- The sum of the counts that are selected. -/
def totalWhere (p : Count → Bool) (m : List Count) : ℤ := ((m.filter p).map Count.amount).sum

/-- The sum of the counts under a name. -/
def total (name : String) (m : List Count) : ℤ := totalWhere (fun c => c.name = name) m

/-- The number of configured compute-unit limits in a bucket. -/
def bucketTotal (bucket : String) (m : List Count) : ℤ :=
  totalWhere (fun c => c.name = "v1_config_compute_unit_limit" && c.tags = [("bucket", bucket)]) m

@[simp] theorem totalWhere_append (p : Count → Bool) (m m' : List Count) :
    totalWhere p (m ++ m') = totalWhere p m + totalWhere p m' := by
  simp [totalWhere]

@[simp] theorem total_append (name : String) (m m' : List Count) :
    total name (m ++ m') = total name m + total name m' := totalWhere_append _ m m'

@[simp] theorem bucketTotal_append (bucket : String) (m m' : List Count) :
    bucketTotal bucket (m ++ m') = bucketTotal bucket m + bucketTotal bucket m' :=
  totalWhere_append _ m m'

/-- The number of accounts that some transactions write. -/
def accountCount (pushed : List Txn) : ℤ := (pushed.map fun x => (x.accounts.length : ℤ)).sum

/-- The counters of `blocks` blocks that have pushed `pushed`, before some `rest`
    of their transactions is counted as received. -/
structure Balanced (blocks rest : ℤ) (m : List Count) (pushed : List Txn) : Prop where
  blocks : total "blocks_processed" m = blocks
  outcomes : total "txns_received" m + rest = total "txn_failed" m + total "txn_missing" m +
    total "message_missing" m + total "invalid_pubkey" m + total "txns_processed" m
  prices : total "txns_processed" m = pushed.length + total "priority_fee_details_error" m +
    total "v1_txn_unpriceable" m
  limits : total "v1_config_compute_unit_limit" m =
    total "txns_priced_from_v1_config" m + total "v1_txn_unpriceable" m
  versions : total "txns_priced_from_v1_config" m = pushed.countP fun x => x.version = .v1
  unpriceable : bucketTotal "missing" m + bucketTotal "zero" m = total "v1_txn_unpriceable" m
  priced : (pricedBuckets.map fun bucket => bucketTotal bucket m).sum =
    total "txns_priced_from_v1_config" m
  accounts : accountCount pushed ≤ total "priority_fee_tracker.accounts_processed" m

namespace Balanced

variable {b b' r r' : ℤ} {m m' : List Count} {pushed pushed' : List Txn}

theorem nil : Balanced 0 0 [] [] where
  blocks := rfl
  outcomes := rfl
  prices := rfl
  limits := rfl
  versions := rfl
  unpriceable := rfl
  priced := rfl
  accounts := le_rfl

theorem append (h : Balanced b r m pushed) (h' : Balanced b' r' m' pushed') :
    Balanced (b + b') (r + r') (m ++ m') (pushed ++ pushed') where
  blocks := by rw [total_append, h.blocks, h'.blocks]
  outcomes := by
    have h₁ := h.outcomes
    have h₂ := h'.outcomes
    simp only [total_append]
    omega
  prices := by
    have h₁ := h.prices
    have h₂ := h'.prices
    simp only [total_append, List.length_append, Nat.cast_add]
    omega
  limits := by
    have h₁ := h.limits
    have h₂ := h'.limits
    simp only [total_append]
    omega
  versions := by rw [total_append, h.versions, h'.versions, List.countP_append, Nat.cast_add]
  unpriceable := by
    have h₁ := h.unpriceable
    have h₂ := h'.unpriceable
    simp only [total_append, bucketTotal_append]
    omega
  priced := by
    have h₁ := h.priced
    have h₂ := h'.priced
    simp only [total_append, bucketTotal_append, List.sum_map_add]
    omega
  accounts := by
    have h₁ := h.accounts
    have h₂ := h'.accounts
    rw [accountCount, List.map_append, List.sum_append, total_append]
    exact add_le_add h₁ h₂

/-- A block arrives: none of its transactions has an outcome yet. -/
theorem block (received : ℤ) :
    Balanced 1 (-received) [.one "blocks_processed", ⟨"txns_received", received, []⟩] [] := by
  constructor <;> simp [total, bucketTotal, totalWhere, Count.one, accountCount, pricedBuckets]

/-- Instructions without a program do not enter the balance. -/
theorem missing (k : ℕ) :
    Balanced 0 0 (List.replicate k (.one "program_id_index_not_found")) [] := by
  induction k with
  | zero => exact nil
  | succ k ih =>
    have hone : Balanced 0 0 [.one "program_id_index_not_found"] [] := by
      constructor <;> simp [total, bucketTotal, totalWhere, Count.one, accountCount, pricedBuckets]
    exact hone.append ih

/-- The counts of one transaction, before it is counted as received. -/
theorem counted {o : Option Txn} (h : Counted m o) : Balanced 0 1 m o.toList := by
  cases h with
  | rejected error =>
    cases error <;> constructor <;>
      simp [total, bucketTotal, totalWhere, Count.one, accountCount, pricedBuckets,
        TransactionValidationError.into]
  | priced k x hversion =>
    have hprocessed : Balanced 0 1 (Count.processed x.accounts.length) [x] := by
      constructor <;> simp [total, bucketTotal, totalWhere, Count.one, Count.processed,
        accountCount, pricedBuckets, hversion]
    exact (missing k).append hprocessed
  | failed k accounts =>
    have hfailed : Balanced 0 1 (.one "priority_fee_details_error" :: Count.processed accounts)
        [] := by
      constructor <;> simp [total, bucketTotal, totalWhere, Count.one, Count.processed,
        accountCount, pricedBuckets]
    exact (missing k).append hfailed
  | pricedFromConfig bucket hbucket x hversion =>
    simp only [pricedBuckets, List.mem_cons, List.not_mem_nil, or_false] at hbucket
    rcases hbucket with rfl | rfl | rfl | rfl | rfl <;> constructor <;>
      simp [total, bucketTotal, totalWhere, Count.one, Count.limit, Count.processed, accountCount,
        pricedBuckets, hversion]
  | unpriceable bucket hbucket accounts =>
    simp only [List.mem_cons, List.not_mem_nil, or_false] at hbucket
    rcases hbucket with rfl | rfl <;> constructor <;>
      simp [total, bucketTotal, totalWhere, Count.one, Count.limit, Count.processed, accountCount,
        pricedBuckets]

end Balanced

/-- The update brings a block. -/
def Geyser.SubscribeUpdate.isBlock (update : SubscribeUpdate) : Bool :=
  match update.updateOneof with
  | some (.block _) => true
  | _ => false

namespace Metered

/-- The transactions of a block are consumed as they are without counters, and
    each is counted once. -/
theorem foldl_consumeTransaction (process : ComputeBudgetProcessor) (slot : Slot)
    (x : List Count × PriorityFeeTracker) (txns : List Proto.SubscribeUpdateTransactionInfo) :
    ∃ m, Balanced 0 txns.length m (txns.filterMap (recordedTxn process)) ∧
      txns.foldl (consumeTransaction process slot) x =
        (x.1 ++ m, txns.foldl (PriorityFeeTracker.consumeTransaction process slot) x.2) := by
  induction txns generalizing x with
  | nil => exact ⟨[], .nil, by simp⟩
  | cons txn txns ih =>
    obtain ⟨m, hm, heq⟩ := consumeTransaction_eq process slot x txn
    obtain ⟨m', hm', heq'⟩ :=
      ih (x.1 ++ m, x.2.consumeTransaction process slot txn)
    refine ⟨m ++ m', ?_, ?_⟩
    · have h := (Balanced.counted hm).append hm'
      have hrecorded : (txn :: txns).filterMap (recordedTxn process) =
          (recordedTxn process txn).toList ++ txns.filterMap (recordedTxn process) := by
        cases hr : recordedTxn process txn <;> simp [hr]
      have hlength : ((txn :: txns).length : ℤ) = 1 + txns.length := by
        rw [List.length_cons]
        omega
      rw [hrecorded, hlength]
      exact h
    · rw [List.foldl_cons, heq, heq', List.foldl_cons, List.append_assoc]

/-- An update is consumed as it is without counters, and its counts balance. -/
theorem consume_eq (process : ComputeBudgetProcessor) (x : List Count × PriorityFeeTracker)
    (update : SubscribeUpdate) :
    ∃ m, Balanced (if update.isBlock then 1 else 0) 0 m
        ((PriorityFeeTracker.pushesOf process update).map Prod.snd) ∧
      consume process x update.read =
        (.ok (), x.1 ++ m, x.2.pushAll (PriorityFeeTracker.pushesOf process update)) := by
  obtain ⟨o⟩ := update
  cases o with
  | none => exact ⟨[], .nil, by simp [consume, SubscribeUpdate.read, PriorityFeeTracker.pushesOf]⟩
  | some u =>
    cases u with
    | ping => exact ⟨[], .nil, by simp [consume, SubscribeUpdate.read, PriorityFeeTracker.pushesOf]⟩
    | other => exact ⟨[], .nil, by simp [consume, SubscribeUpdate.read, PriorityFeeTracker.pushesOf]⟩
    | block block =>
      obtain ⟨m, hm, heq⟩ := foldl_consumeTransaction process block.slot
        (x.1 ++ [.one "blocks_processed", ⟨"txns_received", block.transactions.length, []⟩], x.2)
        block.transactions
      rw [PriorityFeeTracker.foldl_consumeTransaction, List.append_assoc] at heq
      refine ⟨_, ?_, congrArg (Prod.mk _) heq⟩
      have h := (Balanced.block block.transactions.length).append hm
      rw [neg_add_cancel, add_zero, List.nil_append] at h
      have hpushed : (PriorityFeeTracker.pushesOf process ⟨some (.block block)⟩).map Prod.snd =
          block.transactions.filterMap (recordedTxn process) := by
        simp [PriorityFeeTracker.pushesOf, PriorityFeeTracker.recordedTxns, Function.comp_def]
      rw [hpushed]
      exact h

/-- The counters of a sequence of updates balance. -/
theorem deliverAll_eq (process : ComputeBudgetProcessor) (x : List Count × PriorityFeeTracker)
    (us : List SubscribeUpdate) :
    ∃ m, Balanced (us.countP SubscribeUpdate.isBlock) 0 m
        ((us.flatMap (PriorityFeeTracker.pushesOf process)).map Prod.snd) ∧
      GrpcGeyserImpl.deliverAll [consumer process] x us =
        (x.1 ++ m, x.2.pushAll (us.flatMap (PriorityFeeTracker.pushesOf process))) := by
  induction us generalizing x with
  | nil => exact ⟨[], .nil, by simp [GrpcGeyserImpl.deliverAll]⟩
  | cons u us ih =>
    obtain ⟨m, hm, heq⟩ := consume_eq process x u
    obtain ⟨m', hm', heq'⟩ := ih (x.1 ++ m, x.2.pushAll (PriorityFeeTracker.pushesOf process u))
    refine ⟨m ++ m', ?_, ?_⟩
    · have h := hm.append hm'
      rw [add_zero] at h
      have hblocks : ((u :: us).countP SubscribeUpdate.isBlock : ℤ) =
          (if u.isBlock then 1 else 0) + us.countP SubscribeUpdate.isBlock := by
        rw [List.countP_cons]
        cases u.isBlock <;> simp [add_comm]
      rw [List.flatMap_cons, List.map_append, hblocks]
      exact h
    · have hdeliver : (deliver [consumer process] x u).2 =
          (x.1 ++ m, x.2.pushAll (PriorityFeeTracker.pushesOf process u)) := by
        rw [GrpcGeyserImpl.deliver_world]
        exact congrArg Prod.snd heq
      rw [GrpcGeyserImpl.deliverAll, List.foldl_cons, hdeliver]
      refine heq'.trans ?_
      rw [List.append_assoc, List.flatMap_cons]
      simp only [PriorityFeeTracker.pushAll, List.foldl_append]

end Metered

/-- After any run of the stream the tracker holds what it would hold without
    counters, and the counters balance: the transactions received are those that
    failed, those without a transaction or a message, those with a key that is
    none, and those processed; of these some were pushed, and for the others an
    error of the processor or an unpriceable configuration was counted. Every
    configured limit is in one bucket, and the unpriceable ones are those of the
    buckets missing and zero. -/
theorem metrics_balance {process : ComputeBudgetProcessor} {names : ℕ → String} {n : ℕ}
    {replies : List Reply} {x : GrpcGeyserImpl (List Count × PriorityFeeTracker)}
    (h : GrpcGeyserImpl.run [Metered.consumer process] names ([], .new n) replies = some x) :
    let pushed := (updates replies).flatMap (PriorityFeeTracker.pushesOf process)
    x.world.2 = PriorityFeeTracker.run n pushed ∧
      Balanced ((updates replies).countP SubscribeUpdate.isBlock) 0 x.world.1
        (pushed.map Prod.snd) := by
  intro pushed
  obtain ⟨m, hm, heq⟩ := Metered.deliverAll_eq process ([], .new n) (updates replies)
  rw [(GrpcGeyserImpl.delivered_run h).world_eq, heq]
  exact ⟨rfl, hm⟩

/-- A block of three transactions: one without a transaction, one without a limit
    to its configuration, and one that is pushed. -/
theorem metrics_balance_three :
    let missing : Proto.SubscribeUpdateTransactionInfo := ⟨false, none, none⟩
    let unlimited : Proto.SubscribeUpdateTransactionInfo :=
      ⟨false, some ⟨some ⟨none, [], [], some ⟨some 5, none⟩⟩⟩, none⟩
    let landed := setPriceTransaction (.filled 1) 5
    let replies : List Reply := [.connected (.ok ()), .subscribed (.ok ()),
      .received (some (.ok ⟨some (.block ⟨2, [missing, unlimited, landed]⟩)⟩))]
    ∃ x, GrpcGeyserImpl.run [Metered.consumer priceProcessor] (fun _ => "name") ([], .new 150)
        replies = some x ∧
      total "txns_received" x.world.1 = total "txn_failed" x.world.1 +
        total "txn_missing" x.world.1 + total "message_missing" x.world.1 +
        total "invalid_pubkey" x.world.1 + total "txns_processed" x.world.1 := by
  intro missing unlimited landed replies
  obtain ⟨x, hx⟩ : ∃ x, GrpcGeyserImpl.run [Metered.consumer priceProcessor] (fun _ => "name")
      ([], .new 150) replies = some x := ⟨_, rfl⟩
  have h := (metrics_balance hx).2.outcomes
  rw [add_zero] at h
  exact ⟨x, hx, h⟩

end PriorityFeeEstimator
