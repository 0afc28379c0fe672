import Mathlib
import PriorityFeeEstimator.Lib.Checks
import PriorityFeeEstimator.Tracker

/-!
# Ingest

What `consume` does with a block update: every transaction is checked, priced
and pushed to the slot of the block under the accounts it writes. The processor
of compute-budget instructions belongs to another crate and is a parameter.
-/

namespace PriorityFeeEstimator

/-- Bytes as they come over the wire. -/
abbrev Bytes := List UInt8

/-- `CompiledInstruction` of the message crate. -/
structure CompiledInstruction where
  programIdIndex : UInt8
  data : Bytes
  accounts : Bytes
deriving DecidableEq

namespace Proto

structure MessageHeader where
  numRequiredSignatures : UInt32
  numReadonlySignedAccounts : UInt32
  numReadonlyUnsignedAccounts : UInt32
deriving DecidableEq

structure CompiledInstruction where
  programIdIndex : UInt32
  accounts : Bytes
  data : Bytes
deriving DecidableEq

structure TransactionConfig where
  priorityFee : Option UInt64
  computeUnitLimit : Option UInt32
deriving DecidableEq

structure Message where
  header : Option MessageHeader
  accountKeys : List Bytes
  instructions : List CompiledInstruction
  config : Option TransactionConfig
deriving DecidableEq

structure Transaction where
  message : Option Message
deriving DecidableEq

/-- The status of a transaction: its error, and the addresses it loaded for
    writing. -/
structure TransactionStatusMeta where
  err : Option Bytes
  loadedWritableAddresses : List Bytes
deriving DecidableEq

structure SubscribeUpdateTransactionInfo where
  isVote : Bool
  transaction : Option Transaction
  statusMeta : Option TransactionStatusMeta
deriving DecidableEq

structure SubscribeUpdateBlock where
  slot : Slot
  transactions : List SubscribeUpdateTransactionInfo
deriving DecidableEq

inductive UpdateOneof where
  | block (block : SubscribeUpdateBlock)
  | other
deriving DecidableEq

structure SubscribeUpdate where
  updateOneof : Option UpdateOneof
deriving DecidableEq

end Proto

inductive TransactionValidationError where
  | transactionFailed
  | transactionMissing
  | messageMissing
  | invalidAccount
deriving DecidableEq

def extractFromMeta (transactionMeta : Option Proto.TransactionStatusMeta) :
    Except TransactionValidationError (List Pubkey) :=
  match transactionMeta with
  | none => .ok []
  | some info =>
    if info.err.isSome then .error .transactionFailed
    else .ok (info.loadedWritableAddresses.filterMap Pubkey.tryFrom)

def extractFromTransaction (transaction : Proto.SubscribeUpdateTransactionInfo) :
    Except TransactionValidationError (Proto.Message × List Pubkey × Bool) := do
  let writableAccounts ← extractFromMeta transaction.statusMeta
  match transaction.transaction with
  | none => .error .transactionMissing
  | some tran =>
    match tran.message with
    | none => .error .messageMissing
    | some message => .ok (message, writableAccounts, transaction.isVote)

/-- An instruction in the form in which the processor is given it: its index is
    cut to the low byte. -/
def compiledInstruction (ix : Proto.CompiledInstruction) : CompiledInstruction :=
  { programIdIndex := ix.programIdIndex.toUInt8, data := ix.data, accounts := ix.accounts }

def extractFromMessage (message : Proto.Message) :
    Except TransactionValidationError (List Pubkey × List CompiledInstruction ×
      Option Proto.MessageHeader × Option Proto.TransactionConfig) :=
  match message.accountKeys.mapM Pubkey.tryFrom with
  | none => .error .invalidAccount
  | some accounts =>
    let compiledInstructions := message.instructions.map compiledInstruction
    .ok (accounts, compiledInstructions, message.header, message.config)

/-- There are 10^6 micro-lamports in one lamport. -/
def microLamportsPerLamport : ℕ := 1000000

/-- The largest compute-unit limit of a transaction. -/
def maxComputeUnitLimit : UInt32 := 1400000

/-- The price the compute-budget instructions set, given the processor: the
    compute-unit price, or an error. -/
abbrev ComputeBudgetProcessor :=
  List (Pubkey × CompiledInstruction) → Except String UInt64

def ComputeBudgetProcessor.calculatePriorityFeeDetails (process : ComputeBudgetProcessor)
    (accounts : List Pubkey) (instructions : List CompiledInstruction) : Except String UInt64 :=
  process (instructions.filterMap fun ix =>
    (accounts[ix.programIdIndex.toNat]?).map fun account => (account, ix))

/-- The rate of a version 1 message: its total fee over its compute-unit limit.
    The product saturates at 128 bits, and a rate that does not fit is 0. -/
def v1PriorityRate (config : Proto.TransactionConfig) : Option UInt64 :=
  (config.computeUnitLimit.filter fun limit => 0 < limit).map fun limit =>
    let cuLimit := (min limit maxComputeUnitLimit).toNat
    let totalLamports := (config.priorityFee.getD 0).toNat
    let product := min (totalLamports * microLamportsPerLamport) (2 ^ 128 - 1)
    let quotient := if cuLimit = 0 then none else some (product / cuLimit)
    (quotient.bind fun rate => if rate < 2 ^ 64 then some (UInt64.ofNat rate) else none).getD 0

/-- The rate of a transaction, nothing when it is not to be recorded. -/
def resolvePriorityRate (process : ComputeBudgetProcessor)
    (config : Option Proto.TransactionConfig) (accounts : List Pubkey)
    (instructions : List CompiledInstruction) : Option UInt64 :=
  match config with
  | none =>
    match process.calculatePriorityFeeDetails accounts instructions with
    | .ok rate => some rate
    | .error _ => none
  | some config => v1PriorityRate config

/-- The accounts of a message that its header marks as written. -/
def constructWritableAccounts {α : Type*} (messageAccounts : List α)
    (header : Option Proto.MessageHeader) : List α :=
  match header with
  | none => messageAccounts
  | some header =>
    let minPosNonSigWriteAccts := header.numRequiredSignatures.toNat
    let maxPosWriteSig := minPosNonSigWriteAccts - header.numReadonlySignedAccounts.toNat
    let maxNonSigWriteAccts :=
      if header.numReadonlyUnsignedAccounts.toNat ≤ messageAccounts.length then
        messageAccounts.length - header.numReadonlyUnsignedAccounts.toNat
      else messageAccounts.length
    (messageAccounts.zipIdx.filter fun data =>
      data.2 < maxPosWriteSig ||
        (minPosNonSigWriteAccts ≤ data.2 && data.2 < maxNonSigWriteAccts)).map Prod.fst

namespace PriorityFeeTracker

/-- One transaction of a block: rejected, or pushed to the slot. -/
def consumeTransaction (process : ComputeBudgetProcessor) (slot : Slot) (t : PriorityFeeTracker)
    (txn : Proto.SubscribeUpdateTransactionInfo) : PriorityFeeTracker :=
  match extractFromTransaction txn with
  | .error _ => t
  | .ok (message, writableAccounts, isVote) =>
    match extractFromMessage message with
    | .error _ => t
    | .ok (accounts, instructions, header, config) =>
      let transactionVersion : TransactionVersion := if config.isSome then .v1 else .legacyV0
      let priorityRate := resolvePriorityRate process config accounts instructions
      let writableAccounts := constructWritableAccounts accounts header ++ writableAccounts
      match priorityRate with
      | some priorityRate =>
        t.pushPriorityFeeForTxnWithVersion slot writableAccounts priorityRate isVote
          transactionVersion
      | none => t

/-- An update that is not a block changes nothing; the transactions of a block
    are taken in order. -/
def consume (process : ComputeBudgetProcessor) (t : PriorityFeeTracker)
    (update : Proto.SubscribeUpdate) : Except String Unit × PriorityFeeTracker :=
  match update.updateOneof with
  | some (.block block) =>
    (.ok (), block.transactions.foldl (consumeTransaction process block.slot) t)
  | _ => (.ok (), t)

end PriorityFeeTracker

/-- The transaction `consume` records for an update, nothing when it rejects
    it. -/
def recordedTxn (process : ComputeBudgetProcessor)
    (txn : Proto.SubscribeUpdateTransactionInfo) : Option Txn :=
  match extractFromTransaction txn with
  | .error _ => none
  | .ok (message, writableAccounts, isVote) =>
    match extractFromMessage message with
    | .error _ => none
    | .ok (accounts, instructions, header, config) =>
      (resolvePriorityRate process config accounts instructions).map fun rate =>
        { accounts := constructWritableAccounts accounts header ++ writableAccounts
          priorityFee := rate
          isVote := isVote
          version := if config.isSome then .v1 else .legacyV0 }

/-- A transaction is taken apart when its status has no error and its message is
    there. -/
theorem extractFromTransaction_eq_ok_iff {txn : Proto.SubscribeUpdateTransactionInfo}
    {message : Proto.Message} {loaded : List Pubkey} {isVote : Bool} :
    extractFromTransaction txn = .ok (message, loaded, isVote) ↔
      extractFromMeta txn.statusMeta = .ok loaded ∧
        (∃ tran, txn.transaction = some tran ∧ tran.message = some message) ∧
        isVote = txn.isVote := by
  rw [extractFromTransaction, Except.bind_eq_ok_iff]
  cases htran : txn.transaction with
  | none => simp
  | some tran =>
    cases hmessage : tran.message with
    | none => simp [hmessage]
    | some m =>
      simp only [hmessage, Except.ok.injEq, Prod.mk.injEq, Option.some.injEq]
      constructor
      · rintro ⟨loaded', hmeta, rfl, rfl, rfl⟩
        exact ⟨hmeta, ⟨tran, rfl, hmessage⟩, rfl⟩
      · rintro ⟨hmeta, ⟨tran', rfl, hm⟩, rfl⟩
        exact ⟨loaded, hmeta, Option.some.inj (hmessage.symm.trans hm), rfl, rfl⟩

theorem Pubkey.tryFrom_eq_some_iff {v : List UInt8} {k : Pubkey} :
    Pubkey.tryFrom v = some k ↔ v = k.bytes := by
  constructor
  · intro h
    unfold tryFrom at h
    split at h
    · rw [← Option.some.inj h]
    · cases h
  · rintro rfl
    exact tryFrom_bytes k

theorem mapM_tryFrom_eq_some_iff {keys : List Bytes} {accounts : List Pubkey} :
    keys.mapM Pubkey.tryFrom = some accounts ↔ keys = accounts.map Pubkey.bytes := by
  induction keys generalizing accounts with
  | nil => cases accounts <;> simp
  | cons v keys ih =>
    cases accounts with
    | nil => simp [Option.bind_eq_some_iff]
    | cons k accounts => simp [Option.bind_eq_some_iff, ih, Pubkey.tryFrom_eq_some_iff]

/-- The instructions of a message as the processor sees them. -/
def compiledInstructions (message : Proto.Message) : List CompiledInstruction :=
  message.instructions.map compiledInstruction

theorem extractFromMessage_eq_ok_iff {message : Proto.Message} {accounts : List Pubkey}
    {instructions : List CompiledInstruction} {header : Option Proto.MessageHeader}
    {config : Option Proto.TransactionConfig} :
    extractFromMessage message = .ok (accounts, instructions, header, config) ↔
      message.accountKeys = accounts.map Pubkey.bytes ∧
        instructions = compiledInstructions message ∧ header = message.header ∧
        config = message.config := by
  rw [← mapM_tryFrom_eq_some_iff]
  unfold extractFromMessage
  cases h : message.accountKeys.mapM Pubkey.tryFrom with
  | none => simp
  | some keys =>
    simp only [Except.ok.injEq, Prod.mk.injEq, Option.some.injEq,
      compiledInstructions]
    constructor
    · rintro ⟨rfl, rfl, rfl, rfl⟩
      exact ⟨rfl, rfl, rfl, rfl⟩
    · rintro ⟨rfl, rfl, rfl, rfl⟩
      exact ⟨rfl, rfl, rfl, rfl⟩

/-- What a transaction is recorded as, once its status, its message and its
    account keys are found in order. -/
theorem recordedTxn_eq (process : ComputeBudgetProcessor)
    {txn : Proto.SubscribeUpdateTransactionInfo} {loaded accounts : List Pubkey}
    {tran : Proto.Transaction} {message : Proto.Message}
    (hmeta : extractFromMeta txn.statusMeta = .ok loaded) (htran : txn.transaction = some tran)
    (hmessage : tran.message = some message)
    (hkeys : message.accountKeys = accounts.map Pubkey.bytes) :
    recordedTxn process txn =
      (resolvePriorityRate process message.config accounts (compiledInstructions message)).map
        fun rate =>
          { accounts := constructWritableAccounts accounts message.header ++ loaded
            priorityFee := rate
            isVote := txn.isVote
            version := if message.config.isSome then .v1 else .legacyV0 } := by
  have htransaction : extractFromTransaction txn = .ok (message, loaded, txn.isVote) :=
    extractFromTransaction_eq_ok_iff.mpr ⟨hmeta, ⟨tran, htran, hmessage⟩, rfl⟩
  have hextract := extractFromMessage_eq_ok_iff.mpr ⟨hkeys, rfl, rfl, rfl⟩
  simp only [recordedTxn, htransaction, hextract]

/-- A transaction of a block is pushed as it is recorded, or not at all. -/
theorem PriorityFeeTracker.consumeTransaction_eq (process : ComputeBudgetProcessor) (slot : Slot)
    (t : PriorityFeeTracker) (txn : Proto.SubscribeUpdateTransactionInfo) :
    t.consumeTransaction process slot txn =
      ((recordedTxn process txn).map fun x => t.push (slot, x)).getD t := by
  unfold consumeTransaction recordedTxn
  cases extractFromTransaction txn with
  | error e => rfl
  | ok r =>
    obtain ⟨message, writableAccounts, isVote⟩ := r
    cases h : extractFromMessage message with
    | error e => simp [h]
    | ok r =>
      obtain ⟨accounts, instructions, header, config⟩ := r
      cases hrate : resolvePriorityRate process config accounts instructions with
      | none => simp [h, hrate]
      | some rate => simp [h, hrate, push]

/-- A writable account is an account of the message. -/
theorem constructWritableAccounts_sublist {α : Type*} (accounts : List α)
    (header : Option Proto.MessageHeader) :
    (constructWritableAccounts accounts header).Sublist accounts := by
  cases header with
  | none => exact .refl _
  | some header =>
    have h := (List.filter_sublist (p := fun data : α × ℕ =>
      data.2 < header.numRequiredSignatures.toNat - header.numReadonlySignedAccounts.toNat ||
        (header.numRequiredSignatures.toNat ≤ data.2 && data.2 <
          if header.numReadonlyUnsignedAccounts.toNat ≤ accounts.length then
            accounts.length - header.numReadonlyUnsignedAccounts.toNat
          else accounts.length)) (l := accounts.zipIdx)).map Prod.fst
    rwa [List.zipIdx_map_fst] at h

/-- The choice goes by position: a renaming of the accounts does not enter it. -/
theorem constructWritableAccounts_map {α β : Type*} (f : α → β) (accounts : List α)
    (header : Option Proto.MessageHeader) :
    constructWritableAccounts (accounts.map f) header =
      (constructWritableAccounts accounts header).map f := by
  cases header with
  | none => rfl
  | some header =>
    simp only [constructWritableAccounts, List.length_map, List.zipIdx_map, List.filter_map,
      List.map_map]
    rfl

end PriorityFeeEstimator
