import Mathlib
import PriorityFeeEstimator.Base58
import PriorityFeeEstimator.Estimates
import PriorityFeeEstimator.Ingest
import PriorityFeeEstimator.Lib.Checks

/-!
# The server

A request asks for an estimate for a list of accounts or for a transaction. It
is validated, its accounts are collected, and the tracker is asked for levels,
with details or without. The display of keys, the decoders of transactions and
of lookup tables and the client of the node belong to other crates and are
parameters.
-/

namespace PriorityFeeEstimator

-- ════════════════════════════════════════════════════════════════════════
-- Transactions
-- ════════════════════════════════════════════════════════════════════════

/-- The header of a message, with one byte for each count. -/
structure MessageHeader where
  numRequiredSignatures : UInt8
  numReadonlySignedAccounts : UInt8
  numReadonlyUnsignedAccounts : UInt8
deriving DecidableEq

/-- A lookup table of a message, with the indexes it selects. -/
structure MessageAddressTableLookup where
  accountKey : Pubkey
  writableIndexes : List UInt8
  readonlyIndexes : List UInt8
deriving DecidableEq

inductive VersionedMessage where
  | legacy (header : MessageHeader) (accountKeys : List Pubkey)
      (instructions : List CompiledInstruction)
  | v0 (header : MessageHeader) (accountKeys : List Pubkey)
      (instructions : List CompiledInstruction)
      (addressTableLookups : List MessageAddressTableLookup)
  | v1 (header : MessageHeader) (accountKeys : List Pubkey)
      (instructions : List CompiledInstruction) (config : Proto.TransactionConfig)
deriving DecidableEq

namespace VersionedMessage

def header : VersionedMessage → MessageHeader
  | legacy header _ _ => header
  | v0 header _ _ _ => header
  | v1 header _ _ _ => header

def staticAccountKeys : VersionedMessage → List Pubkey
  | legacy _ accountKeys _ => accountKeys
  | v0 _ accountKeys _ _ => accountKeys
  | v1 _ accountKeys _ _ => accountKeys

def instructions : VersionedMessage → List CompiledInstruction
  | legacy _ _ instructions => instructions
  | v0 _ _ instructions _ => instructions
  | v1 _ _ instructions _ => instructions

/-- Only version 0 messages have lookup tables. -/
def addressTableLookups : VersionedMessage → Option (List MessageAddressTableLookup)
  | v0 _ _ _ addressTableLookups => some addressTableLookups
  | _ => none

end VersionedMessage

/-- A transaction; its signatures are not read. -/
structure VersionedTransaction where
  message : VersionedMessage
deriving DecidableEq

inductive UiTransactionEncoding where
  | binary
  | base64
  | base58
  | json
  | jsonParsed
deriving DecidableEq

inductive TransactionBinaryEncoding where
  | base58
  | base64
deriving DecidableEq

namespace UiTransactionEncoding

def intoBinaryEncoding : UiTransactionEncoding → Option TransactionBinaryEncoding
  | binary => some .base58
  | base58 => some .base58
  | base64 => some .base64
  | json => none
  | jsonParsed => none

def toText : UiTransactionEncoding → String
  | binary => "binary"
  | base64 => "base64"
  | base58 => "base58"
  | json => "json"
  | jsonParsed => "jsonParsed"

end UiTransactionEncoding

-- ════════════════════════════════════════════════════════════════════════
-- What other crates provide
-- ════════════════════════════════════════════════════════════════════════

inductive LookupTableAccountType where
  | uninitialized
  | lookupTable (addresses : List String)

/-- The functions of other crates: the display of keys and its inverse, the
    decoders of texts and of transactions, and the parser of lookup tables. An
    error is the text it is reported with. -/
structure Crates where
  display : Pubkey → String
  fromStr : String → Option Pubkey
  bs58Decode : String → Except String Bytes
  base64Decode : String → Except String Bytes
  deserialize : Bytes → Except String VersionedTransaction
  parseAddressLookupTable : Bytes → Except String LookupTableAccountType

/-- Crates that read and display texts, and know no transaction and no lookup
    table. -/
def Crates.keysOnly : Crates where
  display := Pubkey.toBase58
  fromStr := Pubkey.ofBase58
  bs58Decode text := (base58Decode text).elim (.error "InvalidCharacter") .ok
  base64Decode text := (PriorityFeeEstimator.base64Decode text).elim (.error "InvalidByte") .ok
  deserialize _ := .error "invalid transaction"
  parseAddressLookupTable _ := .error "invalid account data"

/-- The client of a node: the data of each account asked for, in order, nothing
    for an account that does not exist. It never gives more answers than it was
    asked for accounts. -/
structure RpcClient where
  getMultipleAccounts : List Pubkey → Except String (List (Option Bytes))
  length_le : ∀ {keys answers}, getMultipleAccounts keys = .ok answers →
    answers.length ≤ keys.length

/-- Each answer has a key at its position: no index is out of bounds, and no answer
    is left out. -/
theorem RpcClient.map_snd_zip (rpcClient : RpcClient) {keys : List Pubkey}
    {answers : List (Option Bytes)} (h : rpcClient.getMultipleAccounts keys = .ok answers) :
    (keys.zip answers).map Prod.snd = answers :=
  List.map_snd_zip (rpcClient.length_le h)

structure ErrorObject where
  code : ℤ
  message : String
deriving DecidableEq

def invalidParamsCode : ℤ := -32602

def invalidRequest (reason : String) : ErrorObject :=
  { code := invalidParamsCode, message := "Invalid Request: " ++ reason }

-- ════════════════════════════════════════════════════════════════════════
-- Requests
-- ════════════════════════════════════════════════════════════════════════

structure GetPriorityFeeEstimateOptions where
  transactionEncoding : Option UiTransactionEncoding
  priorityLevel : Option PriorityLevel
  includeAllPriorityFeeLevels : Option Bool
  lookbackSlots : Option UInt32
  includeVote : Option Bool
  recommended : Option Bool
  evaluateEmptySlotAsZero : Option Bool
  includeDetails : Option Bool
deriving DecidableEq

structure GetPriorityFeeEstimateRequest where
  transaction : Option String
  accountKeys : Option (List String)
  options : Option GetPriorityFeeEstimateOptions
deriving DecidableEq

structure GetPriorityFeeEstimateResponse where
  priorityFeeEstimate : Option F64
  priorityFeeLevels : Option MicroLamportPriorityFeeEstimates
  priorityFeeEstimateDetails : Option (List (String × MicroLamportPriorityFeeDetails))
deriving DecidableEq

/-- The options that a recommended fee cannot be combined with. -/
def GetPriorityFeeEstimateOptions.customControlsSet (o : GetPriorityFeeEstimateOptions) : Bool :=
  o.priorityLevel.isSome || o.includeAllPriorityFeeLevels.isSome || o.lookbackSlots.isSome ||
    o.includeVote.isSome

/-- The first objection to a request. -/
def validateGetPriorityFeeEstimateRequest (request : GetPriorityFeeEstimateRequest) :
    Option ErrorObject :=
  if request.transaction.isSome && request.accountKeys.isSome then
    some (invalidRequest "transaction and account_keys cannot both be provided ")
  else if request.accountKeys.any fun accountKeys => 500 < accountKeys.length then
    some (invalidRequest "number of account_keys must be <= 500")
  else
    match request.options with
    | some options =>
      if options.customControlsSet && options.recommended.isSome then
        some (invalidRequest <| "recommended cannot be used with priority_level, " ++
          "include_all_priority_fee_levels, lookback_slots, include_vote")
      else none
    | none => none

def shouldIncludeVote (options : Option GetPriorityFeeEstimateOptions) : Bool :=
  match options with
  | some options => options.includeVote.getD false
  | none => true

def shouldIncludeEmptySlots (options : Option GetPriorityFeeEstimateOptions) : Bool :=
  match options with
  | some options => options.evaluateEmptySlotAsZero.getD true
  | none => false

/-- A request for a recommended fee that passes validation excludes votes. -/
theorem shouldIncludeVote_of_recommended {request : GetPriorityFeeEstimateRequest}
    (hvalid : validateGetPriorityFeeEstimateRequest request = none)
    {options : GetPriorityFeeEstimateOptions} (hoptions : request.options = some options)
    (hrec : options.recommended.isSome = true) :
    shouldIncludeVote request.options = false := by
  rw [validateGetPriorityFeeEstimateRequest, hoptions] at hvalid
  split at hvalid
  · cases hvalid
  · split at hvalid
    · cases hvalid
    · simp only [hrec, Bool.and_true] at hvalid
      split at hvalid
      · cases hvalid
      · next hcustom =>
        have hnone : options.includeVote = none := by
          simp only [GetPriorityFeeEstimateOptions.customControlsSet, Bool.or_eq_true, not_or,
            Option.isSome_iff_ne_none, not_not] at hcustom
          exact hcustom.2
        simp [hoptions, shouldIncludeVote, hnone]

-- ════════════════════════════════════════════════════════════════════════
-- The accounts of a request
-- ════════════════════════════════════════════════════════════════════════

/-- The longest transaction on the wire. -/
def maxTransactionSize : ℕ := 4096

def maxBase58Size : ℕ := maxTransactionSize * 2

def maxBase64Size : ℕ := (maxTransactionSize + 2) / 3 * 4

/-- Decode a transaction; texts and transactions that are too long are refused. -/
def decodeAndDeserialize (crates : Crates) (encoded : String)
    (encoding : TransactionBinaryEncoding) :
    Except ErrorObject (Bytes × VersionedTransaction) := do
  let wireOutput ← match encoding with
    | .base58 =>
      if maxBase58Size < encoded.utf8ByteSize then
        .error (invalidRequest "base58 encoded too large")
      else
        (crates.bs58Decode encoded).mapError fun e =>
          invalidRequest ("invalid base58 encoding: " ++ e)
    | .base64 =>
      if maxBase64Size < encoded.utf8ByteSize then
        .error (invalidRequest "base64 encoded too large")
      else
        (crates.base64Decode encoded).mapError fun e =>
          invalidRequest ("invalid base64 encoding: " ++ e)
  if maxTransactionSize < wireOutput.length then
    .error (invalidRequest "decoded too large")
  else
    let transaction ← (crates.deserialize wireOutput).mapError fun err =>
      invalidRequest ("failed to deserialize: " ++ err)
    .ok (wireOutput, transaction)

namespace TransactionBinaryEncoding

/-- The largest text that is decoded. -/
def maxTextSize : TransactionBinaryEncoding → ℕ
  | base58 => maxBase58Size
  | base64 => maxBase64Size

def tooLarge : TransactionBinaryEncoding → String
  | base58 => "base58 encoded too large"
  | base64 => "base64 encoded too large"

def decode (crates : Crates) : TransactionBinaryEncoding → String → Except String Bytes
  | base58 => crates.bs58Decode
  | base64 => crates.base64Decode

def invalid : TransactionBinaryEncoding → String
  | base58 => "invalid base58 encoding: "
  | base64 => "invalid base64 encoding: "

end TransactionBinaryEncoding

/-- What is done with the bytes of a text. -/
def deserializeWire (crates : Crates) (wireOutput : Bytes) :
    Except ErrorObject (Bytes × VersionedTransaction) :=
  if maxTransactionSize < wireOutput.length then .error (invalidRequest "decoded too large")
  else do
    let transaction ← (crates.deserialize wireOutput).mapError fun err =>
      invalidRequest ("failed to deserialize: " ++ err)
    .ok (wireOutput, transaction)

/-- The two encodings are treated alike. -/
theorem decodeAndDeserialize_eq (crates : Crates) (encoded : String)
    (encoding : TransactionBinaryEncoding) :
    decodeAndDeserialize crates encoded encoding =
      if encoding.maxTextSize < encoded.utf8ByteSize then
        .error (invalidRequest encoding.tooLarge)
      else ((encoding.decode crates encoded).mapError fun e =>
        invalidRequest (encoding.invalid ++ e)) >>= deserializeWire crates := by
  cases encoding with
  | base58 => rfl
  | base64 => rfl

theorem deserializeWire_eq_ok_iff {crates : Crates} {wireOutput wire : Bytes}
    {t : VersionedTransaction} :
    deserializeWire crates wireOutput = .ok (wire, t) ↔
      wireOutput = wire ∧ wire.length ≤ maxTransactionSize ∧ crates.deserialize wire = .ok t := by
  rw [deserializeWire, Except.ite_error_eq_ok_iff]
  simp only [Except.bind_eq_ok_iff, Except.mapError_eq_ok_iff, Except.ok.injEq, Prod.mk.injEq]
  constructor
  · rintro ⟨hsize, t', ht, rfl, rfl⟩
    exact ⟨rfl, hsize, ht⟩
  · rintro ⟨rfl, hsize, ht⟩
    exact ⟨hsize, t, ht, rfl, rfl⟩

/-- A transaction comes out exactly when the text passes the first gate, its bytes
    pass the second, and they are those of the transaction. -/
theorem decodeAndDeserialize_eq_ok_iff {crates : Crates} {encoded : String}
    {encoding : TransactionBinaryEncoding} {wire : Bytes} {t : VersionedTransaction} :
    decodeAndDeserialize crates encoded encoding = .ok (wire, t) ↔
      encoded.utf8ByteSize ≤ encoding.maxTextSize ∧
        encoding.decode crates encoded = .ok wire ∧ wire.length ≤ maxTransactionSize ∧
        crates.deserialize wire = .ok t := by
  rw [decodeAndDeserialize_eq, Except.ite_error_eq_ok_iff]
  simp only [Except.bind_eq_ok_iff, Except.mapError_eq_ok_iff, deserializeWire_eq_ok_iff]
  constructor
  · rintro ⟨hsize, wireOutput, hdecode, rfl, hwire⟩
    exact ⟨hsize, hdecode, hwire⟩
  · rintro ⟨hsize, hdecode, hwire⟩
    exact ⟨hsize, wire, hdecode, rfl, hwire⟩

/-- The header of a message in the form of the update stream. -/
def MessageHeader.toProto (header : MessageHeader) : Proto.MessageHeader where
  numRequiredSignatures := header.numRequiredSignatures.toUInt32
  numReadonlySignedAccounts := header.numReadonlySignedAccounts.toUInt32
  numReadonlyUnsignedAccounts := header.numReadonlyUnsignedAccounts.toUInt32

/-- The static keys of a transaction that it writes. -/
def getFromAccountKeys (crates : Crates) (transaction : VersionedTransaction) : List String :=
  let keys := transaction.message.staticAccountKeys.map crates.display
  constructWritableAccounts keys (some transaction.message.header.toProto)

/-- The addresses of a table whose position, as a byte, is one of the indices. -/
def selectAddresses (addresses : List String) (indices : Finset UInt8) : List String :=
  (addresses.zipIdx.filter fun data => UInt8.ofNat data.2 ∈ indices).map Prod.fst

/-- One account of the answer of the node: the addresses it adds, given the key
    it was asked for under and the indices wanted of each table. -/
def addressesOfAccount (crates : Crates) (lookupTableIndices : Table String (Finset UInt8))
    (accountPubkey : Pubkey) (account : Option Bytes) : List String :=
  match account with
  | none => []
  | some data =>
    match lookupTableIndices.lookup (crates.display accountPubkey) with
    | none => []
    | some indices =>
      match crates.parseAddressLookupTable data with
      | .ok (.lookupTable addresses) => selectAddresses addresses indices
      | .ok .uninitialized => []
      | .error _ => []

/-- The addresses of the lookup tables of a transaction, as far as the node
    returns the tables. The indices of a table are those it selects for reading
    and those it selects for writing. -/
def getFromAddressLookupTables (crates : Crates) (rpcClient : RpcClient)
    (transaction : VersionedTransaction) : List String :=
  match transaction.message.addressTableLookups with
  | none => []
  | some addressTableLookups =>
    let lookupTableIndices := addressTableLookups.foldl
      (fun (lookupTableIndices : Table String (Finset UInt8)) a => lookupTableIndices.insert
        (crates.display a.accountKey) (a.readonlyIndexes ++ a.writableIndexes).toFinset) ∅
    let addressTableLookupAccounts := addressTableLookups.map fun a => a.accountKey
    match rpcClient.getMultipleAccounts addressTableLookupAccounts with
    | .ok accounts =>
      -- the key of an account is the one at its index, which is in bounds
      (addressTableLookupAccounts.zip accounts).flatMap fun account =>
        addressesOfAccount crates lookupTableIndices account.1 account.2
    | .error _ => []

/-- The accounts a request asks about, as texts. -/
def getAccounts (crates : Crates) (rpcClient : Option RpcClient)
    (request : GetPriorityFeeEstimateRequest) : Except ErrorObject (List String) :=
  match request.accountKeys with
  | some accountKeys => .ok accountKeys
  | none =>
    match rpcClient, request.transaction with
    | some rpcClient, some transaction => do
      let txEncoding := (request.options.bind fun o => o.transactionEncoding).getD .base58
      let binaryEncoding ← match txEncoding.intoBinaryEncoding with
        | some binaryEncoding => .ok binaryEncoding
        | none => .error (invalidRequest <| "unsupported encoding: " ++ txEncoding.toText ++
            ". Supported encodings: base58, base64")
      let (_, transaction) ← decodeAndDeserialize crates transaction binaryEncoding
      .ok (getFromAccountKeys crates transaction ++
        getFromAddressLookupTables crates rpcClient transaction)
    | _, _ => .ok []

/-- The accounts that are priced: the texts that are keys. -/
def pricedAccounts (crates : Crates) (accounts : List String) : List Pubkey :=
  accounts.filterMap crates.fromStr

-- ════════════════════════════════════════════════════════════════════════
-- The answer
-- ════════════════════════════════════════════════════════════════════════

structure AtlasPriorityFeeEstimator where
  priorityFeeTracker : PriorityFeeTracker
  rpcClient : Option RpcClient
  maxLookbackSlots : ℕ

def minRecommendedPriorityFee : ℚ := 10000

/-- `f64::ceil`. -/
def F64.ceil (x : F64) : F64 := x.map fun q => (⌈q⌉ : ℚ)

/-- The medium level, but not below the minimum, rounded up. -/
def getRecommendedFee (priorityFeeLevels : MicroLamportPriorityFeeEstimates) : F64 :=
  let recommended :=
    if (minRecommendedPriorityFee : F64) < priorityFeeLevels.medium then priorityFeeLevels.medium
    else (minRecommendedPriorityFee : F64)
  F64.ceil recommended

/-- From the last name to the first. -/
def sortByName {α : Type*} (entries : List (String × α)) : List (String × α) :=
  entries.mergeSort fun a b => decide (b.1 ≤ a.1)

/-- The orders in which one request traverses the store and the samples: with
    details, the clone and the samples themselves; without, the samples. -/
structure Traversals where
  slots : IterOrder Slot
  cloned : IterOrder Group
  groups : IterOrder Group

/-- The response for the levels and details found. -/
def respond (options : Option GetPriorityFeeEstimateOptions)
    (levels : MicroLamportPriorityFeeEstimates)
    (details : Option (List (String × MicroLamportPriorityFeeDetails))) :
    GetPriorityFeeEstimateResponse :=
  let priorityFee :=
    if (options.bind fun o => o.recommended).getD false then getRecommendedFee levels
    else levels.medium
  match options with
  | none => ⟨some priorityFee, none, details⟩
  | some options =>
    if options.includeAllPriorityFeeLevels = some true then ⟨none, some levels, details⟩
    else
      match options.priorityLevel with
      | some priorityLevel => ⟨some (levels.level priorityLevel), none, details⟩
      | none => ⟨some priorityFee, none, details⟩

def executePriorityFeeEstimateCoordinator (S : Statrs) (crates : Crates) (orders : Traversals)
    (server : AtlasPriorityFeeEstimator) (request : GetPriorityFeeEstimateRequest)
    (isV1 : Bool) : Except ErrorObject GetPriorityFeeEstimateResponse :=
  let options := request.options
  let includeDetails := (options.bind fun o => o.includeDetails).getD false
  match validateGetPriorityFeeEstimateRequest request with
  | some reason => .error reason
  | none => do
    let accounts ← getAccounts crates server.rpcClient request
    let accounts := pricedAccounts crates accounts
    let lookbackSlots := options.bind fun o => o.lookbackSlots
    if lookbackSlots.any fun lookbackSlots =>
        lookbackSlots < 1 || server.maxLookbackSlots < lookbackSlots.toNat then
      .error (invalidRequest "lookback_slots must be between 1 and 150")
    else
      let includeVote := shouldIncludeVote options
      let includeEmptySlots := shouldIncludeEmptySlots options
      let calculation : Calculations :=
        if isV1 then .calculation1 accounts includeVote includeEmptySlots lookbackSlots
        else .calculation2 accounts includeVote includeEmptySlots lookbackSlots
      let store := server.priorityFeeTracker.priorityFees
      if includeDetails then
        let (fee, details) := calculatePriorityFeeDetails S crates.display orders.slots
          orders.cloned orders.groups calculation store
        let fees := details.entries.map fun e => (e.1, e.2)
        .ok (respond options fee (some (sortByName fees)))
      else
        .ok (respond options (calculatePriorityFee S orders.slots orders.groups calculation store) none)

def getPriorityFeeEstimateV1 (S : Statrs) (crates : Crates) (orders : Traversals)
    (server : AtlasPriorityFeeEstimator) (request : GetPriorityFeeEstimateRequest) :
    Except ErrorObject GetPriorityFeeEstimateResponse :=
  executePriorityFeeEstimateCoordinator S crates orders server request true

def getPriorityFeeEstimateV2 (S : Statrs) (crates : Crates) (orders : Traversals)
    (server : AtlasPriorityFeeEstimator) (request : GetPriorityFeeEstimateRequest) :
    Except ErrorObject GetPriorityFeeEstimateResponse :=
  executePriorityFeeEstimateCoordinator S crates orders server request false

end PriorityFeeEstimator
