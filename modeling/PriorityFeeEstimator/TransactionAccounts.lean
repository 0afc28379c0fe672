import Mathlib
import PriorityFeeEstimator.LookupTables
import PriorityFeeEstimator.SizeGates

/-!
# The accounts of a transaction, recorded and priced

A transaction that lands is recorded under the static keys it writes and the
addresses it loads for writing. A request for an estimate of the same
transaction is priced on the static keys it writes and on the addresses its
lookup tables select, for writing or for reading. So the two agree exactly when
every address loaded for reading is written as well.
-/

namespace PriorityFeeEstimator

-- ════════════════════════════════════════════════════════════════════════
-- What a transaction reads and writes
-- ════════════════════════════════════════════════════════════════════════

/-- The addresses that one kind of index selects from the lookup tables. -/
def selectedAddresses (tables : Pubkey → List Pubkey) (lookups : List MessageAddressTableLookup)
    (indexes : MessageAddressTableLookup → List UInt8) : List Pubkey :=
  lookups.flatMap fun a => (indexes a).filterMap fun i => (tables a.accountKey)[i.toNat]?

namespace VersionedTransaction

def lookups (t : VersionedTransaction) : List MessageAddressTableLookup :=
  t.message.addressTableLookups.getD []

/-- The addresses loaded for writing. -/
def loadedWritable (tables : Pubkey → List Pubkey) (t : VersionedTransaction) : List Pubkey :=
  selectedAddresses tables t.lookups (·.writableIndexes)

/-- The addresses loaded for reading. -/
def loadedReadonly (tables : Pubkey → List Pubkey) (t : VersionedTransaction) : List Pubkey :=
  selectedAddresses tables t.lookups (·.readonlyIndexes)

/-- The static keys written. -/
def staticWritable (t : VersionedTransaction) : List Pubkey :=
  constructWritableAccounts t.message.staticAccountKeys (some t.message.header.toProto)

/-- Every account written. -/
def written (tables : Pubkey → List Pubkey) (t : VersionedTransaction) : List Pubkey :=
  t.staticWritable ++ t.loadedWritable tables

/-- An account of the transaction that it does not write. -/
def OnlyReads (tables : Pubkey → List Pubkey) (t : VersionedTransaction) (k : Pubkey) : Prop :=
  (k ∈ t.message.staticAccountKeys ∨ k ∈ t.loadedReadonly tables) ∧ k ∉ t.written tables

end VersionedTransaction

-- ════════════════════════════════════════════════════════════════════════
-- Recorded
-- ════════════════════════════════════════════════════════════════════════

/-- The configuration of a message, for version 1 messages. -/
def VersionedMessage.config : VersionedMessage → Option Proto.TransactionConfig
  | .v1 _ _ _ config => some config
  | _ => none

/-- The message of a transaction, as the update stream shows it. -/
def VersionedMessage.toProto (m : VersionedMessage) : Proto.Message where
  header := some m.header.toProto
  accountKeys := m.staticAccountKeys.map Pubkey.bytes
  instructions := m.instructions.map fun ix =>
    { programIdIndex := ix.programIdIndex.toUInt32, accounts := ix.accounts, data := ix.data }
  config := m.config

/-- A transaction that landed: its message, no error, and the addresses it
    loaded for writing. -/
def landed (tables : Pubkey → List Pubkey) (t : VersionedTransaction) (isVote : Bool) :
    Proto.SubscribeUpdateTransactionInfo where
  isVote := isVote
  transaction := some { message := some t.message.toProto }
  statusMeta := some
    { err := none, loadedWritableAddresses := (t.loadedWritable tables).map Pubkey.bytes }

/-- A transaction that landed is recorded under the accounts it writes. -/
theorem accounts_recordedTxn_landed {process : ComputeBudgetProcessor}
    {tables : Pubkey → List Pubkey} {t : VersionedTransaction} {isVote : Bool} {x : Txn}
    (h : recordedTxn process (landed tables t isVote) = some x) :
    x.accounts = t.written tables := by
  have hloaded : ((t.loadedWritable tables).map Pubkey.bytes).filterMap Pubkey.tryFrom =
      t.loadedWritable tables := by
    rw [List.filterMap_map]
    exact (List.filterMap_congr fun k _ => Pubkey.tryFrom_bytes k).trans List.filterMap_some
  have hmeta : extractFromMeta (landed tables t isVote).statusMeta =
      .ok (t.loadedWritable tables) := by
    rw [← hloaded]
    rfl
  rw [recordedTxn_eq process hmeta rfl rfl rfl] at h
  obtain ⟨rate, -, rfl⟩ := Option.map_eq_some_iff.mp h
  rfl

-- ════════════════════════════════════════════════════════════════════════
-- Priced
-- ════════════════════════════════════════════════════════════════════════

/-- The request asks for an estimate for the transaction. -/
structure Carries (crates : Crates) (request : GetPriorityFeeEstimateRequest)
    (t : VersionedTransaction) : Prop where
  accountKeys : request.accountKeys = none
  transaction : ∃ text encoding wire, request.transaction = some text ∧
    ((request.options.bind fun o => o.transactionEncoding).getD .base58).intoBinaryEncoding =
      some encoding ∧
    decodeAndDeserialize crates text encoding = .ok (wire, t)

/-- The lookup tables of the transaction are distinct, the node returns all of
    them, each has at most 256 addresses, and every index is in range. -/
structure TablesReturned (crates : Crates) (client : RpcClient) (tables : Pubkey → List Pubkey)
    (lookups : List MessageAddressTableLookup) : Prop where
  distinct : (lookups.map (·.accountKey)).Nodup
  returned : ∃ data : Pubkey → Bytes,
    client.getMultipleAccounts (lookups.map (·.accountKey)) =
      .ok (lookups.map fun a => some (data a.accountKey)) ∧
    ∀ a ∈ lookups, crates.parseAddressLookupTable (data a.accountKey) =
      .ok (.lookupTable ((tables a.accountKey).map crates.display))
  size : ∀ a ∈ lookups, (tables a.accountKey).length ≤ 256
  inRange : ∀ a ∈ lookups, ∀ i ∈ a.readonlyIndexes ++ a.writableIndexes,
    i.toNat < (tables a.accountKey).length

/-- Returned tables are answers. -/
theorem TablesReturned.answered {crates : Crates} {client : RpcClient}
    {tables : Pubkey → List Pubkey} {lookups : List MessageAddressTableLookup}
    (h : TablesReturned crates client tables lookups) :
    Answered crates client lookups
      (lookups.map fun a => some ((tables a.accountKey).map crates.display)) where
  data := by
    obtain ⟨data, hclient, hparse⟩ := h.returned
    refine ⟨_, hclient, ?_⟩
    rw [List.forall₂_map_left_iff, List.forall₂_map_right_iff, List.forall₂_same]
    intro a ha
    exact .some (hparse a ha)
  length_eq := List.length_map _
  size := by
    intro addresses hmem
    obtain ⟨a, ha, he⟩ := List.mem_map.mp hmem
    rw [← Option.some.inj he, List.length_map]
    exact h.size a ha

/-- The addresses collected from the tables are those that either kind of index
    selects. -/
theorem mem_getFromAddressLookupTables_iff {crates : Crates}
    (hinj : Function.Injective crates.display) {client : RpcClient}
    {tables : Pubkey → List Pubkey} {t : VersionedTransaction}
    (h : ∀ lookups, t.message.addressTableLookups = some lookups →
      TablesReturned crates client tables lookups) (text : String) :
    text ∈ getFromAddressLookupTables crates client t ↔
      ∃ k, (k ∈ t.loadedReadonly tables ∨ k ∈ t.loadedWritable tables) ∧
        crates.display k = text := by
  cases hl : t.message.addressTableLookups with
  | none =>
    simp [getFromAddressLookupTables, hl, VersionedTransaction.loadedReadonly,
      VersionedTransaction.loadedWritable, VersionedTransaction.lookups, selectedAddresses]
  | some lookups =>
    have hreturned := h lookups hl
    have hlookups : t.lookups = lookups := by rw [VersionedTransaction.lookups, hl]; rfl
    rw [mem_getFromAddressLookupTables_iff_resolved hinj hl hreturned.answered,
      resolved_map_iff hreturned.distinct]
    simp only [VersionedTransaction.loadedReadonly, VersionedTransaction.loadedWritable, hlookups,
      selectedAddresses, List.mem_flatMap, List.mem_filterMap, List.mem_append,
      List.getElem?_map, Option.map_eq_some_iff]
    constructor
    · rintro ⟨a, ha, i, hi | hi, k, hk, rfl⟩
      · exact ⟨k, .inl ⟨a, ha, i, hi, hk⟩, rfl⟩
      · exact ⟨k, .inr ⟨a, ha, i, hi, hk⟩, rfl⟩
    · rintro ⟨k, ⟨a, ha, i, hi, hk⟩ | ⟨a, ha, i, hi, hk⟩, rfl⟩
      · exact ⟨a, ha, i, .inl hi, k, hk, rfl⟩
      · exact ⟨a, ha, i, .inr hi, k, hk, rfl⟩

/-- A request for an estimate of a transaction is priced on the static keys the
    transaction writes and on the addresses its lookup tables select, for
    reading or for writing. -/
theorem mem_pricedAccounts_iff {crates : Crates}
    (hread : ∀ k, crates.fromStr (crates.display k) = some k) {client : RpcClient}
    {tables : Pubkey → List Pubkey} {t : VersionedTransaction}
    {request : GetPriorityFeeEstimateRequest} (hcarries : Carries crates request t)
    (h : ∀ lookups, t.message.addressTableLookups = some lookups →
      TablesReturned crates client tables lookups) :
    ∃ accounts, getAccounts crates (some client) request = .ok accounts ∧
      ∀ k, k ∈ pricedAccounts crates accounts ↔
        k ∈ t.written tables ∨ k ∈ t.loadedReadonly tables := by
  obtain ⟨hkeys, text, encoding, wire, htext, hencoding, hdecode⟩ := hcarries
  have hinj : Function.Injective crates.display := by
    intro k k' he
    have hk := congrArg crates.fromStr he
    rw [hread, hread] at hk
    exact Option.some.inj hk
  refine ⟨getFromAccountKeys crates t ++ getFromAddressLookupTables crates client t, ?_,
    fun k => ?_⟩
  · simp only [getAccounts, hkeys, htext, hencoding]
    change (decodeAndDeserialize crates text encoding >>= _) = _
    rw [hdecode]
    rfl
  · have hstatic : getFromAccountKeys crates t = t.staticWritable.map crates.display :=
      constructWritableAccounts_map crates.display t.message.staticAccountKeys
        (some t.message.header.toProto)
    simp only [pricedAccounts, List.mem_filterMap, List.mem_append, hstatic, List.mem_map,
      mem_getFromAddressLookupTables_iff hinj h, VersionedTransaction.written]
    constructor
    · rintro ⟨_, ⟨k', hk', rfl⟩ | ⟨k', hk' | hk', rfl⟩, hk⟩ <;>
        obtain rfl := Option.some.inj ((hread k').symm.trans hk)
      · exact .inl (.inl hk')
      · exact .inr hk'
      · exact .inl (.inr hk')
    · rintro ((hk | hk) | hk)
      · exact ⟨_, .inl ⟨k, hk, rfl⟩, hread k⟩
      · exact ⟨_, .inr ⟨k, .inr hk, rfl⟩, hread k⟩
      · exact ⟨_, .inr ⟨k, .inl hk, rfl⟩, hread k⟩

/-- For a transaction whose lookup tables the node returns: the accounts an
    estimate is priced on are the accounts the transaction is recorded under,
    and none that it only reads, exactly when every address it loads for reading
    is written as well. -/
theorem priced_iff_recorded {crates : Crates}
    (hread : ∀ k, crates.fromStr (crates.display k) = some k) {client : RpcClient}
    {tables : Pubkey → List Pubkey} {t : VersionedTransaction}
    {request : GetPriorityFeeEstimateRequest} (hcarries : Carries crates request t)
    (h : ∀ lookups, t.message.addressTableLookups = some lookups →
      TablesReturned crates client tables lookups) :
    (∀ process isVote x, recordedTxn process (landed tables t isVote) = some x →
      x.accounts = t.written tables) ∧
    ∃ accounts, getAccounts crates (some client) request = .ok accounts ∧
      ((∀ k, k ∈ pricedAccounts crates accounts ↔ k ∈ t.written tables) ∧
          (∀ k, t.OnlyReads tables k → k ∉ pricedAccounts crates accounts) ↔
        ∀ k ∈ t.loadedReadonly tables, k ∈ t.written tables) := by
  obtain ⟨accounts, haccounts, hpriced⟩ := mem_pricedAccounts_iff hread hcarries h
  refine ⟨fun process isVote x hx => accounts_recordedTxn_landed hx, accounts, haccounts, ?_⟩
  simp only [hpriced]
  constructor
  · rintro ⟨hsame, -⟩ k hk
    exact (hsame k).mp (.inr hk)
  · intro hwritten
    refine ⟨fun k => ⟨fun hk => hk.elim id (hwritten k), .inl⟩, ?_⟩
    rintro k ⟨-, hnot⟩ hk
    exact hnot (hk.elim id (hwritten k))

-- ════════════════════════════════════════════════════════════════════════
-- Two transactions
-- ════════════════════════════════════════════════════════════════════════

/-- A transaction that writes its payer, reads a program, and selects addresses
    of the table. -/
def tableTransaction (writableIndexes readonlyIndexes : List UInt8) : VersionedTransaction where
  message := .v0 ⟨1, 0, 1⟩ [payerKey, programKey] []
    [⟨tableKey, writableIndexes, readonlyIndexes⟩]

/-- Its wire format: one empty signature, version, header, static keys, an empty
    blockhash, no instruction, one lookup. -/
def tableTransactionWire (writableIndexes readonlyIndexes : List UInt8) : Bytes :=
  1 :: List.replicate 64 0 ++ [0x80, 1, 0, 1, 2] ++ payerKey.bytes ++ programKey.bytes ++
    List.replicate 32 0 ++ [0, 1] ++ tableKey.bytes ++
    (UInt8.ofNat writableIndexes.length :: writableIndexes) ++
    (UInt8.ofNat readonlyIndexes.length :: readonlyIndexes)

/-- The other crates, on these bytes. -/
def tableCrates : Crates :=
  { tableReader with
    deserialize := fun wire =>
      if wire = tableTransactionWire [0] [1] then .ok (tableTransaction [0] [1])
      else if wire = tableTransactionWire [1] [] then .ok (tableTransaction [1] [])
      else .error "invalid transaction" }

/-- The transaction that writes address 0 of the table and reads address 1, in
    base64. -/
def readingText : String := base64Encode (tableTransactionWire [0] [1])

/-- The transaction that writes address 1 of the table, in base64. -/
def writingText : String := base64Encode (tableTransactionWire [1] [])

/-- A request for an estimate of a transaction in base64. -/
def base64Request (text : String) : GetPriorityFeeEstimateRequest where
  transaction := some text
  accountKeys := none
  options := some ⟨some .base64, none, none, none, none, none, none, none⟩

theorem tablesReturned_tableClient {writableIndexes readonlyIndexes : List UInt8}
    (hw : ∀ i ∈ readonlyIndexes ++ writableIndexes, i.toNat < 2) :
    ∀ lookups, (tableTransaction writableIndexes readonlyIndexes).message.addressTableLookups =
        some lookups →
      TablesReturned tableCrates tableClient (fun _ => tableAddresses) lookups := by
  intro lookups hl
  obtain rfl := Option.some.inj hl
  refine ⟨List.nodup_singleton _, ⟨fun _ => tableData, rfl, fun a _ => ?_⟩, ?_, ?_⟩
  · simp only [tableCrates, tableReader, Crates.keysOnly, if_true]
  · intro a _
    change 2 ≤ 256
    omega
  · intro a ha
    obtain rfl := List.mem_singleton.mp ha
    exact hw

/-- The request with the text of the bytes of a transaction asks about it. -/
theorem carries_base64Encode {w : Bytes} {t : VersionedTransaction}
    (ht : tableCrates.deserialize w = .ok t) (hw : w.length ≤ maxTransactionSize) :
    Carries tableCrates (base64Request (base64Encode w)) t := by
  have hstandard : tableCrates.StandardEncodings := standardEncodings_keysOnly
  exact ⟨rfl, base64Encode w, .base64, w, rfl, rfl,
    decodeAndDeserialize_encode hstandard .base64 ht hw⟩

theorem carries_readingText :
    Carries tableCrates (base64Request readingText) (tableTransaction [0] [1]) := by
  have ht : tableCrates.deserialize (tableTransactionWire [0] [1]) =
      .ok (tableTransaction [0] [1]) := by
    simp only [tableCrates, if_true]
  exact carries_base64Encode ht (by decide +kernel)

theorem carries_writingText :
    Carries tableCrates (base64Request writingText) (tableTransaction [1] []) := by
  have hwire : tableTransactionWire [1] [] ≠ tableTransactionWire [0] [1] := by decide +kernel
  have ht : tableCrates.deserialize (tableTransactionWire [1] []) =
      .ok (tableTransaction [1] []) := by
    simp only [tableCrates, if_neg hwire, if_true]
  exact carries_base64Encode ht (by decide +kernel)

/-- A transaction that only writes its lookup: it is priced on what it is
    recorded under. -/
theorem priced_iff_recorded_writing : ∃ accounts,
    getAccounts tableCrates (some tableClient) (base64Request writingText) = .ok accounts ∧
      ∀ k, k ∈ pricedAccounts tableCrates accounts ↔
        k ∈ (tableTransaction [1] []).written fun _ => tableAddresses := by
  obtain ⟨-, accounts, haccounts, hiff⟩ := priced_iff_recorded Pubkey.ofBase58_toBase58
    carries_writingText (tablesReturned_tableClient (by decide +kernel))
  exact ⟨accounts, haccounts, (hiff.mpr (by decide +kernel)).1⟩

/-- Address 1 of the table is only read, and yet priced. -/
theorem priced_iff_recorded_reading :
    let t := tableTransaction [0] [1]
    let tables := fun _ => tableAddresses
    Carries tableCrates (base64Request readingText) t ∧
    (∀ lookups, t.message.addressTableLookups = some lookups →
      TablesReturned tableCrates tableClient tables lookups) ∧
    ∃ accounts, getAccounts tableCrates (some tableClient) (base64Request readingText) =
        .ok accounts ∧
      ∃ k, t.OnlyReads tables k ∧ k ∉ t.written tables ∧ k ∈ pricedAccounts tableCrates accounts := by
  have htables := @tablesReturned_tableClient [0] [1] (by decide +kernel)
  obtain ⟨accounts, haccounts, hpriced⟩ := mem_pricedAccounts_iff Pubkey.ofBase58_toBase58
    carries_readingText htables
  refine ⟨carries_readingText, htables, accounts, haccounts, .filled 4, ?_, ?_, ?_⟩
  · exact ⟨.inr (by decide +kernel), by decide +kernel⟩
  · decide +kernel
  · exact (hpriced _).mpr (.inr (by decide +kernel))

end PriorityFeeEstimator
