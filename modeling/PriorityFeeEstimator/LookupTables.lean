import Mathlib
import PriorityFeeEstimator.Rpc

/-!
# Lookup tables named more than once

The indices a transaction wants of a lookup table are kept in a map under the
key of the table, while the tables themselves come back one for each lookup, in
the order of the lookups. Where two lookups name the same table the map keeps
the indices of the later one, and both answers are read with these. Nothing is
invented that way; an address that only the earlier lookup selects is lost.
-/

namespace PriorityFeeEstimator

/-- An address of a table of at most 256 is selected when its position is one of
    the indices. -/
theorem mem_selectAddresses_iff {addresses : List String} (hsize : addresses.length ≤ 256)
    (indices : Finset UInt8) (text : String) :
    text ∈ selectAddresses addresses indices ↔
      ∃ i ∈ indices, addresses[i.toNat]? = some text := by
  simp only [selectAddresses, List.mem_map, List.mem_filter, Prod.exists,
    List.mem_zipIdx_iff_getElem?, decide_eq_true_eq]
  constructor
  · rintro ⟨_, j, ⟨hj, hi⟩, rfl⟩
    have hlt : j < addresses.length := (List.getElem?_eq_some_iff.mp hj).1
    refine ⟨UInt8.ofNat j, hi, ?_⟩
    rwa [UInt8.toNat_ofNat', Nat.mod_eq_of_lt (by omega)]
  · rintro ⟨i, hi, hlookup⟩
    exact ⟨text, i.toNat, ⟨hlookup, by rwa [UInt8.ofNat_toNat]⟩, rfl⟩

/-- The node answers each lookup, in order, with a table of at most 256 addresses
    or with nothing. -/
structure Answered (crates : Crates) (client : RpcClient)
    (lookups : List MessageAddressTableLookup) (answers : List (Option (List String))) : Prop where
  data : ∃ data, client.getMultipleAccounts (lookups.map (·.accountKey)) = .ok data ∧
    List.Forall₂ (Option.Rel fun bytes addresses =>
      crates.parseAddressLookupTable bytes = .ok (.lookupTable addresses)) data answers
  length_eq : answers.length = lookups.length
  size : ∀ addresses, some addresses ∈ answers → addresses.length ≤ 256

/-- The last lookup that names a table. -/
def lastLookup (lookups : List MessageAddressTableLookup) (key : Pubkey) :
    Option MessageAddressTableLookup :=
  lookups.reverse.find? fun a => a.accountKey = key

/-- An address is selected, for reading or for writing, by the last lookup that
    names a table, in an answer to a lookup that names it. -/
def Resolved (lookups : List MessageAddressTableLookup) (answers : List (Option (List String)))
    (text : String) : Prop :=
  ∃ a addresses, (a, some addresses) ∈ lookups.zip answers ∧
    ∃ last, lastLookup lookups a.accountKey = some last ∧
      ∃ i ∈ last.readonlyIndexes ++ last.writableIndexes, addresses[i.toNat]? = some text

theorem lastLookup_spec {lookups : List MessageAddressTableLookup} {key : Pubkey}
    {last : MessageAddressTableLookup} (h : lastLookup lookups key = some last) :
    last ∈ lookups ∧ last.accountKey = key := by
  unfold lastLookup at h
  exact ⟨List.mem_reverse.mp (List.mem_of_find?_eq_some h), by simpa using List.find?_some h⟩

/-- In a list without repeated tables a lookup is the last of its table. -/
theorem lastLookup_of_nodup {lookups : List MessageAddressTableLookup}
    (h : (lookups.map (·.accountKey)).Nodup) {a : MessageAddressTableLookup} (ha : a ∈ lookups) :
    lastLookup lookups a.accountKey = some a := by
  cases hlast : lastLookup lookups a.accountKey with
  | none =>
    unfold lastLookup at hlast
    have hnone := List.find?_eq_none.mp hlast a (List.mem_reverse.mpr ha)
    simp at hnone
  | some last =>
    obtain ⟨hmem, hkey⟩ := lastLookup_spec hlast
    exact congrArg some (List.inj_on_of_nodup_map h hmem ha hkey)

/-- The indices kept for a table are those of its last lookup. -/
theorem lookup_lastLookup {display : Pubkey → String} (hinj : Function.Injective display)
    (lookups : List MessageAddressTableLookup) (key : Pubkey) :
    (lookups.foldl (fun (indices : Table String (Finset UInt8)) a => indices.insert
        (display a.accountKey) (a.readonlyIndexes ++ a.writableIndexes).toFinset) ∅).lookup
        (display key) =
      (lastLookup lookups key).map fun a => (a.readonlyIndexes ++ a.writableIndexes).toFinset := by
  rw [Table.lookup_foldl_insert]
  simp only [hinj.eq_iff]
  rfl

/-- What an answer adds, given the indices kept. -/
def addressesOfAnswer (indices : Option (Finset UInt8)) (answer : Option (List String)) :
    List String :=
  match answer, indices with
  | some addresses, some indices => selectAddresses addresses indices
  | _, _ => []

/-- The accounts the node returns are read answer by answer. -/
theorem flatMap_addressesOfAccount (crates : Crates) (indices : Table String (Finset UInt8))
    {data : List (Option Bytes)} {answers : List (Option (List String))}
    (h : List.Forall₂ (Option.Rel fun bytes addresses =>
      crates.parseAddressLookupTable bytes = .ok (.lookupTable addresses)) data answers)
    (lookups : List MessageAddressTableLookup) :
    ((lookups.map (·.accountKey)).zip data).flatMap
        (fun account => addressesOfAccount crates indices account.1 account.2) =
      (lookups.zip answers).flatMap fun p =>
        addressesOfAnswer (indices.lookup (crates.display p.1.accountKey)) p.2 := by
  induction h generalizing lookups with
  | nil => simp
  | @cons d answer data answers hd _ ih =>
    cases lookups with
    | nil => rfl
    | cons a lookups =>
      rw [List.map_cons, List.zip_cons_cons, List.zip_cons_cons, List.flatMap_cons,
        List.flatMap_cons, ih]
      congr 1
      cases hd with
      | none => rfl
      | some hparse =>
        unfold addressesOfAccount addressesOfAnswer
        cases indices.lookup (crates.display a.accountKey) with
        | none => rfl
        | some kept => simp only [hparse]

section Resolved

variable {crates : Crates} {client : RpcClient} {t : VersionedTransaction}
  {lookups : List MessageAddressTableLookup} {answers : List (Option (List String))}

/-- The addresses collected are those that the indices kept select. -/
theorem mem_getFromAddressLookupTables_iff_resolved (hinj : Function.Injective crates.display)
    (ht : t.message.addressTableLookups = some lookups)
    (h : Answered crates client lookups answers) (text : String) :
    text ∈ getFromAddressLookupTables crates client t ↔ Resolved lookups answers text := by
  obtain ⟨data, hclient, hparse⟩ := h.data
  simp only [getFromAddressLookupTables, ht, hclient]
  rw [flatMap_addressesOfAccount crates _ hparse, List.mem_flatMap]
  simp only [lookup_lastLookup hinj]
  constructor
  · rintro ⟨⟨a, answer⟩, hp, htext⟩
    cases answer with
    | none => cases htext
    | some addresses =>
      cases hlast : lastLookup lookups a.accountKey with
      | none =>
        rw [hlast] at htext
        cases htext
      | some last =>
        rw [hlast] at htext
        have hsize := h.size addresses (List.of_mem_zip hp).2
        obtain ⟨i, hi, hget⟩ := (mem_selectAddresses_iff hsize _ text).mp htext
        exact ⟨a, addresses, hp, last, hlast, i, List.mem_toFinset.mp hi, hget⟩
  · rintro ⟨a, addresses, hp, last, hlast, i, hi, hget⟩
    refine ⟨(a, some addresses), hp, ?_⟩
    have hsize := h.size addresses (List.of_mem_zip hp).2
    rw [hlast]
    exact (mem_selectAddresses_iff hsize _ text).mpr ⟨i, List.mem_toFinset.mpr hi, hget⟩

/-- Every address collected is selected by a lookup of its table. -/
theorem selected_of_resolved {text : String} (h : Resolved lookups answers text) :
    ∃ a addresses, (a, some addresses) ∈ lookups.zip answers ∧
      ∃ b ∈ lookups, b.accountKey = a.accountKey ∧
        ∃ i ∈ b.readonlyIndexes ++ b.writableIndexes, addresses[i.toNat]? = some text := by
  obtain ⟨a, addresses, hp, last, hlast, hselected⟩ := h
  obtain ⟨hmem, hkey⟩ := lastLookup_spec hlast
  exact ⟨a, addresses, hp, last, hmem, hkey, hselected⟩

/-- Without repeated tables every address selected is resolved. -/
theorem resolved_of_nodup (hnodup : (lookups.map (·.accountKey)).Nodup)
    {a : MessageAddressTableLookup} {addresses : List String}
    (hp : (a, some addresses) ∈ lookups.zip answers) {i : UInt8} (hi : i ∈ a.writableIndexes)
    {text : String} (hget : addresses[i.toNat]? = some text) : Resolved lookups answers text :=
  ⟨a, addresses, hp, a, lastLookup_of_nodup hnodup (List.of_mem_zip hp).1, i,
    List.mem_append_right _ hi, hget⟩

/-- When every lookup is answered and no table is repeated, what is resolved is
    what the lookups select. -/
theorem resolved_map_iff (hnodup : (lookups.map (·.accountKey)).Nodup)
    {addresses : MessageAddressTableLookup → List String} {text : String} :
    Resolved lookups (lookups.map fun a => some (addresses a)) text ↔
      ∃ a ∈ lookups, ∃ i ∈ a.readonlyIndexes ++ a.writableIndexes,
        (addresses a)[i.toNat]? = some text := by
  rw [Resolved, ← List.map_prod_left_eq_zip]
  simp only [List.mem_map, Prod.mk.injEq, Option.some.injEq]
  constructor
  · rintro ⟨_, _, ⟨a, ha, rfl, rfl⟩, last, hlast, hselected⟩
    rw [lastLookup_of_nodup hnodup ha, Option.some.injEq] at hlast
    exact ⟨a, ha, hlast ▸ hselected⟩
  · rintro ⟨a, ha, hselected⟩
    exact ⟨a, addresses a, ⟨a, ha, rfl, rfl⟩, a, lastLookup_of_nodup hnodup ha, hselected⟩

/-- The addresses collected contain every address that a lookup with an answer
    selects for writing, and no address that is not selected by a lookup of its
    table, exactly when each address selected for writing is selected, in some
    answer, by the last lookup of the table. -/
theorem lookup_tables_resolved_iff (hinj : Function.Injective crates.display)
    (ht : t.message.addressTableLookups = some lookups)
    (h : Answered crates client lookups answers) :
    let result := getFromAddressLookupTables crates client t
    ((∀ a addresses, (a, some addresses) ∈ lookups.zip answers → ∀ i ∈ a.writableIndexes,
        ∀ text, addresses[i.toNat]? = some text → text ∈ result) ∧
      ∀ text ∈ result, ∃ a addresses, (a, some addresses) ∈ lookups.zip answers ∧
        ∃ b ∈ lookups, b.accountKey = a.accountKey ∧
          ∃ i ∈ b.readonlyIndexes ++ b.writableIndexes, addresses[i.toNat]? = some text) ↔
    ∀ a addresses, (a, some addresses) ∈ lookups.zip answers → ∀ i ∈ a.writableIndexes,
      ∀ text, addresses[i.toNat]? = some text → Resolved lookups answers text := by
  intro result
  have hresult : ∀ text, text ∈ result ↔ Resolved lookups answers text :=
    mem_getFromAddressLookupTables_iff_resolved hinj ht h
  simp only [hresult]
  exact and_iff_left fun text => selected_of_resolved

end Resolved

-- ════════════════════════════════════════════════════════════════════════
-- One table
-- ════════════════════════════════════════════════════════════════════════

/-- The keys of a payer, a program and a lookup table, and the two addresses of
    the table. -/
def payerKey : Pubkey := .filled 1
def programKey : Pubkey := .filled 2
def tableKey : Pubkey := .filled 9
def tableAddresses : List Pubkey := [.filled 3, .filled 4]

/-- The account of the table: its state, and the addresses from byte 56 on. -/
def tableData : Bytes :=
  [1, 0, 0, 0] ++ List.replicate 8 255 ++ List.replicate 44 0 ++
    tableAddresses.flatMap Pubkey.bytes

/-- A node that knows the table. -/
def tableClient : RpcClient where
  getMultipleAccounts keys :=
    .ok (keys.map fun k => if k = tableKey then some tableData else none)
  length_le h := by rw [← Except.ok.inj h, List.length_map]

/-- Crates that read the account of the table, and are given no transaction. -/
def tableReader : Crates :=
  { Crates.keysOnly with
    parseAddressLookupTable := fun data =>
      if data = tableData then .ok (.lookupTable (tableAddresses.map Pubkey.toBase58))
      else .error "invalid account data" }

/-- A transaction with these lookups. -/
def lookupTransaction (lookups : List MessageAddressTableLookup) : VersionedTransaction where
  message := .v0 ⟨1, 0, 1⟩ [payerKey, programKey] [] lookups

/-- The node that knows one table answers every lookup of it. -/
theorem answered_tableClient {lookups : List MessageAddressTableLookup}
    (h : ∀ a ∈ lookups, a.accountKey = tableKey) :
    Answered tableReader tableClient lookups
      (lookups.map fun _ => some (tableAddresses.map Pubkey.toBase58)) where
  data := by
    refine ⟨lookups.map fun _ => some tableData, ?_, ?_⟩
    · show Except.ok ((lookups.map (·.accountKey)).map fun k =>
        if k = tableKey then some tableData else none) = _
      rw [List.map_map]
      apply congrArg Except.ok
      apply List.map_congr_left
      intro a ha
      exact if_pos (h a ha)
    · rw [List.forall₂_map_left_iff, List.forall₂_map_right_iff, List.forall₂_same]
      intro a _
      apply Option.Rel.some
      simp [tableReader]
  length_eq := List.length_map _
  size := by
    intro addresses hmem
    obtain ⟨a, -, ha⟩ := List.mem_map.mp hmem
    rw [← Option.some.inj ha]
    decide

/-- One lookup, for writing address 0 and reading address 1. -/
theorem lookup_tables_resolved_iff_one :
    (Pubkey.filled 3).toBase58 ∈
      getFromAddressLookupTables tableReader tableClient (lookupTransaction [⟨tableKey, [0], [1]⟩]) := by
  have hnodup : ([⟨tableKey, [0], [1]⟩].map MessageAddressTableLookup.accountKey).Nodup :=
    List.nodup_singleton tableKey
  have hanswered : Answered tableReader tableClient [⟨tableKey, [0], [1]⟩]
      [some (tableAddresses.map Pubkey.toBase58)] :=
    answered_tableClient fun a ha => by rw [List.mem_singleton.mp ha]
  have hiff := lookup_tables_resolved_iff (t := lookupTransaction [⟨tableKey, [0], [1]⟩])
    Pubkey.toBase58_injective rfl hanswered
  have hcomplete := (hiff.mpr fun a addresses hp i hi text hget =>
    resolved_of_nodup hnodup hp hi hget).1
  exact hcomplete _ _ (List.mem_singleton_self _) 0 (List.mem_singleton_self _) _ rfl

/-- Address 0 of a table is selected for writing by the first of two lookups of
    the table, and lost. -/
theorem lookup_tables_overwritten :
    let lookups : List MessageAddressTableLookup := [⟨tableKey, [0], []⟩, ⟨tableKey, [1], []⟩]
    Answered tableReader tableClient lookups
      (lookups.map fun _ => some (tableAddresses.map Pubkey.toBase58)) ∧
    (tableAddresses.map Pubkey.toBase58)[0]? = some (Pubkey.filled 3).toBase58 ∧
    (Pubkey.filled 3).toBase58 ∉
      getFromAddressLookupTables tableReader tableClient (lookupTransaction lookups) := by
  intro lookups
  refine ⟨answered_tableClient ?_, rfl, ?_⟩
  · intro a ha
    rcases List.mem_cons.mp ha with rfl | ha
    · rfl
    · rw [List.mem_singleton.mp ha]
  · decide +kernel

end PriorityFeeEstimator
