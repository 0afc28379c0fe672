import Mathlib
import PriorityFeeEstimator.Lib.Table
import PriorityFeeEstimator.Statrs

/-!
# The data model

The types of `model.rs`: priority levels and the percentiles they stand for,
transaction versions, the fee lists of one slot, and the levels and details of
an estimate. A transaction as it reaches the store is a `Txn`.
-/

namespace PriorityFeeEstimator

/-- A slot number. -/
abbrev Slot := ℕ

/-- An account key: 32 bytes. -/
structure Pubkey where
  bytes : List UInt8
  size : bytes.length = 32
deriving DecidableEq

/-- `Pubkey::try_from` on a byte vector. -/
def Pubkey.tryFrom (v : List UInt8) : Option Pubkey :=
  if h : v.length = 32 then some ⟨v, h⟩ else none

@[simp] theorem Pubkey.tryFrom_bytes (k : Pubkey) : Pubkey.tryFrom k.bytes = some k := by
  simp [Pubkey.tryFrom, k.size]

/-- The key whose bytes all equal `b`. -/
def Pubkey.filled (b : UInt8) : Pubkey := ⟨List.replicate 32 b, List.length_replicate⟩

inductive PriorityLevel where
  | min
  | low
  | medium
  | high
  | veryHigh
  | unsafeMax
  | default
deriving DecidableEq

/-- The percentile a level stands for. -/
def PriorityLevel.percentile : PriorityLevel → ℕ
  | .min => 0
  | .low => 25
  | .medium => 50
  | .high => 75
  | .veryHigh => 95
  | .unsafeMax => 100
  | .default => 50

inductive TransactionVersion where
  | legacyV0
  | v1
deriving DecidableEq

/-- `TransactionVersion::ALL`. -/
def TransactionVersion.all : List TransactionVersion := [.legacyV0, .v1]

/-- The groups a sample can belong to. -/
inductive DataType where
  | global
  | allAccounts
  | account (key : Pubkey)
deriving DecidableEq

structure MicroLamportPriorityFeeEstimates where
  min : F64
  low : F64
  medium : F64
  high : F64
  veryHigh : F64
  unsafeMax : F64
deriving DecidableEq

namespace MicroLamportPriorityFeeEstimates

/-- `Default::default()`: every level is zero. -/
def zero : MicroLamportPriorityFeeEstimates := ⟨0, 0, 0, 0, 0, 0⟩

/-- The level a request asks for. -/
def level (e : MicroLamportPriorityFeeEstimates) : PriorityLevel → F64
  | .min => e.min
  | .low => e.low
  | .medium => e.medium
  | .high => e.high
  | .veryHigh => e.veryHigh
  | .unsafeMax => e.unsafeMax
  | .default => e.medium

@[simp] theorem zero_level (p : PriorityLevel) : zero.level p = 0 := by cases p <;> rfl

/-- Six levels that agree for every request are the same. -/
theorem ext_level {e e' : MicroLamportPriorityFeeEstimates}
    (h : ∀ p, e.level p = e'.level p) : e = e' := by
  cases e
  cases e'
  congr 1
  · exact h .min
  · exact h .low
  · exact h .medium
  · exact h .high
  · exact h .veryHigh
  · exact h .unsafeMax

end MicroLamportPriorityFeeEstimates

structure MicroLamportPriorityFeeDetails where
  estimates : MicroLamportPriorityFeeEstimates
  mean : F64
  stdev : F64
  skew : F64
  count : ℕ
deriving DecidableEq

structure Fees where
  nonVoteFees : List ℚ
  voteFees : List ℚ
deriving DecidableEq

namespace Fees

def new (fee : ℚ) (isVote : Bool) : Fees :=
  if isVote then { voteFees := [fee], nonVoteFees := [] }
  else { voteFees := [], nonVoteFees := [fee] }

def addFee (fees : Fees) (fee : ℚ) (isVote : Bool) : Fees :=
  if isVote then { fees with voteFees := fees.voteFees ++ [fee] }
  else { fees with nonVoteFees := fees.nonVoteFees ++ [fee] }

/-- Fee lists without any fee. -/
def none : Fees := ⟨[], []⟩

/-- A first fee is one more fee in empty lists. -/
theorem none_addFee (fee : ℚ) (isVote : Bool) : none.addFee fee isVote = new fee isVote := by
  cases isVote <;> rfl

end Fees

/-- A transaction as it is recorded: the accounts it writes, its price, whether
    it is a vote, and its version. -/
structure Txn where
  accounts : List Pubkey
  priorityFee : UInt64
  isVote : Bool
  version : TransactionVersion
deriving DecidableEq

structure SlotPriorityFees where
  slot : Slot
  fees : Fees
  accountFees : Table Pubkey Fees
  versionFees : Table TransactionVersion Fees

namespace SlotPriorityFees

/-- The fee lists of a slot with a single transaction. -/
def newWithVersion (slot : Slot) (accounts : List Pubkey) (priorityFee : UInt64) (isVote : Bool)
    (version : TransactionVersion) : SlotPriorityFees :=
  let fees := Fees.new (u64AsF64 priorityFee) isVote
  { slot := slot
    fees := fees
    accountFees := accounts.foldl (fun accountFees account => accountFees.insert account fees) ∅
    versionFees := (∅ : Table TransactionVersion Fees).insert version fees }

/-- `entry(key).and_modify(add_fee).or_insert(new)`. -/
def addEntryFee {κ : Type} [DecidableEq κ] (table : Table κ Fees) (key : κ)
    (priorityFee : UInt64) (isVote : Bool) : Table κ Fees :=
  table.upsert key fun
    | none => Fees.new (u64AsF64 priorityFee) isVote
    | some fees => fees.addFee (u64AsF64 priorityFee) isVote

def addVersionFee (s : SlotPriorityFees) (version : TransactionVersion) (priorityFee : UInt64)
    (isVote : Bool) : SlotPriorityFees :=
  { s with versionFees := addEntryFee s.versionFees version priorityFee isVote }

/-- The update of a slot that has transactions already: the closure given to
    `and_modify` when a transaction is recorded. -/
def update (s : SlotPriorityFees) (accounts : List Pubkey) (priorityFee : UInt64) (isVote : Bool)
    (version : TransactionVersion) : SlotPriorityFees :=
  let s := { s with fees := s.fees.addFee (u64AsF64 priorityFee) isVote }
  let s := s.addVersionFee version priorityFee isVote
  { s with
    accountFees := accounts.foldl
      (fun accountFees account => addEntryFee accountFees account priorityFee isVote)
      s.accountFees }

@[simp] theorem newWithVersion_slot (slot : Slot) (accounts : List Pubkey) (fee : UInt64)
    (isVote : Bool) (version : TransactionVersion) :
    (newWithVersion slot accounts fee isVote version).slot = slot := rfl

@[simp] theorem update_slot (s : SlotPriorityFees) (accounts : List Pubkey) (fee : UInt64)
    (isVote : Bool) (version : TransactionVersion) :
    (s.update accounts fee isVote version).slot = s.slot := rfl

@[simp] theorem update_fees (s : SlotPriorityFees) (accounts : List Pubkey) (fee : UInt64)
    (isVote : Bool) (version : TransactionVersion) :
    (s.update accounts fee isVote version).fees = s.fees.addFee (u64AsF64 fee) isVote := rfl

@[simp] theorem update_versionFees (s : SlotPriorityFees) (accounts : List Pubkey) (fee : UInt64)
    (isVote : Bool) (version : TransactionVersion) :
    (s.update accounts fee isVote version).versionFees
      = addEntryFee s.versionFees version fee isVote := rfl

@[simp] theorem update_accountFees (s : SlotPriorityFees) (accounts : List Pubkey) (fee : UInt64)
    (isVote : Bool) (version : TransactionVersion) :
    (s.update accounts fee isVote version).accountFees = accounts.foldl
      (fun accountFees account => addEntryFee accountFees account fee isVote) s.accountFees := rfl

end SlotPriorityFees

/-- The store: the fee lists of each slot held. -/
abbrev PriorityFeesBySlot := Table Slot SlotPriorityFees

end PriorityFeeEstimator
