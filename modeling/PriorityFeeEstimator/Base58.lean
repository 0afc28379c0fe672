import Mathlib
import PriorityFeeEstimator.Model
import PriorityFeeEstimator.WireTexts

/-!
# Keys as base58 texts

A key is displayed in base58, and read back from such a text. Results that
involve texts of keys take the display as a parameter; this is the display they
are applied to.
-/

namespace PriorityFeeEstimator

namespace Pubkey

def toBase58 (k : Pubkey) : String := base58Encode k.bytes

def ofBase58 (text : String) : Option Pubkey := (base58Decode text).bind Pubkey.tryFrom

/-- A displayed key is read back. -/
theorem ofBase58_toBase58 (k : Pubkey) : ofBase58 k.toBase58 = some k := by
  rw [ofBase58, toBase58, base58Decode_base58Encode]
  exact tryFrom_bytes k

theorem toBase58_injective : Function.Injective toBase58 := by
  intro k k' h
  have hread := congrArg ofBase58 h
  rw [ofBase58_toBase58, ofBase58_toBase58] at hread
  exact Option.some.inj hread

/-- No key is displayed as a text with a letter outside the alphabet. -/
theorem toBase58_ne_of_mem {x : Char} (hx : x ∉ base58Alphabet) {text : String}
    (h : x ∈ text.toList) (k : Pubkey) : k.toBase58 ≠ text := by
  rintro rfl
  rw [toBase58, base58Encode, String.toList_ofList] at h
  exact hx (mem_alphabet_of_mem_spell h)

end Pubkey

end PriorityFeeEstimator
