import Mathlib
import PriorityFeeEstimator.Lib.BaseConversion
import PriorityFeeEstimator.Lib.Sextets

/-!
# Byte strings as texts

Keys and transactions come as texts in base58 or in padded base64. Both are read
back, and both are texts of one-byte letters, so their size on the wire is their
number of letters.
-/

namespace PriorityFeeEstimator

/-- The digits and letters of base58: no zero, no capital O and I, no small l. -/
def base58Alphabet : List Char :=
  "123456789ABCDEFGHJKLMNPQRSTUVWXYZabcdefghijkmnopqrstuvwxyz".toList

/-- The letters, digits and the two signs of base64. -/
def base64Alphabet : List Char :=
  "ABCDEFGHIJKLMNOPQRSTUVWXYZabcdefghijklmnopqrstuvwxyz0123456789+/".toList

def base58Encode (w : List UInt8) : String :=
  String.ofList (spell base58Alphabet (rebase 256 58 (w.map UInt8.toNat)))

def base58Decode (text : String) : Option (List UInt8) :=
  (unspell base58Alphabet text.toList).map fun ds => (rebase 58 256 ds).map UInt8.ofNat

def base64Encode (w : List UInt8) : String :=
  String.ofList (padded '=' (spell base64Alphabet (sextets (w.map UInt8.toNat))))

/-- Texts with other letters, with wrong padding or with bits left over are
    refused. -/
def base64Decode (text : String) : Option (List UInt8) :=
  match unspell base64Alphabet (text.toList.takeWhile (· ≠ '=')) with
  | none => none
  | some ds =>
    let w := (octets ds).map UInt8.ofNat
    if base64Encode w = text then some w else none

-- ════════════════════════════════════════════════════════════════════════
-- Reading back
-- ════════════════════════════════════════════════════════════════════════

theorem toNat_lt_of_mem_map {w : List UInt8} : ∀ d ∈ w.map UInt8.toNat, d < 256 := by
  intro d hd
  obtain ⟨b, -, rfl⟩ := List.mem_map.mp hd
  exact b.toNat_lt

theorem map_ofNat_map_toNat (w : List UInt8) : (w.map UInt8.toNat).map UInt8.ofNat = w := by
  have hid : UInt8.ofNat ∘ UInt8.toNat = id := by
    funext b
    exact UInt8.ofNat_toNat
  rw [List.map_map, hid, List.map_id]

theorem rebase_lt_length_base58 (ds : List ℕ) : ∀ d ∈ rebase 256 58 ds, d < base58Alphabet.length :=
  rebase_lt (by decide)

theorem sextets_lt_length_base64 (w : List UInt8) :
    ∀ d ∈ sextets (w.map UInt8.toNat), d < base64Alphabet.length :=
  sextets_lt toNat_lt_of_mem_map

theorem base58Decode_base58Encode (w : List UInt8) : base58Decode (base58Encode w) = some w := by
  rw [base58Decode, base58Encode, String.toList_ofList,
    unspell_spell (by decide) (rebase_lt_length_base58 _), Option.map_some,
    rebase_rebase (by decide) toNat_lt_of_mem_map, map_ofNat_map_toNat]

theorem base64Decode_base64Encode (w : List UInt8) : base64Decode (base64Encode w) = some w := by
  have hpad : '=' ∉ spell base64Alphabet (sextets (w.map UInt8.toNat)) := fun h =>
    absurd (mem_alphabet_of_mem_spell h) (by decide)
  have hread : unspell base64Alphabet ((base64Encode w).toList.takeWhile (· ≠ '=')) =
      some (sextets (w.map UInt8.toNat)) := by
    rw [base64Encode, String.toList_ofList, takeWhile_padded hpad,
      unspell_spell (by decide) (sextets_lt_length_base64 w)]
  have hbytes : (octets (sextets (w.map UInt8.toNat))).map UInt8.ofNat = w := by
    rw [octets_sextets toNat_lt_of_mem_map, map_ofNat_map_toNat]
  simp only [base64Decode, hread, hbytes, if_true]

-- ════════════════════════════════════════════════════════════════════════
-- Sizes
-- ════════════════════════════════════════════════════════════════════════

/-- The letters of an alphabet that passes the check take one byte each. -/
theorem utf8Size_eq_one_of_all (alphabet : List Char)
    (h : (alphabet.all fun c => c.toNat < 128) = true) : ∀ c ∈ alphabet, c.utf8Size = 1 := by
  intro c hc
  have hlt : c.toNat < 128 := of_decide_eq_true (List.all_eq_true.mp h c hc)
  rw [Char.utf8Size_eq_one_iff, UInt32.le_iff_toNat_le]
  exact Nat.le_of_lt_succ hlt

theorem utf8ByteSize_ofList {l : List Char} (h : ∀ c ∈ l, c.utf8Size = 1) :
    (String.ofList l).utf8ByteSize = l.length := by
  rw [String.utf8ByteSize_ofList]
  induction l with
  | nil => rfl
  | cons c l ih =>
    rw [String.utf8Len_cons, List.length_cons, h c (by simp), ih fun d hd => h d (by simp [hd])]

theorem utf8ByteSize_base58Encode_le (w : List UInt8) :
    (base58Encode w).utf8ByteSize ≤ 2 * w.length := by
  have hascii := utf8Size_eq_one_of_all base58Alphabet (by decide)
  rw [base58Encode,
    utf8ByteSize_ofList fun c hc => hascii c (mem_alphabet_of_mem_spell hc),
    length_spell (rebase_lt_length_base58 _)]
  -- two digits of base58 are worth more than one byte
  have hlength := length_rebase_le (b := 256) (c := 58) (k := 2) (by decide) (by decide)
    (by decide) (by decide) (toNat_lt_of_mem_map (w := w))
  rwa [List.length_map] at hlength

theorem utf8ByteSize_base64Encode (w : List UInt8) :
    (base64Encode w).utf8ByteSize = (w.length + 2) / 3 * 4 := by
  have hascii := utf8Size_eq_one_of_all base64Alphabet (by decide)
  rw [base64Encode, utf8ByteSize_ofList, length_padded,
    length_spell (sextets_lt_length_base64 w), length_sextets, List.length_map]
  · omega
  · intro c hc
    rcases mem_padded hc with hletter | rfl
    · exact hascii c (mem_alphabet_of_mem_spell hletter)
    · decide

end PriorityFeeEstimator
