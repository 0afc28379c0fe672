import Mathlib
import PriorityFeeEstimator.Rpc

/-!
# The size gates of the decoder

A text is refused when it is too large to be that of a transaction, before it is
decoded, and its bytes are refused when they are too many. The first gate lets
every transaction through that the second lets through: base64 needs four letters
for three bytes, and base58 no more than two letters for one.
-/

namespace PriorityFeeEstimator

def TransactionBinaryEncoding.encode : TransactionBinaryEncoding → Bytes → String
  | base58 => base58Encode
  | base64 => base64Encode

/-- The decoders of the other crates undo the standard encodings. -/
def Crates.StandardEncodings (crates : Crates) : Prop :=
  ∀ (encoding : TransactionBinaryEncoding) (w : Bytes),
    encoding.decode crates (encoding.encode w) = .ok w

theorem standardEncodings_keysOnly : Crates.keysOnly.StandardEncodings := by
  intro encoding w
  cases encoding with
  | base58 =>
    show (base58Decode (base58Encode w)).elim _ _ = _
    rw [base58Decode_base58Encode, Option.elim_some]
  | base64 =>
    show (base64Decode (base64Encode w)).elim _ _ = _
    rw [base64Decode_base64Encode, Option.elim_some]

/-- No text of a transaction within the wire limit is too large. -/
theorem utf8ByteSize_encode_le (encoding : TransactionBinaryEncoding) {w : Bytes}
    (hw : w.length ≤ maxTransactionSize) :
    (encoding.encode w).utf8ByteSize ≤ encoding.maxTextSize := by
  cases encoding with
  | base58 =>
    calc (base58Encode w).utf8ByteSize
        ≤ 2 * w.length := utf8ByteSize_base58Encode_le w
      _ ≤ 2 * maxTransactionSize := Nat.mul_le_mul_left 2 hw
      _ = maxBase58Size := Nat.mul_comm 2 maxTransactionSize
  | base64 =>
    calc (base64Encode w).utf8ByteSize
        = (w.length + 2) / 3 * 4 := utf8ByteSize_base64Encode w
      _ ≤ maxBase64Size :=
        Nat.mul_le_mul_right 4 (Nat.div_le_div_right (Nat.add_le_add_right hw 2))

/-- The text of a transaction within the wire limit is decoded. -/
theorem decodeAndDeserialize_encode {crates : Crates} (h : crates.StandardEncodings)
    (encoding : TransactionBinaryEncoding) {w : Bytes} {t : VersionedTransaction}
    (ht : crates.deserialize w = .ok t) (hw : w.length ≤ maxTransactionSize) :
    decodeAndDeserialize crates (encoding.encode w) encoding = .ok (w, t) :=
  decodeAndDeserialize_eq_ok_iff.mpr ⟨utf8ByteSize_encode_le encoding hw, h encoding w, hw, ht⟩

/-- The text of the bytes of a transaction gives back the bytes and the
    transaction when there are no more bytes than a transaction may have, and an
    error otherwise; and no text gives more bytes than that. -/
theorem size_gates_exact {crates : Crates} (h : crates.StandardEncodings) :
    (∀ (encoding : TransactionBinaryEncoding) (w : Bytes) (t : VersionedTransaction),
      crates.deserialize w = .ok t →
      (w.length ≤ maxTransactionSize →
        decodeAndDeserialize crates (encoding.encode w) encoding = .ok (w, t)) ∧
      (maxTransactionSize < w.length →
        ∃ e, decodeAndDeserialize crates (encoding.encode w) encoding = .error e)) ∧
    ∀ (encoding : TransactionBinaryEncoding) (encoded : String) (w : Bytes)
      (t : VersionedTransaction),
      decodeAndDeserialize crates encoded encoding = .ok (w, t) →
        w.length ≤ maxTransactionSize := by
  refine ⟨fun encoding w t ht => ⟨decodeAndDeserialize_encode h encoding ht, fun hw => ?_⟩, ?_⟩
  · cases hresult : decodeAndDeserialize crates (encoding.encode w) encoding with
    | error e => exact ⟨e, rfl⟩
    | ok r =>
      -- a text that gets through both gates gives `w`, which does not
      obtain ⟨-, hdecode, hsize, -⟩ := decodeAndDeserialize_eq_ok_iff.mp hresult
      rw [h encoding w, Except.ok.injEq] at hdecode
      exact absurd (hdecode ▸ hsize) (not_le.mpr hw)
  · intro encoding encoded w t hresult
    exact (decodeAndDeserialize_eq_ok_iff.mp hresult).2.2.1

/-- The transaction that zero bytes stand for. -/
def zeroTransaction : VersionedTransaction where
  message := .legacy ⟨0, 0, 0⟩ [] []

/-- Crates that read zero bytes: no signature, three counts, no key, a blockhash
    of 32 bytes, no instruction. Bytes after these are not looked at. -/
def zeroReader : Crates :=
  { Crates.keysOnly with
    deserialize := fun wire =>
      if 38 ≤ wire.length ∧ ∀ b ∈ wire, b = 0 then .ok zeroTransaction
      else .error "invalid transaction" }

theorem standardEncodings_zeroReader : zeroReader.StandardEncodings :=
  standardEncodings_keysOnly

theorem deserialize_zeroReader {n : ℕ} (hn : 38 ≤ n) :
    zeroReader.deserialize (List.replicate n 0) = .ok zeroTransaction := by
  refine if_pos ⟨?_, fun b hb => List.eq_of_mem_replicate hb⟩
  rwa [List.length_replicate]

/-- As many zero bytes as a transaction may have, and one more. -/
theorem size_gates_exact_zeros :
    decodeAndDeserialize zeroReader (base64Encode (List.replicate 4096 0)) .base64 =
      .ok (List.replicate 4096 0, zeroTransaction) ∧
    ∃ e, decodeAndDeserialize zeroReader (base58Encode (List.replicate 4097 0)) .base58 =
      .error e := by
  obtain ⟨hsizes, -⟩ := size_gates_exact standardEncodings_zeroReader
  constructor
  · refine (hsizes .base64 _ _ (deserialize_zeroReader (by omega))).1 ?_
    rw [List.length_replicate]
    exact le_rfl
  · refine (hsizes .base58 _ _ (deserialize_zeroReader (by omega))).2 ?_
    rw [List.length_replicate]
    exact Nat.lt_succ_self _

end PriorityFeeEstimator
