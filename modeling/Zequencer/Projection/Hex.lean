/-
# Hex, there and back

Ids, commitments, signatures, quotes and proofs leave the server as hex.  Every byte string is
read back from its digits, so the id that a submission is answered with parses to the id of the
intent, and a holder gets the bytes of the evidence.
-/
import Mathlib.Tactic.IntervalCases
import Zequencer.Admission.Identity
import Zequencer.Source.Receipt

namespace Zequencer

lemma utf8Bytes_ofList (l : List Char) :
    utf8Bytes (String.ofList l) = l.flatMap String.utf8EncodeChar := by
  rw [utf8Bytes, String.toByteArray_ofList, List.utf8Encode, List.data_toByteArray]

lemma hexDigit_digitChar {n : ℕ} (h : n < 16) :
    ∃ b, String.utf8EncodeChar (Nat.digitChar n) = [b] ∧ hexDigit b = some (UInt8.ofNat n) := by
  interval_cases n <;> exact ⟨_, rfl, by decide⟩

lemma hexByte_digits (b : UInt8) :
    UInt8.ofNat (b.toNat / 16) <<< 4 ||| UInt8.ofNat (b.toNat % 16) = b := by
  have hall : ∀ n < 256, UInt8.ofNat (n / 16) <<< 4 ||| UInt8.ofNat (n % 16) = UInt8.ofNat n := by
    decide +kernel
  rw [hall b.toNat b.toNat_lt, UInt8.ofNat_toNat]

/-- **Every byte string is read back from its digits.** -/
theorem hexDecode_hexEncode (bytes : List UInt8) :
    hexDecode (utf8Bytes (hexEncode bytes)) = some bytes := by
  rw [hexEncode, utf8Bytes_ofList]
  induction bytes with
  | nil => rfl
  | cons b bytes ih =>
    obtain ⟨high, hhigh, hhigh'⟩ := hexDigit_digitChar (n := b.toNat / 16) (by
      have := b.toNat_lt
      omega)
    obtain ⟨low, hlow, hlow'⟩ := hexDigit_digitChar (n := b.toNat % 16) (by omega)
    simp only [List.flatMap_cons, List.cons_append, List.nil_append, hhigh, hlow, hexDecode, hhigh',
      hlow', ih, Option.bind_eq_bind, Option.bind_some, hexByte_digits]
    rfl

/-- The id that a submission is answered with names the intent. -/
theorem IntentId.parse_hexEncode (id : IntentId) :
    IntentId.parse (hexEncode id.bytes.toList) = some id := by
  rw [IntentId.parse, hexDecode_hexEncode]
  simp [Bytes.ofList_toList]

end Zequencer
