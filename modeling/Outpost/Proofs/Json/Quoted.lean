import Outpost.Json.Quoted
import Outpost.Proofs.Text

/-!
# Escaped text is read back

The body that is written for a text ends at the closing quote behind it, and stands for that text.
Either reader is taken through the body by one byte of the text at a time.
-/

namespace Outpost.Json.Quoted

open Bytes

variable {byte : UInt8} {rest : Bytes}

inductive Written (byte : UInt8) : Bytes → Prop
  | letter (letter : UInt8) (stands : letter? letter = some byte) (other : letter ≠ 0x75) :
      Written byte [0x5C, letter]
  | code (a b c d : UInt8) (stands : unit? a b c d = some byte.toNat) (control : byte < 0x20) :
      Written byte [0x5C, 0x75, a, b, c, d]
  | itself (visible : ¬ byte < 0x20) (quote : byte ≠ 0x22) (backslash : byte ≠ 0x5C) :
      Written byte [byte]

theorem hexValue?_hexLower : ∀ value < 16, hexValue? (hexLower value) = some value := by decide

theorem unit?_control (control : byte < 0x20) :
    unit? 0x30 0x30 (hexLower (byte.toNat / 16)) (hexLower (byte.toNat % 16)) =
      some byte.toNat := by
  have bound : byte.toNat < 32 := control
  have zero : hexValue? 0x30 = some 0 := rfl
  unfold unit?
  rw [zero, hexValue?_hexLower (byte.toNat / 16) (by omega),
    hexValue?_hexLower (byte.toNat % 16) (by omega)]
  simp only [Option.bind_eq_bind, Option.bind_some, Option.pure_def, Option.some.injEq]
  omega

theorem written_escapeByte (byte : UInt8) : Written byte (escapeByte byte) := by
  unfold escapeByte
  split
  · exact .letter 0x22 (by simp_all [letter?]) (by decide)
  split
  · exact .letter 0x5C (by simp_all [letter?]) (by decide)
  split
  · exact .letter 0x62 (by simp_all [letter?]) (by decide)
  split
  · exact .letter 0x74 (by simp_all [letter?]) (by decide)
  split
  · exact .letter 0x6E (by simp_all [letter?]) (by decide)
  split
  · exact .letter 0x66 (by simp_all [letter?]) (by decide)
  split
  · exact .letter 0x72 (by simp_all [letter?]) (by decide)
  split
  · rename_i control
    exact .code _ _ _ _ (unit?_control control) control
  · rename_i quote backslash _ _ _ _ _ visible
    exact .itself visible quote backslash

/-! ## Finding the end -/

theorem scan?_escapeByte (byte : UInt8) (rest : Bytes) :
    scan? (escapeByte byte ++ rest) =
      (scan? rest).map fun (body, after) => (escapeByte byte ++ body, after) := by
  have ways := written_escapeByte byte
  generalize escapeByte byte = written at ways ⊢
  cases ways with
  | letter letter stands other => simp [scan?, stands, other]
  | code a b c d stands control => simp [scan?, stands]
  | itself visible quote backslash => simp [scan?, visible, backslash]

theorem scan?_escape (text rest : Bytes) :
    scan? (escape text ++ 0x22 :: rest) = some (escape text, rest) := by
  induction text with
  | nil => simp [scan?]
  | cons byte text ih =>
      rw [escape_cons, List.append_assoc, scan?_escapeByte, ih]
      rfl

/-! ## Taking the escapes back -/

theorem utf8EncodeChar_control (control : byte < 0x20) :
    String.utf8EncodeChar (Char.ofNat byte.toNat) = [byte] := by
  have bound : byte.toNat < 32 := control
  have value : (Char.ofNat byte.toNat).val.toNat = byte.toNat := Text.toNat_ofNat (by omega)
  simp [String.utf8EncodeChar, value, Nat.le_of_lt (Nat.lt_trans bound (by decide : 32 < 127))]

theorem unescape?_escapeByte (byte : UInt8) (rest : Bytes) :
    unescape? (escapeByte byte ++ rest) = (unescape? rest).map (byte :: ·) := by
  have ways := written_escapeByte byte
  generalize escapeByte byte = written at ways ⊢
  cases ways with
  | letter letter stands other => simp [unescape?, stands, other]
  | code a b c d stands control =>
      have bound : byte.toNat < 32 := control
      have low : ¬ 0xDC00 ≤ byte.toNat := by omega
      have high : ¬ 0xD800 ≤ byte.toNat := by omega
      simp [unescape?, stands, low, high, utf8EncodeChar_control control]
  | itself visible quote backslash => simp [unescape?, backslash]

theorem unescape?_escape (text : Bytes) : unescape? (escape text) = some text := by
  induction text with
  | nil => rfl
  | cons byte text ih => rw [escape_cons, unescape?_escapeByte, ih, Option.map_some]

@[simp] theorem text?_escape (text : String) : text? (escape (ofText text)) = some text := by
  unfold text?
  rw [unescape?_escape, Option.bind_some, Bytes.text?_ofText]

end Outpost.Json.Quoted
