/-!
# Bytes and text

Payloads, header values and file contents are byte strings; names, paths and messages are
`String`.  `Bytes.ofText` and `Bytes.text?` carry text across, and a byte string is the
encoding of at most one text.
-/

namespace Outpost

abbrev Bytes := List UInt8

namespace Bytes

/-! ## Text -/

def ofText (text : String) : Bytes := text.toByteArray.data.toList

def text? (bytes : Bytes) : Option String := String.fromUTF8? ⟨bytes.toArray⟩

@[simp] theorem text?_ofText (text : String) : text? (ofText text) = some text := by
  have h : (⟨text.toByteArray.data.toList.toArray⟩ : ByteArray) = text.toByteArray := by
    simp
  unfold text? ofText
  rw [h]
  unfold String.fromUTF8?
  rw [dif_pos text.isValidUTF8]
  rfl

@[simp] theorem ofText_append (first second : String) :
    ofText (first ++ second) = ofText first ++ ofText second := by
  simp [ofText]

/-! ## ASCII -/

/-- The byte of an ASCII character; what lies beyond is cut to its low eight bits. -/
def ofChar (char : Char) : UInt8 := char.val.toUInt8

def isDigit (byte : UInt8) : Bool := 0x30 ≤ byte && byte ≤ 0x39

def isLower (byte : UInt8) : Bool := 0x61 ≤ byte && byte ≤ 0x7A

def upper (byte : UInt8) : UInt8 := if isLower byte then byte - 0x20 else byte

def hexValue? (byte : UInt8) : Option Nat :=
  if isDigit byte then some (byte.toNat - 0x30)
  else if 0x61 ≤ byte && byte ≤ 0x66 then some (byte.toNat - 0x61 + 10)
  else if 0x41 ≤ byte && byte ≤ 0x46 then some (byte.toNat - 0x41 + 10)
  else none

def hexLower (value : Nat) : UInt8 :=
  if value < 10 then 0x30 + value.toUInt8 else 0x61 + (value - 10).toUInt8

def hexUpper (value : Nat) : UInt8 :=
  if value < 10 then 0x30 + value.toUInt8 else 0x41 + (value - 10).toUInt8

/-! ## Decimal numbers -/

def ofNat (number : Nat) : Bytes := ofText (toString number)

def digits? (bytes : Bytes) : Option Nat :=
  bytes.foldlM (fun value byte =>
    if isDigit byte then some (10 * value + (byte.toNat - 0x30)) else none) 0

/-- An unsigned 64-bit number: digits, with or without a leading plus sign. -/
def word64? (bytes : Bytes) : Option Nat :=
  let digits := match bytes with
    | 0x2B :: rest => rest
    | _ => bytes
  if digits.isEmpty then none
  else (digits? digits).filter (· < Nat.pow 2 64)

end Bytes

end Outpost
