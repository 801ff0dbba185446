import Outpost.Bytes

/-!
# Quoted text

The body of a JSON string, between its quotes.  `escape` writes a text with the fewest escapes
the format allows, and `unescape?` reads a body back into bytes; `scan?` finds where a body ends
and checks its shape without looking at what it says.
-/

namespace Outpost.Json.Quoted

open Bytes

/-! ## Writing -/

/-- What one byte of a text becomes: the quote, the backslash and the control characters are
escaped, everything else stands for itself. -/
def escapeByte (byte : UInt8) : Bytes :=
  if byte = 0x22 then [0x5C, 0x22]
  else if byte = 0x5C then [0x5C, 0x5C]
  else if byte = 0x08 then [0x5C, 0x62]
  else if byte = 0x09 then [0x5C, 0x74]
  else if byte = 0x0A then [0x5C, 0x6E]
  else if byte = 0x0C then [0x5C, 0x66]
  else if byte = 0x0D then [0x5C, 0x72]
  else if byte < 0x20 then
    [0x5C, 0x75, 0x30, 0x30, hexLower (byte.toNat / 16), hexLower (byte.toNat % 16)]
  else [byte]

def escape (bytes : Bytes) : Bytes := bytes.flatMap escapeByte

@[simp] theorem escape_nil : escape [] = [] := rfl

@[simp] theorem escape_cons (byte : UInt8) (rest : Bytes) :
    escape (byte :: rest) = escapeByte byte ++ escape rest := by
  simp [escape]

/-! ## Reading -/

def letter? (byte : UInt8) : Option UInt8 :=
  if byte = 0x22 || byte = 0x5C || byte = 0x2F then some byte
  else if byte = 0x62 then some 0x08
  else if byte = 0x66 then some 0x0C
  else if byte = 0x6E then some 0x0A
  else if byte = 0x72 then some 0x0D
  else if byte = 0x74 then some 0x09
  else none

def unit? (a b c d : UInt8) : Option Nat := do
  return 4096 * (← hexValue? a) + 256 * (← hexValue? b) + 16 * (← hexValue? c) + (← hexValue? d)

def scan? : Bytes → Option (Bytes × Bytes)
  | [] => none
  | 0x22 :: rest => some ([], rest)
  | 0x5C :: 0x75 :: a :: b :: c :: d :: rest =>
      if (unit? a b c d).isSome then
        (scan? rest).map fun (body, after) => (0x5C :: 0x75 :: a :: b :: c :: d :: body, after)
      else none
  | 0x5C :: letter :: rest =>
      if (letter? letter).isSome then
        (scan? rest).map fun (body, after) => (0x5C :: letter :: body, after)
      else none
  | byte :: rest =>
      if byte < 0x20 || byte = 0x5C then none
      else (scan? rest).map fun (body, after) => (byte :: body, after)

theorem scan?_length {bytes body after : Bytes} (h : scan? bytes = some (body, after)) :
    after.length < bytes.length := by
  fun_induction scan? bytes generalizing body after <;> simp_all <;>
    (try (obtain ⟨_, _, hrest, _, rfl⟩ := h)) <;> grind

/-- The bytes a body stands for.  A code unit of a surrogate pair counts only as the first half
directly followed by the second. -/
def unescape? : Bytes → Option Bytes
  | [] => some []
  | 0x5C :: 0x75 :: a :: b :: c :: d :: rest =>
      match unit? a b c d with
      | none => none
      | some unit =>
          if 0xDC00 ≤ unit && unit ≤ 0xDFFF then none
          else if 0xD800 ≤ unit && unit ≤ 0xDBFF then
            match rest with
            | 0x5C :: 0x75 :: e :: f :: g :: i :: after =>
                match unit? e f g i with
                | none => none
                | some second =>
                    if 0xDC00 ≤ second && second ≤ 0xDFFF then
                      let point := 0x10000 + 1024 * (unit - 0xD800) + (second - 0xDC00)
                      (unescape? after).map (String.utf8EncodeChar (Char.ofNat point) ++ ·)
                    else none
            | _ => none
          else (unescape? rest).map (String.utf8EncodeChar (Char.ofNat unit) ++ ·)
  | 0x5C :: letter :: rest =>
      match letter? letter with
      | some byte => (unescape? rest).map (byte :: ·)
      | none => none
  | byte :: rest => (unescape? rest).map (byte :: ·)

def text? (body : Bytes) : Option String := (unescape? body).bind Bytes.text?

end Outpost.Json.Quoted
