import Outpost.Url.Domain

/-!
# Folding of letters

A mapping of names that goes by single characters.  It knows the letters of the Latin, Greek and
Cyrillic alphabets, the full-width forms of ASCII and the characters that are ignored; what it does
not know is left as it is.
-/

namespace Outpost.Url.Domain

/-- What becomes of a character beyond ASCII, or nothing where no domain may hold it. -/
def fold? (char : Char) : Option (List Char) :=
  let point := char.toNat
  let shift (offset : Nat) := some [Char.ofNat (point + offset)]
  if point < 0xA0 then none
  else if point = 0xA0 || point = 0x3000 || point = 0xFFFD then none
  else if point = 0xAD || point = 0x200B || point = 0x2060 || point = 0xFEFF then some []
  else if point = 0x3002 || point = 0xFF0E || point = 0xFF61 then some ['.']
  else if 0xFF01 ≤ point && point ≤ 0xFF5E then
    some [(Char.ofNat (point - 0xFEE0)).toLower]
  else if 0x2000 ≤ point && point ≤ 0x200A || 0x2028 ≤ point && point ≤ 0x202F then none
  else if point = 0x200C || point = 0x200D then none
  else if 0xE000 ≤ point && point ≤ 0xF8FF then none
  else if 0xC0 ≤ point && point ≤ 0xDE && point ≠ 0xD7 then shift 0x20
  else if (0x100 ≤ point && point ≤ 0x137 || 0x14A ≤ point && point ≤ 0x177) && point % 2 = 0 then
    shift 1
  else if (0x139 ≤ point && point ≤ 0x148 || 0x179 ≤ point && point ≤ 0x17E) && point % 2 = 1 then
    shift 1
  else if point = 0x178 then some [Char.ofNat 0xFF]
  else if 0x391 ≤ point && point ≤ 0x3A9 then shift 0x20
  else if 0x410 ≤ point && point ≤ 0x42F then shift 0x20
  else if 0x400 ≤ point && point ≤ 0x40F then shift 0x50
  else some [char]

def foldChar? (char : Char) : Option (List Char) :=
  if char.toNat < 0x80 then some [char.toLower] else fold? char

instance : Mapping := ⟨fun name => (name.mapM foldChar?).map List.flatten⟩

end Outpost.Url.Domain
