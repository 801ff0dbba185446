import Outpost.Bytes

/-!
# Text

The few operations on text that the rest of the library shares: blanks at the ends, ASCII case,
splitting at a character, and whether one text occurs in another.
-/

namespace Outpost.Text

/-- The characters with the Unicode property White_Space. -/
def isBlank (char : Char) : Bool :=
  let point := char.toNat
  (0x09 ≤ point && point ≤ 0x0D) || point == 0x20 || point == 0x85 || point == 0xA0 ||
    point == 0x1680 || (0x2000 ≤ point && point ≤ 0x200A) || point == 0x2028 ||
    point == 0x2029 || point == 0x202F || point == 0x205F || point == 0x3000

theorem toNat_ofNat {value : Nat} (small : value < 0xD800) : (Char.ofNat value).toNat = value := by
  rw [Char.ofNat, dif_pos (.inl small)]
  rfl

def trim (text : String) : String :=
  String.ofList
    (((text.toList.dropWhile isBlank).reverse.dropWhile isBlank).reverse)

def asciiLower (text : String) : String := String.ofList (text.toList.map Char.toLower)

/-- The pieces between the occurrences of a separator; one more than there are occurrences. -/
def split (separator : Char) (text : String) : List String :=
  (text.toList.splitOn separator).map String.ofList

def occurs (part : List Char) : List Char → Bool
  | [] => part.isEmpty
  | char :: rest => part.isPrefixOf (char :: rest) || occurs part rest

theorem occurs_iff {part chars : List Char} : occurs part chars = true ↔ part <:+: chars := by
  induction chars with
  | nil => simp [occurs]
  | cons char rest ih =>
      rw [occurs, Bool.or_eq_true, ih, List.isPrefixOf_iff_prefix, List.infix_cons_iff]

def contains (text part : String) : Bool := occurs part.toList text.toList

def startsWith (text start : String) : Bool := start.toList.isPrefixOf text.toList

def endsWith (text finish : String) : Bool := finish.toList.isSuffixOf text.toList

def dropTrailingSlashes (text : String) : String :=
  String.ofList (text.toList.reverse.dropWhile (· == '/')).reverse

end Outpost.Text
