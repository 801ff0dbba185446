import Outpost.Json.Quoted

/-!
# The JSON grammar

`Raw` is a JSON text as the grammar sees it: strings are bodies that have not been decoded and
numbers are rows of digits.  Which texts, numbers and depths a reader admits is decided later, so
a reader that skips a part of a document checks no more of it than the grammar.

Reading goes through tokens.  `Reader.step` takes one token and keeps the open arrays and objects
on a stack, so documents of any depth are read without recursion.
-/

namespace Outpost.Json

open Bytes

/-- A number as written: digits before the point, digits after it (none without a point), and
the exponent's sign and digits. -/
structure NumberText where
  negative : Bool
  whole : Bytes
  fraction : Bytes
  exponent : Option (Bool × Bytes)
  deriving DecidableEq, Repr

inductive Raw where
  | null
  | bool (value : Bool)
  | number (text : NumberText)
  | string (body : Bytes)
  | array (items : List Raw)
  | object (members : List (Bytes × Raw))
  deriving Inhabited

inductive Token where
  | openArray | closeArray | openObject | closeObject | comma | colon
  | null
  | bool (value : Bool)
  | number (text : NumberText)
  | string (body : Bytes)
  deriving DecidableEq, Repr

/-! ## Tokens of a text -/

def isSpace (byte : UInt8) : Bool :=
  byte = 0x20 || byte = 0x09 || byte = 0x0A || byte = 0x0D

def digits? (bytes : Bytes) : Option (Bytes × Bytes) :=
  match bytes.takeWhile isDigit with
  | [] => none
  | digits => some (digits, bytes.dropWhile isDigit)

def whole? : Bytes → Option (Bytes × Bytes)
  | 0x30 :: rest => some ([0x30], rest)
  | bytes => digits? bytes

def fraction? : Bytes → Option (Bytes × Bytes)
  | 0x2E :: rest => digits? rest
  | bytes => some ([], bytes)

def exponent? : Bytes → Option (Option (Bool × Bytes) × Bytes)
  | mark :: rest =>
      if mark = 0x65 || mark = 0x45 then
        let signed : Bool × Bytes := match rest with
          | 0x2B :: unsigned => (false, unsigned)
          | 0x2D :: unsigned => (true, unsigned)
          | _ => (false, rest)
        (digits? signed.2).map fun (digits, after) => (some (signed.1, digits), after)
      else some (none, mark :: rest)
  | [] => some (none, [])

def number? (bytes : Bytes) : Option (NumberText × Bytes) := do
  let (negative, unsigned) : Bool × Bytes := match bytes with
    | 0x2D :: rest => (true, rest)
    | _ => (false, bytes)
  let (whole, afterWhole) ← whole? unsigned
  let (fraction, afterFraction) ← fraction? afterWhole
  let (exponent, after) ← exponent? afterFraction
  return (⟨negative, whole, fraction, exponent⟩, after)

def Token.next? : Bytes → Option (Token × Bytes)
  | [] => none
  | 0x5B :: rest => some (.openArray, rest)
  | 0x5D :: rest => some (.closeArray, rest)
  | 0x7B :: rest => some (.openObject, rest)
  | 0x7D :: rest => some (.closeObject, rest)
  | 0x2C :: rest => some (.comma, rest)
  | 0x3A :: rest => some (.colon, rest)
  | 0x22 :: rest => (Quoted.scan? rest).map fun (body, after) => (.string body, after)
  | 0x6E :: 0x75 :: 0x6C :: 0x6C :: rest => some (.null, rest)
  | 0x74 :: 0x72 :: 0x75 :: 0x65 :: rest => some (.bool true, rest)
  | 0x66 :: 0x61 :: 0x6C :: 0x73 :: 0x65 :: rest => some (.bool false, rest)
  | bytes => (number? bytes).map fun (text, after) => (.number text, after)

private theorem length_dropWhile_le (test : UInt8 → Bool) (bytes : Bytes) :
    (bytes.dropWhile test).length ≤ bytes.length :=
  (List.dropWhile_sublist test).length_le

theorem digits?_length {bytes digits after : Bytes} (h : digits? bytes = some (digits, after)) :
    after.length < bytes.length := by
  unfold digits? at h
  split at h
  · cases h
  · rename_i taken hne
    cases h
    have happend := congrArg List.length
      (List.takeWhile_append_dropWhile (p := isDigit) (l := bytes))
    rw [List.length_append] at happend
    have : 0 < (bytes.takeWhile isDigit).length := by
      cases htaken : bytes.takeWhile isDigit with
      | nil => exact absurd htaken hne
      | cons => simp
    omega

private theorem whole?_length {bytes digits after : Bytes}
    (h : whole? bytes = some (digits, after)) : after.length < bytes.length := by
  unfold whole? at h
  split at h
  · cases h; simp
  · exact digits?_length h

private theorem fraction?_length {bytes digits after : Bytes}
    (h : fraction? bytes = some (digits, after)) : after.length ≤ bytes.length := by
  unfold fraction? at h
  split at h
  · have := digits?_length h
    simp only [List.length_cons]
    omega
  · cases h; simp

private theorem exponent?_length {bytes after : Bytes} {exponent : Option (Bool × Bytes)}
    (h : exponent? bytes = some (exponent, after)) : after.length ≤ bytes.length := by
  unfold exponent? at h
  split at h
  · split at h
    · simp only [Option.map_eq_some_iff, Prod.mk.injEq, Prod.exists] at h
      obtain ⟨_, _, hdigits, _, rfl⟩ := h
      have := digits?_length hdigits
      split at this <;> simp only [List.length_cons] at * <;> omega
    · cases h; simp
  · cases h; simp

theorem number?_length {bytes after : Bytes} {text : NumberText}
    (h : number? bytes = some (text, after)) : after.length < bytes.length := by
  unfold number? at h
  simp only [Option.bind_eq_bind, Option.bind_eq_some_iff, Prod.exists, Option.pure_def,
    Option.some.injEq, Prod.mk.injEq] at h
  obtain ⟨_, _, hwhole, _, _, hfraction, _, _, hexponent, _, rfl⟩ := h
  have := whole?_length hwhole
  have := fraction?_length hfraction
  have := exponent?_length hexponent
  split at * <;> simp only [List.length_cons] at * <;> omega

theorem Token.next?_length {bytes after : Bytes} {token : Token}
    (h : Token.next? bytes = some (token, after)) : after.length < bytes.length := by
  unfold Token.next? at h
  split at h
  · cases h
  iterate 6
    · cases h
      simp
  · simp only [Option.map_eq_some_iff, Prod.mk.injEq, Prod.exists] at h
    obtain ⟨_, _, hscan, _, rfl⟩ := h
    have := Quoted.scan?_length hscan
    simp only [List.length_cons]
    omega
  iterate 3
    · cases h
      simp only [List.length_cons]
      omega
  · simp only [Option.map_eq_some_iff, Prod.mk.injEq, Prod.exists] at h
    obtain ⟨_, _, hnumber, _, rfl⟩ := h
    exact number?_length hnumber

def tokens? (bytes : Bytes) : Option (List Token) :=
  match hbytes : bytes.dropWhile isSpace with
  | [] => some []
  | first :: rest =>
      match hnext : Token.next? (first :: rest) with
      | none => none
      | some (token, after) =>
          have : after.length < bytes.length :=
            Nat.lt_of_lt_of_le (Token.next?_length hnext)
              (hbytes ▸ length_dropWhile_le isSpace bytes)
          (tokens? after).map (token :: ·)
termination_by bytes.length

/-! ## Documents of a row of tokens -/

/-- An array or object that is still open, its parts so far in reverse. -/
inductive Frame where
  | items (done : List Raw)
  | members (done : List (Bytes × Raw)) (key : Bytes)

inductive Reader where
  | awaitValue (stack : List Frame)
  | awaitFirstItem (stack : List Frame)
  | awaitKey (first : Bool) (done : List (Bytes × Raw)) (stack : List Frame)
  | awaitColon (key : Bytes) (done : List (Bytes × Raw)) (stack : List Frame)
  | complete (value : Raw) (stack : List Frame)

def Reader.begin (stack : List Frame) : Token → Option Reader
  | .null => some (.complete .null stack)
  | .bool value => some (.complete (.bool value) stack)
  | .number text => some (.complete (.number text) stack)
  | .string body => some (.complete (.string body) stack)
  | .openArray => some (.awaitFirstItem stack)
  | .openObject => some (.awaitKey true [] stack)
  | _ => none

def Reader.step : Reader → Token → Option Reader
  | .awaitValue stack, token => begin stack token
  | .awaitFirstItem stack, .closeArray => some (.complete (.array []) stack)
  | .awaitFirstItem stack, token => begin (.items [] :: stack) token
  | .awaitKey true done stack, .closeObject => some (.complete (.object done.reverse) stack)
  | .awaitKey _ done stack, .string body => some (.awaitColon body done stack)
  | .awaitColon key done stack, .colon => some (.awaitValue (.members done key :: stack))
  | .complete value (.items done :: stack), .comma =>
      some (.awaitValue (.items (value :: done) :: stack))
  | .complete value (.items done :: stack), .closeArray =>
      some (.complete (.array (value :: done).reverse) stack)
  | .complete value (.members done key :: stack), .comma =>
      some (.awaitKey false ((key, value) :: done) stack)
  | .complete value (.members done key :: stack), .closeObject =>
      some (.complete (.object ((key, value) :: done).reverse) stack)
  | _, _ => none

def Reader.result? : Reader → Option Raw
  | .complete value [] => some value
  | _ => none

def Raw.parse? (bytes : Bytes) : Option Raw := do
  let tokens ← tokens? bytes
  let reader ← tokens.foldlM Reader.step (.awaitValue [])
  reader.result?

/-! ## Writing -/

def NumberText.render (text : NumberText) : Bytes :=
  (if text.negative then [0x2D] else []) ++ text.whole ++
    (if text.fraction.isEmpty then [] else 0x2E :: text.fraction) ++
    match text.exponent with
    | none => []
    | some (negative, digits) => 0x65 :: (if negative then 0x2D else 0x2B) :: digits

def Token.render : Token → Bytes
  | .openArray => [0x5B]
  | .closeArray => [0x5D]
  | .openObject => [0x7B]
  | .closeObject => [0x7D]
  | .comma => [0x2C]
  | .colon => [0x3A]
  | .null => ofText "null"
  | .bool true => ofText "true"
  | .bool false => ofText "false"
  | .number text => text.render
  | .string body => 0x22 :: body ++ [0x22]

mutual

def Raw.tokens : Raw → List Token
  | .null => [.null]
  | .bool value => [.bool value]
  | .number text => [.number text]
  | .string body => [.string body]
  | .array items => .openArray :: itemTokens items ++ [.closeArray]
  | .object members => .openObject :: memberTokens members ++ [.closeObject]

def Raw.itemTokens : List Raw → List Token
  | [] => []
  | [item] => item.tokens
  | item :: rest => item.tokens ++ .comma :: itemTokens rest

def Raw.memberTokens : List (Bytes × Raw) → List Token
  | [] => []
  | [(key, value)] => .string key :: .colon :: value.tokens
  | (key, value) :: rest =>
      .string key :: .colon :: value.tokens ++ .comma :: memberTokens rest

end

def Raw.render (document : Raw) : Bytes := document.tokens.flatMap Token.render

mutual

def Raw.depth : Raw → Nat
  | .array items => itemDepth items + 1
  | .object members => memberDepth members + 1
  | _ => 0

def Raw.itemDepth : List Raw → Nat
  | [] => 0
  | item :: rest => max item.depth (itemDepth rest)

def Raw.memberDepth : List (Bytes × Raw) → Nat
  | [] => 0
  | (_, value) :: rest => max value.depth (memberDepth rest)

end

end Outpost.Json
