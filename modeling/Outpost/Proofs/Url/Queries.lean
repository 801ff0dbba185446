import Outpost.Api.Request
import Outpost.Proofs.Url.Escapes

/-!
# Queries of URLs

A query is escaped on its way into a URL.  Since no hexadecimal digit and no percent sign is among
the characters escaped, the codes that it has and those that it gets do not run together, and the
parameters that a watch is told by are read as before.
-/

namespace Outpost.Url

open Api

/-! ## Bytes written by codes -/

/-- Some bytes of the first row are written by their codes in the second. -/
inductive Recoded : Bytes → Bytes → Prop
  | nil : Recoded [] []
  | kept (byte : UInt8) {plain written : Bytes} (rest : Recoded plain written) :
      Recoded (byte :: plain) (byte :: written)
  | code (byte : UInt8) (noDigit : Bytes.hexValue? byte = none) (noPercent : byte ≠ 0x25)
      {plain written : Bytes} (rest : Recoded plain written) :
      Recoded (byte :: plain) (Percent.escape byte ++ written)

namespace Recoded

variable {plain written plain' written' : Bytes}

theorem refl (bytes : Bytes) : Recoded bytes bytes := by
  induction bytes with
  | nil => exact .nil
  | cons byte rest ih => exact .kept byte ih

theorem append (h : Recoded plain written) (h' : Recoded plain' written') :
    Recoded (plain ++ plain') (written ++ written') := by
  induction h with
  | nil => exact h'
  | kept byte _ ih => exact .kept byte ih
  | code byte noDigit noPercent _ ih =>
      rw [List.append_assoc]
      exact .code byte noDigit noPercent ih

theorem codes (bytes : Bytes)
    (free : ∀ byte ∈ bytes, Bytes.hexValue? byte = none ∧ byte ≠ 0x25) :
    Recoded bytes (bytes.flatMap Percent.escape) := by
  induction bytes with
  | nil => exact .nil
  | cons byte rest ih =>
      simp only [List.forall_mem_cons] at free
      exact .code byte free.1.1 free.1.2 (ih free.2)

end Recoded

/-! ## Reading codes -/

def digits? : Bytes → Option (UInt8 × Bytes)
  | high :: low :: rest =>
      match Bytes.hexValue? high, Bytes.hexValue? low with
      | some first, some second => some (UInt8.ofNat (16 * first + second), rest)
      | _, _ => none
  | _ => none

theorem decode_percent (bytes : Bytes) :
    Percent.decode (0x25 :: bytes) = match digits? bytes with
      | some (byte, rest) => byte :: Percent.decode rest
      | none => 0x25 :: Percent.decode bytes := by
  match bytes with
  | [] => rfl
  | [_] => rfl
  | high :: low :: rest =>
      simp only [Percent.decode, digits?]
      cases Bytes.hexValue? high <;> cases Bytes.hexValue? low <;> rfl

theorem decode_cons {byte : UInt8} (noPercent : byte ≠ 0x25) (rest : Bytes) :
    Percent.decode (byte :: rest) = byte :: Percent.decode rest := by
  match rest with
  | [] => simp [Percent.decode]
  | [_] => simp [Percent.decode]
  | high :: low :: rest =>
      rw [Percent.decode.eq_2]
      intro _ _ _ same
      cases same
      exact absurd rfl noPercent

theorem digits?_escape (byte : UInt8) (rest : Bytes) :
    ∃ high low, Percent.escape byte = [0x25, high, low] ∧
      digits? (high :: low :: rest) = some (byte, rest) := by
  have digit : ∀ value < 16, Bytes.hexValue? (Bytes.hexUpper value) = some value := by decide
  have bound := byte.toNat_lt
  refine ⟨_, _, rfl, ?_⟩
  rw [digits?, digit _ (by omega), digit _ (by omega)]
  simp only [Option.some.injEq, Prod.mk.injEq, and_true]
  rw [show 16 * (byte.toNat / 16) + byte.toNat % 16 = byte.toNat by omega, UInt8.ofNat_toNat]

theorem decode_escape (byte : UInt8) (rest : Bytes) :
    Percent.decode (Percent.escape byte ++ rest) = byte :: Percent.decode rest := by
  obtain ⟨high, low, code, digits⟩ := digits?_escape byte rest
  simp only [code, List.cons_append, List.nil_append, decode_percent, digits]

theorem digits?_pair (high low : UInt8) :
    (∀ rest, digits? (high :: low :: rest) = none) ∨
      ∃ byte, ∀ rest, digits? (high :: low :: rest) = some (byte, rest) := by
  cases first : Bytes.hexValue? high with
  | none => exact .inl fun rest => by simp [digits?, first]
  | some upper =>
      cases second : Bytes.hexValue? low with
      | none => exact .inl fun rest => by simp [digits?, first, second]
      | some lower =>
          refine .inr ⟨UInt8.ofNat (16 * upper + lower), fun rest => ?_⟩
          simp only [digits?, first, second]

theorem digits?_of_first {byte : UInt8} (noDigit : Bytes.hexValue? byte = none) (rest : Bytes) :
    digits? (byte :: rest) = none := by
  cases rest <;> simp [digits?, noDigit]

theorem digits?_of_second {byte : UInt8} (noDigit : Bytes.hexValue? byte = none) (high : UInt8)
    (rest : Bytes) : digits? (high :: byte :: rest) = none := by
  cases value : Bytes.hexValue? high <;> simp [digits?, value, noDigit]

namespace Recoded

variable {plain written : Bytes}

theorem head (h : Recoded plain written) :
    plain = [] ∧ written = [] ∨
    (∃ byte plain' written', plain = byte :: plain' ∧ written = byte :: written' ∧
      Recoded plain' written') ∨
    ∃ byte plain' written', plain = byte :: plain' ∧ written = 0x25 :: written' ∧
      Bytes.hexValue? byte = none := by
  cases h with
  | nil => exact .inl ⟨rfl, rfl⟩
  | kept byte rest => exact .inr (.inl ⟨byte, _, _, rfl, rfl, rest⟩)
  | code byte noDigit noPercent rest => exact .inr (.inr ⟨byte, _, _, rfl, rfl, noDigit⟩)

theorem digits (h : Recoded plain written) :
    digits? plain = none ∧ digits? written = none ∨
    ∃ byte rest rest', digits? plain = some (byte, rest) ∧ digits? written = some (byte, rest') ∧
      Recoded rest rest' ∧ rest.length < plain.length := by
  have percent : Bytes.hexValue? 0x25 = none := by decide
  rcases h.head with ⟨rfl, rfl⟩ | ⟨high, _, _, rfl, rfl, behind⟩ | ⟨byte, _, _, rfl, rfl, noDigit⟩
  · exact .inl ⟨rfl, rfl⟩
  · rcases behind.head with
      ⟨rfl, rfl⟩ | ⟨low, rest, rest', rfl, rfl, rests⟩ | ⟨byte, _, _, rfl, rfl, noDigit⟩
    · exact .inl ⟨rfl, rfl⟩
    · rcases digits?_pair high low with none | ⟨byte, some⟩
      · exact .inl ⟨none _, none _⟩
      · refine .inr ⟨byte, rest, rest', some _, some _, rests, ?_⟩
        simp only [List.length_cons]
        omega
    · exact .inl ⟨digits?_of_second noDigit _ _, digits?_of_second percent _ _⟩
  · exact .inl ⟨digits?_of_first noDigit _, digits?_of_first percent _⟩

theorem decode {plain written : Bytes} (h : Recoded plain written) :
    Percent.decode plain = Percent.decode written := by
  cases h with
  | nil => rfl
  | code byte noDigit noPercent rest =>
      rw [decode_cons noPercent, decode_escape, rest.decode]
  | kept byte rest =>
      by_cases percent : byte = 0x25
      · subst percent
        rw [decode_percent, decode_percent]
        rcases rest.digits with ⟨none, none'⟩ | ⟨byte, later, later', some, some', laters, shorter⟩
        · simp only [none, none', rest.decode]
        · simp only [some, some', laters.decode]
      · rw [decode_cons percent, decode_cons percent, rest.decode]
termination_by plain.length

end Recoded

/-! ## Parameters -/

def spaced (char : Char) : Char := if char = '+' then ' ' else char

theorem free_of_escapesInQuery {char : Char} (escaped : escapesInQuery char = true) :
    ∀ byte ∈ String.utf8EncodeChar char, Bytes.hexValue? byte = none ∧ byte ≠ 0x25 := by
  have low : ∀ value < 0x80, escapesInQuery (Char.ofNat value) = true →
      Bytes.hexValue? (UInt8.ofNat value) = none ∧ UInt8.ofNat value ≠ 0x25 := by decide +kernel
  have high : ∀ value < 0x100, 0x80 ≤ value →
      Bytes.hexValue? (UInt8.ofNat value) = none ∧ UInt8.ofNat value ≠ 0x25 := by decide +kernel
  intro byte inside
  by_cases ascii : char.toNat < 0x80
  · rw [utf8EncodeChar_ascii ascii, List.mem_singleton] at inside
    rw [inside]
    exact low _ ascii (by rwa [Char.ofNat_toNat])
  · have := high byte.toNat byte.toNat_lt
      (le_of_mem_utf8EncodeChar (Nat.le_of_not_lt ascii) inside)
    rwa [UInt8.ofNat_toNat] at this

theorem utf8EncodeChar_codes (byte : UInt8) :
    (((Percent.escape byte).map fun code => Char.ofNat code.toNat).map spaced).flatMap
      String.utf8EncodeChar = Percent.escape byte := by
  have digit : ∀ value < 16, String.utf8EncodeChar (spaced (Char.ofNat
      (Bytes.hexUpper value).toNat)) = [Bytes.hexUpper value] := by decide +kernel
  have percent : String.utf8EncodeChar (spaced (Char.ofNat (0x25 : UInt8).toNat)) = [0x25] := by
    decide +kernel
  have bound := byte.toNat_lt
  simp only [Percent.escape, List.map_cons, List.map_nil, List.flatMap_cons, List.flatMap_nil,
    percent, digit (byte.toNat / 16) (by omega), digit (byte.toNat % 16) (by omega)]
  rfl

theorem recoded_spaced (chars : List Char) :
    Recoded (Bytes.ofText (String.ofList (chars.map spaced)))
      (Bytes.ofText (String.ofList ((chars.flatMap (coded escapesInQuery)).map spaced))) := by
  simp only [ofText_ofList]
  induction chars with
  | nil => exact .nil
  | cons char rest ih =>
      rw [List.map_cons, List.flatMap_cons, List.flatMap_cons, List.map_append,
        List.flatMap_append]
      refine .append ?_ ih
      cases escaped : escapesInQuery char with
      | false => simpa [coded, escaped] using Recoded.refl _
      | true =>
          have unspaced : spaced char = char := if_neg fun plus => by
            rw [plus] at escaped
            exact absurd escaped (by decide)
          rw [coded, if_pos escaped, unspaced, escapeChar_eq, List.map_flatMap,
            List.flatMap_assoc]
          simp only [utf8EncodeChar_codes]
          exact Recoded.codes _ (free_of_escapesInQuery escaped)

theorem decodeComponent_eq (chars : List Char) :
    decodeComponent (String.ofList chars) =
      (Bytes.text? (Percent.decode (Bytes.ofText (String.ofList (chars.map spaced))))).getD
        (String.ofList (chars.map spaced)) := by
  have mapped : (String.ofList chars).map spaced = String.ofList (chars.map spaced) := by
    apply String.toList_injective
    simp
  rw [← mapped]
  rfl

/-- A word without codes is read from a component just when it is read from the escaped one. -/
theorem decodeComponent_escape {word : String}
    (literal : Percent.decode (Bytes.ofText word) = Bytes.ofText word) (chars : List Char) :
    decodeComponent (String.ofList (chars.flatMap (coded escapesInQuery))) = word ↔
      decodeComponent (String.ofList chars) = word := by
  rw [decodeComponent_eq, decodeComponent_eq, ← (recoded_spaced chars).decode]
  cases read : Bytes.text? (Percent.decode (Bytes.ofText (String.ofList (chars.map spaced)))) with
  | some text => exact Iff.rfl
  | none =>
      have unread : ∀ {text : String}, Percent.decode (Bytes.ofText text) =
          Percent.decode (Bytes.ofText (String.ofList (chars.map spaced))) → text ≠ word := by
        rintro text same rfl
        rw [← same, literal, Bytes.text?_ofText] at read
        cases read
      exact iff_of_false (unread (recoded_spaced chars).decode.symm) (unread rfl)

def watches (pair : List Char) : Bool :=
  let value := decodeComponent (String.ofList ((pair.dropWhile (· ≠ '=')).drop 1))
  decodeComponent (String.ofList (pair.takeWhile (· ≠ '='))) == "watch" &&
    (value == "true" || value == "1")

theorem isWatching_queryParameters (query : String) :
    isWatching (queryParameters query) =
      ((query.toList.splitOn '&').filter fun pair => !pair.isEmpty).any watches := by
  rw [isWatching, queryParameters, List.any_map]
  rfl

theorem watches_flatMap_coded (pair : List Char) :
    watches (pair.flatMap (coded escapesInQuery)) = watches pair := by
  have cut := takeWhile_flatMap_coded escapesInQuery (· = '=')
    (by simp only [decide_eq_true_eq, forall_eq]; decide) (Text.forall_mem_of_all (by decide)) pair
  simp only [← decide_not] at cut
  have behind : ((pair.flatMap (coded escapesInQuery)).dropWhile (· ≠ '=')).drop 1 =
      ((pair.dropWhile (· ≠ '=')).drop 1).flatMap (coded escapesInQuery) := by
    rw [cut.2]
    cases rest : pair.dropWhile (· ≠ '=') with
    | nil => rfl
    | cons first later =>
        have equals : first = '=' := by
          have stopped := List.head?_dropWhile_not (· ≠ '=') pair
          rw [rest] at stopped
          simpa using stopped
        subst equals
        rfl
  have literal : ∀ word ∈ ["watch", "true", "1"],
      Percent.decode (Bytes.ofText word) = Bytes.ofText word := by decide
  rw [Bool.eq_iff_iff]
  simp only [watches, behind, cut.1, Bool.and_eq_true, Bool.or_eq_true, beq_iff_eq,
    decodeComponent_escape (literal "watch" (by decide)),
    decodeComponent_escape (literal "true" (by decide)),
    decodeComponent_escape (literal "1" (by decide))]

theorem isWatching_escape (chars : List Char) :
    isWatching (queryParameters (escape escapesInQuery chars)) =
      isWatching (queryParameters (String.ofList chars)) := by
  have cut := splitOnP_flatMap_coded escapesInQuery (· == '&')
    (by simp only [beq_iff_eq, forall_eq]; decide) (Text.forall_mem_of_all (by decide)) chars
  rw [isWatching_queryParameters, isWatching_queryParameters, toList_escape,
    String.toList_ofList, List.splitOn, cut, List.filter_map, List.any_map, List.splitOn]
  have kept : ((fun pair => !pair.isEmpty) ∘ fun piece => piece.flatMap (coded escapesInQuery)) =
      fun pair : List Char => !pair.isEmpty := by
    funext pair
    rw [Function.comp_apply, Bool.not_inj_iff, Bool.eq_iff_iff, List.isEmpty_iff,
      List.isEmpty_iff, flatMap_coded_eq_nil]
  rw [kept]
  congr 1
  funext pair
  exact watches_flatMap_coded pair

end Outpost.Url
