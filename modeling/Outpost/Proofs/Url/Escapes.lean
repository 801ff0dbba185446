import Outpost.Proofs.Text
import Outpost.Url

/-!
# Escaped text

An escaped text holds the characters that need no escape, percent signs and hexadecimal digits, so
it is cut at the same separators as the text itself.  A word without percent signs and without
characters to escape is written by itself alone, and decoding sees no difference.
-/

namespace Outpost.Url

variable {escapes : Char → Bool} {chars : List Char} {char : Char}

/-! ## Bytes of characters -/

theorem ofText_ofList (chars : List Char) :
    Bytes.ofText (String.ofList chars) = chars.flatMap String.utf8EncodeChar := by
  simp [Bytes.ofText, List.utf8Encode]

theorem utf8EncodeChar_ascii (ascii : char.toNat < 0x80) :
    String.utf8EncodeChar char = [UInt8.ofNat char.toNat] := by
  have bound : char.val.toNat ≤ 127 := Nat.lt_succ_iff.mp ascii
  simp only [String.utf8EncodeChar, bound, if_true]
  rfl

theorem utf8EncodeChar_ne_nil (char : Char) : String.utf8EncodeChar char ≠ [] :=
  String.utf8EncodeChar_ne_nil

theorem le_of_mem_utf8EncodeChar (beyond : 0x80 ≤ char.toNat) {byte : UInt8}
    (h : byte ∈ String.utf8EncodeChar char) : 0x80 ≤ byte.toNat := by
  have large : ¬ char.val.toNat ≤ 127 := by
    rw [Char.toNat] at beyond
    omega
  simp only [String.utf8EncodeChar, large, if_false] at h
  split at h <;> try split at h
  all_goals
    simp only [List.mem_cons, List.not_mem_nil, or_false] at h
    rcases h with rfl | rfl | rfl | rfl <;> simp <;> omega

/-! ## Codes -/

def codeChars : List Char := "%0123456789ABCDEF".toList

theorem escapeByte_eq (byte : UInt8) :
    ∃ high low, high ∈ codeChars ∧ low ∈ codeChars ∧
      (Percent.escape byte).map (fun code => Char.ofNat code.toNat) = ['%', high, low] := by
  have digit : ∀ value < 16, Char.ofNat (Bytes.hexUpper value).toNat ∈ codeChars := by decide
  have bound := byte.toNat_lt
  exact ⟨_, _, digit (byte.toNat / 16) (by omega), digit (byte.toNat % 16) (by omega), rfl⟩

theorem mem_escapeChar {code : Char} (h : code ∈ escapeChar char) : code ∈ codeChars := by
  obtain ⟨byte, -, inside⟩ := List.mem_flatMap.mp h
  obtain ⟨high, low, hhigh, hlow, codes⟩ := escapeByte_eq byte
  rw [codes] at inside
  rcases List.mem_cons.mp inside with rfl | inside
  · decide
  · rcases List.mem_cons.mp inside with rfl | inside
    · exact hhigh
    · rw [List.mem_singleton.mp inside]
      exact hlow

theorem escapeChar_eq (char : Char) :
    escapeChar char = (String.utf8EncodeChar char).flatMap fun byte =>
      (Percent.escape byte).map fun code => Char.ofNat code.toNat := by
  rw [escapeChar, show String.singleton char = String.ofList [char] from rfl, ofText_ofList]
  simp

theorem escapeChar_cons (other : char ≠ '.') :
    ∃ high low rest, escapeChar char = '%' :: high :: low :: rest ∧
      (high = '2' → low ≠ 'e' ∧ low ≠ 'E') := by
  have two : ∀ value < 16, Char.ofNat (Bytes.hexUpper value).toNat = '2' → value = 2 := by decide
  have fourteen : ∀ value < 16, Char.ofNat (Bytes.hexUpper value).toNat = 'e' ∨
      Char.ofNat (Bytes.hexUpper value).toNat = 'E' → value = 14 := by decide
  obtain ⟨byte, bytes, encoded⟩ := List.exists_cons_of_ne_nil (utf8EncodeChar_ne_nil char)
  have first : byte ∈ String.utf8EncodeChar char := encoded ▸ List.mem_cons_self
  have bound := byte.toNat_lt
  have notDot : byte.toNat ≠ 0x2E := by
    by_cases ascii : char.toNat < 0x80
    · rw [utf8EncodeChar_ascii ascii, List.mem_singleton] at first
      intro dot
      rw [first, UInt8.toNat_ofNat_of_lt' (Nat.lt_trans ascii (by decide))] at dot
      exact other (Char.toNat_inj.mp dot)
    · have := le_of_mem_utf8EncodeChar (Nat.le_of_not_lt ascii) first
      omega
  rw [escapeChar_eq, encoded]
  refine ⟨_, _, _, rfl, fun high => not_or.mp fun low => notDot ?_⟩
  have highDigit := two _ (by omega) high
  have lowDigit := fourteen _ (by omega) low
  omega

/-! ## Escaping a row of characters -/

def coded (escapes : Char → Bool) (char : Char) : List Char :=
  if escapes char then escapeChar char else [char]

theorem toList_escape (escapes : Char → Bool) (chars : List Char) :
    (escape escapes chars).toList = chars.flatMap (coded escapes) := by
  rw [escape, String.toList_ofList]
  rfl

theorem mem_coded {code : Char} (h : code ∈ coded escapes char) :
    code = char ∧ escapes char = false ∨ code ∈ codeChars := by
  unfold coded at h
  split at h
  · exact .inr (mem_escapeChar h)
  · rename_i kept
    exact .inl ⟨List.mem_singleton.mp h, Bool.eq_false_iff.mpr kept⟩

theorem mem_escape {code : Char} (h : code ∈ (escape escapes chars).toList) :
    code ∈ chars ∧ escapes code = false ∨ code ∈ codeChars := by
  rw [toList_escape] at h
  obtain ⟨char, inside, h⟩ := List.mem_flatMap.mp h
  rcases mem_coded h with ⟨rfl, kept⟩ | coded
  · exact .inl ⟨inside, kept⟩
  · exact .inr coded

theorem mem_escape_of_kept (inside : char ∈ chars) (kept : escapes char = false) :
    char ∈ (escape escapes chars).toList := by
  rw [toList_escape]
  exact List.mem_flatMap.mpr ⟨char, inside, by simp [coded, kept]⟩

theorem escape_eq_self (kept : ∀ char ∈ chars, escapes char = false) :
    escape escapes chars = String.ofList chars := by
  apply String.toList_injective
  rw [toList_escape, String.toList_ofList]
  induction chars with
  | nil => rfl
  | cons char rest ih =>
      simp only [List.forall_mem_cons] at kept
      rw [List.flatMap_cons, ih kept.2]
      simp [coded, kept.1]

theorem percent_mem_escape (inside : char ∈ chars) (escaped : escapes char = true) :
    '%' ∈ (escape escapes chars).toList := by
  rw [toList_escape]
  refine List.mem_flatMap.mpr ⟨char, inside, ?_⟩
  rw [coded, if_pos escaped, escapeChar_eq]
  obtain ⟨byte, bytes, encoded⟩ := List.exists_cons_of_ne_nil (utf8EncodeChar_ne_nil char)
  rw [encoded]
  exact List.mem_append_left _ List.mem_cons_self

theorem escape_eq_iff {word : String} (plain : '%' ∉ word.toList)
    (kept : ∀ char ∈ word.toList, escapes char = false) :
    escape escapes chars = word ↔ String.ofList chars = word := by
  constructor
  · intro h
    rw [← h]
    refine (escape_eq_self fun char inside => ?_).symm
    exact Bool.eq_false_iff.mpr fun escaped => plain (h ▸ percent_mem_escape inside escaped)
  · rintro rfl
    rw [String.toList_ofList] at kept
    exact escape_eq_self kept

/-! ## Cutting -/

/-- Escaping the pieces is escaping the whole, where separators are neither escaped nor written by
codes. -/
theorem splitOnP_flatMap_coded (escapes cut : Char → Bool)
    (kept : ∀ char, cut char = true → escapes char = false)
    (uncoded : ∀ code ∈ codeChars, cut code = false) (chars : List Char) :
    (chars.flatMap (coded escapes)).splitOnP cut =
      (chars.splitOnP cut).map fun piece => piece.flatMap (coded escapes) := by
  induction chars with
  | nil => simp
  | cons char rest ih =>
      rw [List.flatMap_cons, List.splitOnP_cons_eq_if_modifyHead]
      split
      · rename_i separator
        have alone : coded escapes char = [char] := by simp [coded, kept char separator]
        rw [alone, List.singleton_append, List.splitOnP_cons_eq_if_modifyHead, if_pos separator, ih]
        simp
      · rename_i inside
        have uncut : ∀ code ∈ coded escapes char, cut code = false := by
          intro code h
          rcases mem_coded h with ⟨rfl, -⟩ | h
          · simpa using inside
          · exact uncoded code h
        rw [Text.splitOnP_append uncut, ih]
        cases h : rest.splitOnP cut with
        | nil => exact absurd h (List.splitOnP_ne_nil _ _)
        | cons first others => simp

theorem takeWhile_flatMap_coded (escapes cut : Char → Bool)
    (kept : ∀ char, cut char = true → escapes char = false)
    (uncoded : ∀ code ∈ codeChars, cut code = false) (chars : List Char) :
    (chars.flatMap (coded escapes)).takeWhile (fun char => !cut char) =
        (chars.takeWhile fun char => !cut char).flatMap (coded escapes) ∧
      (chars.flatMap (coded escapes)).dropWhile (fun char => !cut char) =
        (chars.dropWhile fun char => !cut char).flatMap (coded escapes) := by
  induction chars with
  | nil => exact ⟨rfl, rfl⟩
  | cons char rest ih =>
      cases separator : cut char with
      | true =>
          have alone : coded escapes char = [char] := by simp [coded, kept char separator]
          simp [alone, separator]
      | false =>
          have uncut : ∀ code ∈ coded escapes char, (!cut code) = true := by
            intro code h
            rcases mem_coded h with ⟨rfl, -⟩ | h
            · simp [separator]
            · simp [uncoded code h]
          rw [List.flatMap_cons, List.takeWhile_append_of_pos uncut,
            List.dropWhile_append_of_pos uncut, ih.1, ih.2]
          simp [separator]

/-! ## Dots -/

theorem coded_cases (escapes : Char → Bool) (char : Char) (other : char ≠ '.') :
    coded escapes char = [char] ∨
      ∃ high low rest, coded escapes char = '%' :: high :: low :: rest ∧
        (high = '2' → low ≠ 'e' ∧ low ≠ 'E') := by
  unfold coded
  split
  · exact .inr (escapeChar_cons other)
  · exact .inl rfl

variable {first low : Char} {rest : List Char}

theorem uncoded_head (dot : escapes '.' = false)
    (written : chars.flatMap (coded escapes) = first :: rest) (plain : first ≠ '%') :
    ∃ later, chars = first :: later ∧ later.flatMap (coded escapes) = rest := by
  cases chars with
  | nil => cases written
  | cons char later =>
      rw [List.flatMap_cons] at written
      by_cases isDot : char = '.'
      · subst isDot
        simp only [coded, dot, Bool.false_eq_true, if_false, List.singleton_append,
          List.cons.injEq] at written
        exact ⟨later, by rw [written.1], written.2⟩
      · rcases coded_cases escapes char isDot with alone | ⟨_, _, _, codes, -⟩
        · rw [alone, List.singleton_append, List.cons.injEq] at written
          exact ⟨later, by rw [written.1], written.2⟩
        · rw [codes, List.cons_append, List.cons.injEq] at written
          exact absurd written.1.symm plain

theorem uncoded_dot (dot : escapes '.' = false)
    (written : chars.flatMap (coded escapes) = '%' :: '2' :: low :: rest)
    (code : low = 'e' ∨ low = 'E') :
    ∃ later, chars = '%' :: '2' :: low :: later ∧ later.flatMap (coded escapes) = rest := by
  cases chars with
  | nil => cases written
  | cons char later =>
      rw [List.flatMap_cons] at written
      have notDot : char ≠ '.' := by
        rintro rfl
        simp [coded, dot] at written
      rcases coded_cases escapes char notDot with alone | ⟨_, _, _, codes, other⟩
      · rw [alone, List.singleton_append, List.cons.injEq] at written
        obtain ⟨rfl, two⟩ := written
        obtain ⟨tail, rfl, letter⟩ := uncoded_head dot two (by decide)
        obtain ⟨last, rfl, behind⟩ :=
          uncoded_head dot letter (by rcases code with rfl | rfl <;> decide)
        exact ⟨last, rfl, behind⟩
      · rw [codes] at written
        simp only [List.cons_append, List.cons.injEq] at written
        obtain ⟨-, rfl, rfl, -⟩ := written
        exact (code.elim (other rfl).1 (other rfl).2).elim

theorem coded_ne_nil (escapes : Char → Bool) (char : Char) : coded escapes char ≠ [] := by
  by_cases isDot : char = '.'
  · subst isDot
    cases escaped : escapes '.' with
    | false => simp [coded, escaped]
    | true =>
        simp only [coded, escaped, if_true]
        decide
  · rcases coded_cases escapes char isDot with alone | ⟨_, _, _, codes, -⟩
    · simp [alone]
    · simp [codes]

theorem flatMap_coded_eq_nil : chars.flatMap (coded escapes) = [] ↔ chars = [] := by
  cases chars with
  | nil => simp
  | cons char rest => simp [coded_ne_nil]

theorem flatMap_coded_of_dots (dot : escapes '.' = false)
    (dots : ∀ char ∈ plainDots (chars.flatMap (coded escapes)), char = '.') :
    chars.flatMap (coded escapes) = chars := by
  generalize spelled : chars.flatMap (coded escapes) = text at dots ⊢
  induction text using plainDots.induct generalizing chars with
  | case1 rest ih =>
      obtain ⟨later, rfl, written⟩ := uncoded_dot dot spelled (.inl rfl)
      simp only [plainDots, List.forall_mem_cons, true_and] at dots
      rw [ih written dots]
  | case2 rest ih =>
      obtain ⟨later, rfl, written⟩ := uncoded_dot dot spelled (.inr rfl)
      simp only [plainDots, List.forall_mem_cons, true_and] at dots
      rw [ih written dots]
  | case3 char rest lower upper ih =>
      rw [plainDots.eq_3 _ _ lower upper, List.forall_mem_cons] at dots
      obtain ⟨rfl, dots⟩ := dots
      obtain ⟨later, rfl, written⟩ := uncoded_head dot spelled (by decide)
      rw [ih written dots]
  | case4 => exact (flatMap_coded_eq_nil.mp spelled).symm

theorem mem_of_dots (dots : ∀ char ∈ plainDots chars, char = '.') :
    ∀ char ∈ chars, char ∈ ['.', '%', '2', 'e', 'E'] := by
  induction chars using plainDots.induct with
  | case1 rest ih =>
      simp only [plainDots, List.forall_mem_cons, true_and] at dots ⊢
      simpa using ih dots
  | case2 rest ih =>
      simp only [plainDots, List.forall_mem_cons, true_and] at dots ⊢
      simpa using ih dots
  | case3 char rest lower upper ih =>
      rw [plainDots.eq_3 _ _ lower upper, List.forall_mem_cons] at dots
      obtain ⟨rfl, dots⟩ := dots
      simpa using ih dots
  | case4 => simp

theorem plainDots_flatMap_coded {dots : List Char} (only : ∀ char ∈ dots, char = '.')
    (kept : ∀ char ∈ ['.', '%', '2', 'e', 'E'], escapes char = false) :
    plainDots (chars.flatMap (coded escapes)) = dots ↔ plainDots chars = dots := by
  constructor
  · intro h
    rwa [flatMap_coded_of_dots (kept '.' (by decide)) (h ▸ only)] at h
  · intro h
    have inside := mem_of_dots (h ▸ only)
    rw [← toList_escape, escape_eq_self fun char h => kept char (inside char h),
      String.toList_ofList, h]

theorem isSingleDot_escape (segment : String) :
    isSingleDot (escape escapesInPath segment.toList) = isSingleDot segment := by
  simp only [isSingleDot, toList_escape, decide_eq_decide]
  exact plainDots_flatMap_coded (by simp) (Text.forall_mem_of_all (by decide))

theorem isDoubleDot_escape (segment : String) :
    isDoubleDot (escape escapesInPath segment.toList) = isDoubleDot segment := by
  simp only [isDoubleDot, toList_escape, decide_eq_decide]
  exact plainDots_flatMap_coded (by simp) (Text.forall_mem_of_all (by decide))

/-! ## Decoding -/

end Outpost.Url
