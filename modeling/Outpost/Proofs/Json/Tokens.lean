import Outpost.Json.Raw
import Outpost.Proofs.Json.Quoted

/-!
# Tokens are read back

Each token is read back from what is written for it, whatever follows.  Only behind a number the
text must not go on with something that would belong to it.
-/

namespace Outpost.Json

open Bytes

variable {digits rest : Bytes} {text : NumberText} {token : Token}

/-! ## Numbers -/

def continuesNumber (byte : UInt8) : Bool :=
  isDigit byte || byte = 0x2E || byte = 0x65 || byte = 0x45

def EndsNumber (rest : Bytes) : Prop := ∀ byte ∈ rest.head?, continuesNumber byte = false

theorem EndsNumber.nil : EndsNumber [] := nofun

theorem EndsNumber.cons {byte : UInt8} (other : continuesNumber byte = false) :
    EndsNumber (byte :: rest) := by
  rintro _ ⟨⟩
  exact other

def IsDigits (digits : Bytes) : Prop := ∀ byte ∈ digits, isDigit byte = true

def IsWhole (digits : Bytes) : Prop :=
  digits = [0x30] ∨ (digits.head?.any (· ≠ 0x30) = true ∧ IsDigits digits)

namespace NumberText

structure WellFormed (text : NumberText) : Prop where
  whole : IsWhole text.whole
  fraction : IsDigits text.fraction
  exponent : ∀ negative digits, text.exponent = some (negative, digits) →
    digits ≠ [] ∧ IsDigits digits

def renderFraction (fraction : Bytes) : Bytes :=
  if fraction.isEmpty then [] else 0x2E :: fraction

def renderExponent : Option (Bool × Bytes) → Bytes
  | none => []
  | some (negative, digits) => 0x65 :: (if negative then 0x2D else 0x2B) :: digits

theorem render_eq (text : NumberText) :
    text.render = (if text.negative then [0x2D] else []) ++
      (text.whole ++ (renderFraction text.fraction ++ renderExponent text.exponent)) := by
  unfold render renderFraction renderExponent
  cases text.exponent <;> simp only [List.append_assoc]

end NumberText

theorem digits?_append (present : digits ≠ []) (row : IsDigits digits)
    (ends : ∀ byte ∈ rest.head?, isDigit byte = false) :
    digits? (digits ++ rest) = some (digits, rest) := by
  have taken : (digits ++ rest).takeWhile isDigit = digits := by
    rw [List.takeWhile_append_of_pos row]
    cases rest with
    | nil => simp
    | cons byte rest => simp [ends byte rfl]
  have dropped : (digits ++ rest).dropWhile isDigit = rest := by
    rw [List.dropWhile_append_of_pos row]
    cases rest with
    | nil => simp
    | cons byte rest => simp [ends byte rfl]
  unfold digits?
  rw [taken, dropped]
  cases digits with
  | nil => exact absurd rfl present
  | cons => rfl

theorem whole?_append (whole : IsWhole digits)
    (ends : ∀ byte ∈ rest.head?, isDigit byte = false) :
    whole? (digits ++ rest) = some (digits, rest) := by
  rcases whole with rfl | ⟨first, row⟩
  · rfl
  · cases digits with
    | nil => cases first
    | cons byte digits =>
        have other : byte ≠ 0x30 := by simpa using first
        have read := digits?_append (List.cons_ne_nil _ _) row ends
        rw [List.cons_append] at read ⊢
        rw [whole?, read]
        rintro _ ⟨⟩
        exact other rfl

theorem fraction?_append (row : IsDigits digits)
    (ends : ∀ byte ∈ rest.head?, isDigit byte = false ∧ byte ≠ 0x2E) :
    fraction? (NumberText.renderFraction digits ++ rest) = some (digits, rest) := by
  cases digits with
  | nil =>
      cases rest with
      | nil => rfl
      | cons byte rest =>
          have other : byte ≠ 0x2E := (ends byte rfl).2
          simp [NumberText.renderFraction, fraction?, other]
  | cons digit digits =>
      exact digits?_append (List.cons_ne_nil _ _) row fun byte first => (ends byte first).1

theorem exponent?_append {exponent : Option (Bool × Bytes)}
    (row : ∀ negative digits, exponent = some (negative, digits) → digits ≠ [] ∧ IsDigits digits)
    (ends : EndsNumber rest) :
    exponent? (NumberText.renderExponent exponent ++ rest) = some (exponent, rest) := by
  have quiet : ∀ byte ∈ rest.head?, isDigit byte = false := by
    intro byte first
    have other := ends byte first
    simp only [continuesNumber, Bool.or_eq_false_iff] at other
    exact other.1.1.1
  cases exponent with
  | none =>
      cases rest with
      | nil => rfl
      | cons byte rest =>
          have other := ends byte rfl
          simp only [continuesNumber, Bool.or_eq_false_iff, decide_eq_false_iff_not] at other
          simp [NumberText.renderExponent, exponent?, other]
  | some exponent =>
      obtain ⟨negative, digits⟩ := exponent
      obtain ⟨present, digits_row⟩ := row negative digits rfl
      cases negative <;>
        simp [NumberText.renderExponent, exponent?, digits?_append present digits_row quiet]

theorem IsWhole.head (whole : IsWhole digits) :
    ∃ first others, digits = first :: others ∧ isDigit first = true := by
  rcases whole with rfl | ⟨first, row⟩
  · exact ⟨0x30, [], rfl, rfl⟩
  · cases digits with
    | nil => cases first
    | cons byte digits => exact ⟨byte, digits, rfl, row byte List.mem_cons_self⟩

theorem head?_renderExponent (exponent : Option (Bool × Bytes)) (ends : EndsNumber rest) :
    ∀ byte ∈ (NumberText.renderExponent exponent ++ rest).head?,
      isDigit byte = false ∧ byte ≠ 0x2E := by
  intro byte first
  cases exponent with
  | none =>
      have other := ends byte first
      simp only [continuesNumber, Bool.or_eq_false_iff, decide_eq_false_iff_not] at other
      exact ⟨other.1.1.1, other.1.1.2⟩
  | some exponent =>
      cases first
      decide

theorem number?_render (wellFormed : text.WellFormed) (ends : EndsNumber rest) :
    number? (text.render ++ rest) = some (text, rest) := by
  have behindPoint := head?_renderExponent text.exponent ends
  have behindWhole : ∀ byte ∈ (NumberText.renderFraction text.fraction ++
      (NumberText.renderExponent text.exponent ++ rest)).head?, isDigit byte = false := by
    unfold NumberText.renderFraction
    split
    · exact fun byte first => (behindPoint byte first).1
    · rintro _ ⟨⟩
      rfl
  obtain ⟨first, others, begins, digit⟩ := wellFormed.whole.head
  have unsigned : first ≠ 0x2D := by
    rintro rfl
    cases digit
  obtain ⟨negative, whole, fraction, exponent⟩ := text
  have readWhole := whole?_append wellFormed.whole behindWhole
  have readFraction := fraction?_append wellFormed.fraction behindPoint
  have readExponent := exponent?_append wellFormed.exponent ends
  rw [NumberText.render_eq]
  unfold number?
  cases negative with
  | false =>
      cases begins
      rw [List.cons_append] at readWhole
      simp [unsigned, readWhole, readFraction, readExponent]
  | true => simp [readWhole, readFraction, readExponent]

/-! ## Tokens -/

namespace Token

def WellFormed : Token → Prop
  | .number text => text.WellFormed
  | .string body => ∀ rest, Quoted.scan? (body ++ 0x22 :: rest) = some (body, rest)
  | _ => True

def Leaves (rest : Bytes) : Token → Prop
  | .number _ => EndsNumber rest
  | _ => True

theorem next?_of_number {first : UInt8} (begins : isDigit first = true ∨ first = 0x2D) :
    next? (first :: rest) = (number? (first :: rest)).map fun (text, after) =>
      (.number text, after) := by
  generalize bytes : first :: rest = text
  unfold next?
  split
  case h_12 => rfl
  case h_1 => cases bytes
  all_goals
    cases bytes
    exact absurd begins (by decide)

end Token

theorem isSpace_of_number {byte : UInt8} (number : isDigit byte = true ∨ byte = 0x2D) :
    isSpace byte = false := by
  rw [Bool.eq_false_iff]
  intro space
  simp only [isSpace, Bool.or_eq_true, decide_eq_true_eq] at space
  rcases space with ((rfl | rfl) | rfl) | rfl <;> exact absurd number (by decide)

theorem NumberText.WellFormed.head (wellFormed : text.WellFormed) :
    ∃ first others, text.render = first :: others ∧ (isDigit first = true ∨ first = 0x2D) := by
  obtain ⟨first, others, whole, digit⟩ := wellFormed.whole.head
  rw [NumberText.render_eq, whole]
  cases text.negative with
  | false => exact ⟨first, _, rfl, .inl digit⟩
  | true => exact ⟨0x2D, _, rfl, .inr rfl⟩

namespace Token

theorem next?_render (wellFormed : token.WellFormed) (leaves : token.Leaves rest) :
    next? (token.render ++ rest) = some (token, rest) := by
  cases token with
  | number text =>
      obtain ⟨first, others, begins, number⟩ := NumberText.WellFormed.head wellFormed
      have read := number?_render wellFormed leaves
      simp only [render]
      rw [begins, List.cons_append] at read ⊢
      rw [next?_of_number number, read, Option.map_some]
  | string body =>
      have read := wellFormed rest
      simp [render, next?, read]
  | bool value => cases value <;> rfl
  | _ => rfl

theorem head_render (wellFormed : token.WellFormed) :
    ∃ first others, token.render = first :: others ∧ isSpace first = false := by
  cases token with
  | number text =>
      obtain ⟨first, others, begins, number⟩ := NumberText.WellFormed.head wellFormed
      exact ⟨first, others, begins, isSpace_of_number number⟩
  | bool value => cases value <;> exact ⟨_, _, rfl, rfl⟩
  | _ => exact ⟨_, _, rfl, rfl⟩

end Token

@[simp] theorem tokens?_nil : tokens? [] = some [] := by
  rw [tokens?]
  rfl

theorem tokens?_render (wellFormed : token.WellFormed) (leaves : token.Leaves rest) :
    tokens? (token.render ++ rest) = (tokens? rest).map (token :: ·) := by
  have read := Token.next?_render wellFormed leaves
  obtain ⟨first, others, begins, visible⟩ := Token.head_render wellFormed
  rw [begins, List.cons_append] at read ⊢
  have dropped : (first :: (others ++ rest)).dropWhile isSpace = first :: (others ++ rest) := by
    rw [List.dropWhile_cons_of_neg (by simp [visible])]
  rw [tokens?]
  split
  case h_1 nothing => cases dropped.symm.trans nothing
  case h_2 split_first =>
    cases dropped.symm.trans split_first
    split
    case h_1 refused => cases read.symm.trans refused
    case h_2 taken =>
      cases read.symm.trans taken
      rfl

end Outpost.Json
