import Outpost.Json.Value
import Outpost.Proofs.Json.Documents

/-!
# Integers are written and read back

An integer is written as its decimal digits behind an optional sign, a text the grammar admits.
It is read back as the same integer if it fits 64 bits, with or without a sign.
-/

namespace Outpost

/-! ## Decimal digits -/

namespace Bytes

variable {number : Nat}

theorem ofText_digitChar (small : number < 10) :
    ofText (String.ofList [number.digitChar]) = [0x30 + number.toUInt8] := by
  revert number
  decide

theorem ofNat_of_lt (small : number < 10) : ofNat number = [0x30 + number.toUInt8] := by
  rw [ofNat, Nat.toString_eq_repr, Nat.repr, Nat.toDigits_of_lt_base small,
    ofText_digitChar small]

theorem ofNat_of_le (large : 10 ≤ number) :
    ofNat number = ofNat (number / 10) ++ [0x30 + (number % 10).toUInt8] := by
  have last := ofText_digitChar (Nat.mod_lt number (by decide : 0 < 10))
  rw [ofNat, Nat.toString_eq_repr, Nat.repr, Nat.toDigits_of_base_le (by decide) large,
    String.ofList_append, ofText_append, last]
  rfl

theorem isDigit_digit (small : number < 10) : isDigit (0x30 + number.toUInt8) = true := by
  revert number
  decide

theorem digit_ne_zero (small : number < 10) : 0 < number → 0x30 + number.toUInt8 ≠ 0x30 := by
  revert number
  decide

theorem value_digit (small : number < 10) :
    (0x30 + number.toUInt8).toNat - 0x30 = number := by
  revert number
  decide

end Bytes

namespace Json

open Bytes

variable {number : Nat} {value : Int} {text : NumberText}

theorem isDigits_ofNat (number : Nat) : IsDigits (ofNat number) := by
  induction number using Nat.strongRecOn with
  | ind number ih =>
      rcases Nat.lt_or_ge number 10 with small | large
      · rw [ofNat_of_lt small]
        exact List.forall_mem_singleton.mpr (isDigit_digit small)
      · rw [ofNat_of_le large]
        exact List.forall_mem_append.mpr ⟨ih _ (by omega),
          List.forall_mem_singleton.mpr (isDigit_digit (Nat.mod_lt _ (by decide)))⟩

theorem head?_ofNat (positive : 0 < number) :
    (ofNat number).head?.any (· ≠ 0x30) = true := by
  induction number using Nat.strongRecOn with
  | ind number ih =>
      rcases Nat.lt_or_ge number 10 with small | large
      · rw [ofNat_of_lt small, List.head?_cons, Option.any_some, decide_eq_true_eq]
        exact digit_ne_zero small positive
      · have first := ih (number / 10) (by omega) (by omega)
        rw [ofNat_of_le large]
        cases front : ofNat (number / 10) with
        | nil => rw [front] at first; cases first
        | cons byte front' => rwa [front] at first

theorem isWhole_ofNat (number : Nat) : IsWhole (ofNat number) := by
  rcases Nat.eq_zero_or_pos number with rfl | positive
  · exact .inl rfl
  · exact .inr ⟨head?_ofNat positive, isDigits_ofNat number⟩

theorem gather_append {front back : Bytes} {significand gathered : Nat}
    (fits : gather significand front = (gathered, [])) :
    gather significand (front ++ back) = gather gathered back := by
  induction front generalizing significand with
  | nil => cases fits; rfl
  | cons digit front ih =>
      simp only [List.cons_append, gather] at fits ⊢
      split at fits
      · rename_i room
        rw [if_pos room, ih fits]
      · cases fits

theorem gather_ofNat (fits : number < Nat.pow 2 64) : gather 0 (ofNat number) = (number, []) := by
  induction number using Nat.strongRecOn with
  | ind number ih =>
      rcases Nat.lt_or_ge number 10 with small | large
      · rw [ofNat_of_lt small]
        simp only [gather, value_digit small, Nat.mul_zero, Nat.zero_add, if_pos fits]
      · have front := ih (number / 10) (by omega) (by omega)
        have last := value_digit (Nat.mod_lt number (by decide : 0 < 10))
        rw [ofNat_of_le large, gather_append front]
        have whole : 10 * (number / 10) + number % 10 = number := Nat.div_add_mod number 10
        simp only [gather, last, whole, if_pos fits]

/-! ## Integers -/

def NumberText.ofInt (value : Int) : NumberText :=
  ⟨decide (value < 0), ofNat value.natAbs, [], none⟩

def Fits (value : Int) : Prop :=
  -9223372036854775808 ≤ value ∧ value < 18446744073709551616

theorem NumberText.wellFormed_ofInt (value : Int) : (NumberText.ofInt value).WellFormed where
  whole := isWhole_ofNat _
  fraction := nofun
  exponent := nofun

theorem NumberText.render_ofInt (value : Int) :
    (NumberText.ofInt value).render = ofText (toString value) := by
  rw [render_eq, Int.toString_eq_repr, Int.repr_eq_if]
  rcases Int.lt_or_le value 0 with negative | positive
  · have size : value.natAbs = (-value).toNat := by omega
    simp only [ofInt, negative, decide_true, if_true, size, if_neg (Int.not_le.mpr negative)]
    simp [renderFraction, renderExponent, ofNat]
    rfl
  · have size : value.natAbs = value.toNat := by omega
    simp only [ofInt, Int.not_lt.mpr positive, decide_false, size, if_pos positive]
    simp [renderFraction, renderExponent, ofNat]

theorem Num.ofText?_ofInt (fits : Fits value) :
    Num.ofText? (.ofInt value) = some (.integer value) := by
  unfold Fits at fits
  have read : gather 0 (ofNat value.natAbs) = (value.natAbs, []) :=
    gather_ofNat (show _ < 2 ^ 64 by omega)
  unfold ofText?
  simp only [NumberText.ofInt, read]
  rcases Int.lt_or_le value 0 with negative | positive
  · have size : 0 < value.natAbs ∧ value.natAbs ≤ Nat.pow 2 63 :=
      ⟨by omega, show _ ≤ 2 ^ 63 by omega⟩
    have magnitude : (-(value.natAbs : Int)) = value := by omega
    simp only [negative, size, magnitude, List.isEmpty_nil, Option.isNone_none, decide_true,
      Bool.and_self, Bool.not_true, Bool.false_eq_true, and_self, if_true, if_false]
  · have magnitude : (value.natAbs : Int) = value := by omega
    simp only [Int.not_lt.mpr positive, magnitude, List.isEmpty_nil, Option.isNone_none,
      decide_false, Bool.and_self, Bool.not_false, if_true]

end Json

end Outpost
