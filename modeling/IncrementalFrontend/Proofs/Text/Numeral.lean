import Mathlib.Data.List.Induction
import IncrementalFrontend.Text.Numeral

/-!
The numerals that are read. Every nonempty string of digits is the decimal notation of its value
behind some zeros, so the texts read as a value are its notations with zeros and a sign in front.
-/
namespace IncrementalFrontend.Text

/-- A text writes a value: an optional plus sign, zeros, and the decimal digits of the value. -/
def IsNumeral (value : Nat) (text : String) : Prop :=
  ∃ sign zeros, (sign = [] ∨ sign = ['+']) ∧
    text.toList = sign ++ (List.replicate zeros '0' ++ Nat.toDigits 10 value)

variable {digits : List Char} {text : String} {value bound : Nat}

theorem digitsValue_zeros (zeros value : Nat) :
    digitsValue (List.replicate zeros '0' ++ Nat.toDigits 10 value) = value := by
  induction zeros with
  | zero => exact Nat.ofDigitChars_toDigits (by decide) (by decide)
  | succ zeros ih => exact ih

theorem digitsValue_concat (digits : List Char) (c : Char) :
    digitsValue (digits ++ [c]) = 10 * digitsValue digits + (c.toNat - '0'.toNat) := by
  simp [digitsValue]

theorem toDigits_of_isDigit {c : Char} (digit : c.isDigit) :
    c.toNat - '0'.toNat < 10 ∧ Nat.toDigits 10 (c.toNat - '0'.toNat) = [c] := by
  have range : '0'.toNat ≤ c.toNat ∧ c.toNat ≤ '9'.toNat := Char.isDigit_iff_toNat.mp digit
  have small : c.toNat - '0'.toNat < 10 := by
    have := (by decide : '0'.toNat = 48 ∧ '9'.toNat = 57)
    omega
  refine ⟨small, ?_⟩
  rw [Nat.toDigits_of_lt_base small, List.cons.injEq]
  refine ⟨Char.toNat_inj.mp ?_, rfl⟩
  rw [Nat.toNat_digitChar_of_lt_ten small]
  exact Nat.add_sub_of_le range.1

theorem exists_zeros (nonempty : digits ≠ []) (all : ∀ c ∈ digits, c.isDigit) :
    ∃ zeros, digits = List.replicate zeros '0' ++ Nat.toDigits 10 (digitsValue digits) := by
  induction digits using List.reverseRecOn with
  | nil => contradiction
  | append_singleton front c ih =>
    obtain ⟨small, last⟩ := toDigits_of_isDigit (all c (by simp))
    rw [digitsValue_concat]
    by_cases none : front = []
    · exact ⟨0, by simpa [none, digitsValue] using last.symm⟩
    obtain ⟨zeros, same⟩ := ih none fun c member => all c (List.mem_append_left _ member)
    by_cases zero : digitsValue front = 0
    · -- The digits so far are zeros, the one that writes their value among them.
      refine ⟨zeros + 1, ?_⟩
      rw [zero] at same ⊢
      rw [same, Nat.mul_zero, Nat.zero_add, last, List.replicate_succ']
      rfl
    · refine ⟨zeros, ?_⟩
      conv_lhs => rw [same]
      rw [← Nat.toDigits_append_toDigits (by decide) (Nat.pos_of_ne_zero zero) small, last,
        List.append_assoc]

theorem isDigit_of_mem_zeros {zeros : Nat} {c : Char}
    (member : c ∈ List.replicate zeros '0' ++ Nat.toDigits 10 value) : c.isDigit := by
  rcases List.mem_append.mp member with zero | digit
  · rw [List.eq_of_mem_replicate zero]
    decide
  · exact Nat.isDigit_of_mem_toDigits (by decide) (by decide) digit

theorem numeralDigits_of_isDigit (all : ∀ c ∈ digits, c.isDigit) : numeralDigits digits = digits := by
  unfold numeralDigits
  split
  · exact absurd (all '+' List.mem_cons_self) (by decide)
  · rfl

theorem IsNumeral.exists_digits (numeral : IsNumeral value text) :
    ∃ zeros, numeralDigits text.toList = List.replicate zeros '0' ++ Nat.toDigits 10 value := by
  obtain ⟨sign, zeros, rfl | rfl, same⟩ := numeral
  · exact ⟨zeros, by rw [same]; exact numeralDigits_of_isDigit fun _ => isDigit_of_mem_zeros⟩
  · exact ⟨zeros, by rw [same]; rfl⟩

theorem isNumeral_of_digits {zeros : Nat}
    (same : numeralDigits text.toList = List.replicate zeros '0' ++ Nat.toDigits 10 value) :
    IsNumeral value text := by
  unfold numeralDigits at same
  split at same
  · next digits written => exact ⟨['+'], zeros, .inr rfl, by rw [written, same]; rfl⟩
  · exact ⟨[], zeros, .inl rfl, same⟩

/-- The numerals below a bound are read, each as its value, and nothing else is. -/
theorem readNumeral_eq_some_iff :
    readNumeral bound text = some value ↔ IsNumeral value text ∧ value < bound := by
  simp only [readNumeral, Option.ite_none_right_eq_some, Option.some.injEq]
  constructor
  · rintro ⟨⟨nonempty, all, fits⟩, rfl⟩
    obtain ⟨zeros, same⟩ := exists_zeros nonempty (List.all_eq_true.mp all)
    exact ⟨isNumeral_of_digits same, fits⟩
  · rintro ⟨numeral, fits⟩
    obtain ⟨zeros, same⟩ := numeral.exists_digits
    rw [same, digitsValue_zeros]
    exact ⟨⟨by simp, List.all_eq_true.mpr fun _ => isDigit_of_mem_zeros, fits⟩, rfl⟩

end IncrementalFrontend.Text
