import Mathlib.Data.Nat.Digits.Defs

/-! Decimal numerals. A number is written by its digits in base ten, with any number of zeros before
them, and a text of digits is the numeral of one number. -/

namespace PolicyReview.Text

variable {cs : List Char} {c : Char} {n : Nat} {digits : List Nat}

/-- Digits of a number in base ten, the most significant first. -/
def IsDecimal (cs : List Char) (n : Nat) : Prop :=
  ∃ digits : List Nat, digits ≠ [] ∧ (∀ digit ∈ digits, digit < 10) ∧
    cs = digits.map Nat.digitChar ∧ n = Nat.ofDigits 10 digits.reverse

theorem notMem_toDigits (other : c.isDigit = false) : c ∉ Nat.toDigits 10 n := by
  intro inside
  rw [Nat.isDigit_of_mem_toDigits (by decide) (by decide) inside] at other
  cases other

theorem toDigits_injective : Function.Injective (Nat.toDigits 10) :=
  Function.LeftInverse.injective fun _ => Nat.ofDigitChars_ten_toDigits

theorem digitChar_of_isDigit (digit : c.isDigit = true) : Nat.digitChar (c.toNat - 48) = c := by
  have range : 48 ≤ c.toNat ∧ c.toNat ≤ 57 := Char.isDigit_iff_toNat.1 digit
  have code : (Nat.digitChar (c.toNat - 48)).toNat = c.toNat :=
    calc (Nat.digitChar (c.toNat - 48)).toNat
      _ = 48 + (c.toNat - 48) := Nat.toNat_digitChar_of_lt_ten (by omega)
      _ = c.toNat := Nat.add_sub_cancel' range.1
  exact Char.toNat_inj.1 code

theorem ofDigitChars_digits (each : ∀ digit ∈ digits, digit < 10) (start : Nat) :
    Nat.ofDigitChars 10 (digits.map Nat.digitChar) start =
      10 ^ digits.length * start + Nat.ofDigits 10 digits.reverse := by
  induction digits generalizing start with
  | nil => simp
  | cons digit rest ih =>
    obtain ⟨small, later⟩ := List.forall_mem_cons.1 each
    have value : (Nat.digitChar digit).toNat - '0'.toNat = digit := by
      rw [Nat.toNat_digitChar_of_lt_ten small]
      exact Nat.add_sub_cancel_left 48 digit
    calc Nat.ofDigitChars 10 ((digit :: rest).map Nat.digitChar) start
      _ = Nat.ofDigitChars 10 (rest.map Nat.digitChar) (10 * start + digit) := by
        rw [List.map_cons, Nat.ofDigitChars_cons, value]
      _ = 10 ^ rest.length * (10 * start + digit) + Nat.ofDigits 10 rest.reverse := ih later _
      _ = 10 ^ (rest.length + 1) * start + Nat.ofDigits 10 (digit :: rest).reverse := by
        rw [Nat.ofDigits_reverse_cons, pow_succ]
        ring

/-- A numeral is a text of digits, and the number is what they add up to from left to right. -/
theorem isDecimal_iff : IsDecimal cs n ↔
    cs ≠ [] ∧ (∀ c ∈ cs, c.isDigit = true) ∧ Nat.ofDigitChars 10 cs 0 = n := by
  constructor
  · rintro ⟨digits, filled, each, rfl, rfl⟩
    refine ⟨by simpa using filled, fun c member => ?_, ?_⟩
    · obtain ⟨digit, inside, rfl⟩ := List.mem_map.1 member
      rw [Nat.isDigit_digitChar]
      exact decide_eq_true (each digit inside)
    · rw [ofDigitChars_digits each, Nat.mul_zero, Nat.zero_add]
  · rintro ⟨filled, each, rfl⟩
    have spelt : (cs.map fun c => c.toNat - 48).map Nat.digitChar = cs := by
      rw [List.map_map]
      exact (List.map_congr_left fun c inside => digitChar_of_isDigit (each c inside)).trans
        (List.map_id cs)
    have small : ∀ digit ∈ cs.map fun c => c.toNat - 48, digit < 10 := by
      intro digit member
      obtain ⟨c, inside, rfl⟩ := List.mem_map.1 member
      have range : 48 ≤ c.toNat ∧ c.toNat ≤ 57 := Char.isDigit_iff_toNat.1 (each c inside)
      omega
    have value := ofDigitChars_digits small 0
    rw [spelt, Nat.mul_zero, Nat.zero_add] at value
    exact ⟨_, by simpa using filled, small, spelt.symm, value⟩

theorem isDecimal_toDigits (n : Nat) : IsDecimal (Nat.toDigits 10 n) n :=
  isDecimal_iff.2 ⟨Nat.toDigits_ne_nil,
    fun _ => Nat.isDigit_of_mem_toDigits (by decide) (by decide), Nat.ofDigitChars_ten_toDigits⟩

end PolicyReview.Text
