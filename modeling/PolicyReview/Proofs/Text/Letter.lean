/-! Letters from A to Z, large and small, told from everything else by their numbers. A large letter
has a small one; all else is left as it is. -/

namespace PolicyReview.Text

variable {c : Char}

theorem isUpper_iff : c.isUpper = true ↔ 65 ≤ c.toNat ∧ c.toNat ≤ 90 :=
  decide_eq_true_iff

theorem isLower_iff : c.isLower = true ↔ 97 ≤ c.toNat ∧ c.toNat ≤ 122 :=
  Bool.and_eq_true_iff.trans (and_congr decide_eq_true_iff decide_eq_true_iff)

theorem isAlpha_iff : c.isAlpha = true ↔ c.isUpper = true ∨ c.isLower = true :=
  Bool.or_eq_true_iff

theorem not_isAlpha_of_isDigit (digit : c.isDigit = true) : ¬c.isAlpha = true := by
  have range : 48 ≤ c.toNat ∧ c.toNat ≤ 57 := Char.isDigit_iff_toNat.1 digit
  rw [isAlpha_iff, isUpper_iff, isLower_iff]
  omega

theorem not_isUpper_of_isLower (small : c.isLower = true) : c.isUpper = false := by
  rw [Bool.eq_false_iff, Ne, isUpper_iff]
  have range := isLower_iff.1 small
  omega

theorem toLower_of_not_isUpper (other : c.isUpper = false) : c.toLower = c :=
  dif_neg (of_decide_eq_false other)

theorem isLower_toLower (capital : c.isUpper = true) : c.toLower.isLower = true := by
  have range := isUpper_iff.1 capital
  have moved : c.toLower.toNat = c.toNat + 32 := by
    have value : c.toLower.val = c.val + 32 :=
      congrArg Char.val (dif_pos (of_decide_eq_true capital))
    change c.toLower.val.toNat = c.val.toNat + 32
    have bound : c.val.toNat ≤ 90 := range.2
    rw [value, UInt32.toNat_add, Nat.mod_eq_of_lt (by simp; omega)]
    rfl
  rw [isLower_iff, moved]
  omega

theorem isUpper_toLower (c : Char) : c.toLower.isUpper = false := by
  cases capital : c.isUpper with
  | true => exact not_isUpper_of_isLower (isLower_toLower capital)
  | false => rw [toLower_of_not_isUpper capital, capital]

end PolicyReview.Text
