import PolicyReview.Json.Reader
import PolicyReview.Json.Text
import Mathlib.Tactic.IntervalCases

/-! Texts in quotes. What is written for a text reads back as the text, whatever characters it has,
and has no control character, which a line break would be. -/

namespace PolicyReview.Json

variable {c : Char} {fuel : Nat} {read rest : List Char}

theorem readString?_plain (quote : c ≠ '\x22') (slash : c ≠ '\\') (visible : 32 ≤ c.toNat) :
    readString? (fuel + 1) read (c :: rest) = readString? fuel (c :: read) rest := by
  rw [readString?]
  · rw [if_neg (by simp [slash]; omega)]
  · exact quote
  · rintro _ _ rfl
    exact absurd rfl slash

theorem readString?_control (control : c.toNat < 32) :
    readString? (fuel + 1) read
      (['\\', 'u', '0', '0', hexDigit (c.toNat / 16), hexDigit c.toNat] ++ rest) =
        readString? fuel (c :: read) rest := by
  have same : c = Char.ofNat c.toNat := (Char.ofNat_toNat c).symm
  generalize c.toNat = n at *
  subst same
  interval_cases n <;> rfl

/-- What is written for a character reads back as the character. -/
theorem readString?_escape (c : Char) :
    readString? (fuel + 1) read (escape c ++ rest) = readString? fuel (c :: read) rest := by
  by_cases special : c ∈ ['\x22', '\\', '\x08', '\x0c', '\n', '\r', '\t']
  · simp only [List.mem_cons, List.not_mem_nil, or_false] at special
    rcases special with rfl | rfl | rfl | rfl | rfl | rfl | rfl <;> rfl
  · simp only [List.mem_cons, List.not_mem_nil, or_false, not_or] at special
    by_cases control : c.toNat < 32
    · simpa [escape, special, control] using readString?_control control
    · simpa [escape, special, control] using
        readString?_plain special.1 special.2.1 (Nat.le_of_not_lt control)

theorem readString?_text {text : List Char} (enough : text.length < fuel) :
    readString? fuel read (text.flatMap escape ++ '\x22' :: rest) =
      some (String.ofList (read.reverse ++ text), rest) := by
  induction text generalizing fuel read with
  | nil =>
    obtain ⟨fuel, rfl⟩ := Nat.exists_eq_add_of_lt enough
    rw [List.append_nil]
    rfl
  | cons c text ih =>
    obtain ⟨fuel, rfl⟩ := Nat.exists_eq_succ_of_ne_zero (Nat.ne_zero_of_lt enough)
    rw [List.flatMap_cons, List.append_assoc, readString?_escape, ih (Nat.lt_of_succ_lt_succ enough)]
    simp

theorem length_le_escape (text : List Char) : text.length ≤ (text.flatMap escape).length := by
  induction text with
  | nil => exact Nat.le_refl 0
  | cons c text ih =>
    have one : 1 ≤ (escape c).length := by
      unfold escape
      split_ifs <;> simp
    rw [List.flatMap_cons, List.length_append, List.length_cons]
    omega

/-! Control characters. -/

/-- No character is a control character. -/
def IsPlain (cs : List Char) : Prop := ∀ c ∈ cs, 32 ≤ c.toNat

instance (cs : List Char) : Decidable (IsPlain cs) :=
  decidable_of_iff (cs.all (32 ≤ ·.toNat) = true) (by simp [IsPlain])

theorem IsPlain.not_mem {cs : List Char} (plain : IsPlain cs) : '\n' ∉ cs :=
  fun inside => absurd (plain '\n' inside) (by decide)

theorem isPlain_cons {cs : List Char} : IsPlain (c :: cs) ↔ 32 ≤ c.toNat ∧ IsPlain cs :=
  List.forall_mem_cons

theorem IsPlain.append {cs ds : List Char} (first : IsPlain cs) (second : IsPlain ds) :
    IsPlain (cs ++ ds) :=
  List.forall_mem_append.2 ⟨first, second⟩

theorem isPlain_escape (c : Char) : IsPlain (escape c) := by
  by_cases control : c.toNat < 32
  · have same : c = Char.ofNat c.toNat := (Char.ofNat_toNat c).symm
    generalize c.toNat = n at *
    subst same
    interval_cases n <;> decide
  · have visible : 32 ≤ c.toNat := Nat.le_of_not_lt control
    unfold IsPlain escape
    split_ifs <;> simp [visible]

theorem isPlain_quote (text : String) : IsPlain (quote text) := by
  have inner : IsPlain (text.toList.flatMap escape) := by
    intro c inside
    obtain ⟨d, -, escaped⟩ := List.mem_flatMap.1 inside
    exact isPlain_escape d c escaped
  exact isPlain_cons.2 ⟨by decide, inner.append (by decide)⟩

theorem isPlain_itemChars {items : List Json} (each : ∀ item ∈ items, IsPlain item.chars) :
    IsPlain (itemChars items) := by
  induction items with
  | nil => exact List.forall_mem_nil _
  | cons item rest ih =>
    obtain ⟨here, others⟩ := List.forall_mem_cons.1 each
    cases rest with
    | nil => exact here
    | cons next rest => exact here.append (isPlain_cons.2 ⟨by decide, ih others⟩)

theorem isPlain_fieldChars {fields : Fields}
    (each : ∀ field ∈ fields, IsPlain field.2.chars) : IsPlain (fieldChars fields) := by
  induction fields with
  | nil => exact List.forall_mem_nil _
  | cons field rest ih =>
    obtain ⟨here, others⟩ := List.forall_mem_cons.1 each
    have named := isPlain_quote field.1
    cases rest with
    | nil => exact named.append (isPlain_cons.2 ⟨by decide, here⟩)
    | cons next rest =>
      have value := isPlain_cons.2 ⟨show 32 ≤ ':'.toNat by decide, here⟩
      exact (named.append value).append (isPlain_cons.2 ⟨by decide, ih others⟩)

end PolicyReview.Json
