import PolicyReview.Number
import PolicyReview.Proofs.Text.Numeral
import Mathlib.Data.List.Basic
import Mathlib.Tactic.SplitIfs

/-! Texts of numbers. A binary number has a point or an exponent in its text and an integer has neither,
so that the text keeps the two kinds apart; and an integer is told by its digits. -/

namespace PolicyReview.Number

variable {c : Char} {cs rest rest' : List Char} {m n : Int} {number other : Number}

def isTextChar (c : Char) : Bool := c.isDigit || c = '-' || c = '+' || c = '.' || c = 'e'

def IsText (cs : List Char) : Prop := ∀ c ∈ cs, isTextChar c = true

theorem isText_cons : IsText (c :: cs) ↔ isTextChar c = true ∧ IsText cs := List.forall_mem_cons

theorem IsText.append {cs ds : List Char} (first : IsText cs) (second : IsText ds) :
    IsText (cs ++ ds) :=
  List.forall_mem_append.2 ⟨first, second⟩

theorem isText_toDigits (k : Nat) : IsText (Nat.toDigits 10 k) := by
  intro c member
  simp [isTextChar, Nat.isDigit_of_mem_toDigits (by decide) (by decide) member]

theorem isText_zeros (k : Nat) : IsText (List.replicate k '0') := by
  intro c member
  rw [List.eq_of_mem_replicate member]
  rfl

theorem isText_sign (negative : Bool) : IsText (if negative then ['-'] else []) := by
  cases negative <;> simp [IsText, isTextChar]

/-! Binary numbers. -/

/-- The text of a number, with a point or an exponent in it. -/
structure IsMarked (cs : List Char) : Prop where
  isText : IsText cs
  marked : '.' ∈ cs ∨ 'e' ∈ cs

theorem IsMarked.of_point {before after : List Char} (first : IsText before)
    (second : IsText after) : IsMarked (before ++ '.' :: after) :=
  ⟨first.append (isText_cons.2 ⟨rfl, second⟩), by simp⟩

theorem IsMarked.of_exponent {before after : List Char} (first : IsText before)
    (second : IsText after) : IsMarked (before ++ 'e' :: after) :=
  ⟨first.append (isText_cons.2 ⟨rfl, second⟩), by simp⟩

theorem isMarked_text (x : Binary64) : IsMarked x.text := by
  have sign := isText_sign x.isNegative
  have digits := isText_toDigits x.shortest.1
  have zero : IsText ['0'] := isText_zeros 1
  rw [Binary64.text]
  split
  next => simpa using IsMarked.of_point (sign.append zero) zero
  next =>
  dsimp only
  generalize Nat.toDigits 10 x.shortest.1 = ds at *
  split
  · split
    next => exact .of_point ((sign.append digits).append (isText_zeros _)) zero
    split
    next =>
      have start : IsText (ds.take ((x.shortest.2 + ds.length - 1).toNat + 1)) :=
        fun c member => digits c (List.mem_of_mem_take member)
      have end' : IsText (ds.drop ((x.shortest.2 + ds.length - 1).toNat + 1)) :=
        fun c member => digits c (List.mem_of_mem_drop member)
      simpa using IsMarked.of_point (sign.append start) end'
    next => simpa using IsMarked.of_point (sign.append zero) ((isText_zeros _).append digits)
  · refine .of_exponent (sign.append ?_) ?_
    · split
      next =>
        obtain ⟨first, others⟩ := isText_cons.1 digits
        exact isText_cons.2 ⟨first, isText_cons.2 ⟨rfl, others⟩⟩
      next => exact digits
    · refine isText_cons.2 ⟨?_, isText_toDigits _⟩
      split <;> rfl

/-! Integers. -/

theorem intText_chars (member : c ∈ intText n) : c = '-' ∨ c.isDigit = true := by
  rw [intText, List.mem_append] at member
  rcases member with sign | digit
  · split at sign
    · exact .inl (List.mem_singleton.1 sign)
    · cases sign
  · exact .inr (Nat.isDigit_of_mem_toDigits (by decide) (by decide) digit)

theorem intText_injective (same : intText m = intText n) : m = n := by
  have unsigned (k : Nat) (rest : List Char) : '-' :: rest ≠ Nat.toDigits 10 k := fun signed =>
    Text.notMem_toDigits rfl (signed ▸ List.mem_cons_self : '-' ∈ Nat.toDigits 10 k)
  rw [intText, intText] at same
  split at same <;> split at same
  next =>
    have magnitudes := Text.toDigits_injective (List.cons.inj same).2
    omega
  next => exact absurd same (unsigned _ _)
  next => exact absurd same.symm (unsigned _ _)
  next =>
    have magnitudes := Text.toDigits_injective same
    omega

/-! Both kinds. -/

theorem isText_text (number : Number) : IsText number.text := by
  cases number with
  | int n =>
    intro c member
    rcases intText_chars member with rfl | digit
    · rfl
    · simp [isTextChar, digit]
  | float x => exact (isMarked_text x).isText

theorem text_ne_nil (number : Number) : number.text ≠ [] := by
  cases number with
  | int n => exact List.append_ne_nil_of_right_ne_nil _ Nat.toDigits_ne_nil
  | float x =>
    rcases (isMarked_text x).marked with inside | inside <;> exact List.ne_nil_of_mem inside

theorem isInt_iff (number : Number) :
    number.isInt = true ↔ '.' ∉ number.text ∧ 'e' ∉ number.text := by
  cases number with
  | int n =>
    have outside {c : Char} (mark : ¬(c = '-' ∨ c.isDigit = true)) : c ∉ (int n).text :=
      fun inside => mark (intText_chars inside)
    exact iff_of_true rfl ⟨outside (by decide), outside (by decide)⟩
  | float x =>
    refine iff_of_false nofun ?_
    rintro ⟨point, exponent⟩
    exact (isMarked_text x).marked.elim point exponent

/-- The two numbers are one integer, or binary numbers of one text. -/
inductive Alike : Number → Number → Prop where
  | int (n : Int) : Alike (.int n) (.int n)
  | float {x y : Binary64} (same : x.text = y.text) : Alike (.float x) (.float y)

theorem alike_of_text (same : number.text = other.text) : Alike number other := by
  have kinds : number.isInt = true ↔ other.isInt = true := by rw [isInt_iff, isInt_iff, same]
  cases number with
  | int m =>
    cases other with
    | int n => exact intText_injective same ▸ .int m
    | float y => cases kinds.1 rfl
  | float x =>
    cases other with
    | int n => cases kinds.2 rfl
    | float y => exact .float same

/-- The text of a number does not go on with what follows. -/
def Ends (rest : List Char) : Prop := ∀ c ∈ rest.head?, isTextChar c = false

theorem ends_nil : Ends [] := by simp [Ends]

theorem takeWhile_text (ends : Ends rest) :
    (number.text ++ rest).takeWhile isTextChar = number.text := by
  rw [List.takeWhile_append_of_pos (isText_text number)]
  cases rest with
  | nil => rw [List.takeWhile_nil, List.append_nil]
  | cons c later => rw [List.takeWhile_cons_of_neg (by simp [ends c rfl]), List.append_nil]

/-- Where it ends, the text of a number is told from what follows. -/
theorem text_append_inj (ends : Ends rest) (ends' : Ends rest')
    (same : number.text ++ rest = other.text ++ rest') :
    number.text = other.text ∧ rest = rest' := by
  have texts : number.text = other.text := by
    rw [← takeWhile_text ends, same, takeWhile_text ends']
  exact ⟨texts, List.append_cancel_left (texts ▸ same)⟩

end PolicyReview.Number
