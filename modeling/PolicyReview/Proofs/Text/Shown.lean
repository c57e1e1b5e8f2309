import PolicyReview.Proofs.Text.ByteOrder

/-! Texts behind bytes. The bytes of a text are shown as the text, so that bytes of texts are told
apart by what they are shown as. -/

namespace PolicyReview.Text

open String

variable {first second : Bytes}

/-- Bytes that are those of a text. -/
def IsText (shape : Bytes) : Prop := ∃ text, bytes text = shape

theorem bytes_append (first second : String) :
    bytes (first ++ second) = bytes first ++ bytes second := by
  rw [bytes_eq, bytes_eq, bytes_eq, String.toList_append, List.flatMap_append]

theorem IsText.append (one : IsText first) (two : IsText second) : IsText (first ++ second) := by
  obtain ⟨one, rfl⟩ := one
  obtain ⟨two, rfl⟩ := two
  exact ⟨one ++ two, bytes_append one two⟩

theorem continueCode_cons {count low high code : Nat} {byte : UInt8} {rest : Bytes}
    (above : low ≤ byte.toNat) (below : byte.toNat ≤ high) :
    continueCode (count + 1) low high code (byte :: rest) =
      continueCode count 0x80 0xbf (64 * code + byte.toNat % 64) rest :=
  if_pos ⟨above, below⟩

theorem laterBytes?_three {first : Nat} (above : 0xe0 ≤ first) (below : first ≤ 0xef) :
    laterBytes? first = some (if first = 0xe0 then 0xa0 else 0x80,
      if first = 0xed then 0x9f else 0xbf, 2) := by
  rw [laterBytes?, if_neg (by omega)]
  split_ifs <;> first | rfl | omega

theorem laterBytes?_four {first : Nat} (above : 0xf0 ≤ first) (below : first ≤ 0xf4) :
    laterBytes? first = some (if first = 0xf0 then 0x90 else 0x80,
      if first = 0xf4 then 0x8f else 0xbf, 3) := by
  rw [laterBytes?, if_neg (by omega), if_neg (by omega), if_neg (by omega), if_neg (by omega)]
  split_ifs <;> first | rfl | omega

theorem firstChar_of_code {byte : UInt8} {number low high count code : Nat} {later rest : Bytes}
    (same : byte.toNat = number) (above : 0x80 ≤ number)
    (bounds : laterBytes? number = some (low, high, count))
    (read : continueCode count low high (number % Nat.pow 2 (6 - count)) later =
      (some code, rest)) : firstChar byte later = (Char.ofNat code, rest) := by
  subst same
  rw [firstChar, if_neg (Nat.not_lt.2 above), bounds]
  simp only [read]

/-- A character is read from its bytes, whatever follows them. -/
theorem firstChar_encoded (c : Char) : ∃ byte later, utf8EncodeChar c = byte :: later ∧
    ∀ rest, firstChar byte (later ++ rest) = (c, rest) := by
  have valid : c.val.toNat < 0xd800 ∨ 0xdfff < c.val.toNat ∧ c.val.toNat < 0x110000 := c.valid
  have whole : Char.ofNat c.val.toNat = c := Char.ofNat_toNat c
  have small : ∀ k < 256, (UInt8.ofNat k).toNat = k := fun k bound =>
    UInt8.toNat_ofNat_of_lt' bound
  simp only [utf8EncodeChar]
  generalize c.val.toNat = n at *
  subst whole
  have last := small (n % 64 + 128) (by omega)
  have middle := small (n / 64 % 64 + 128) (by omega)
  split_ifs with one two three
  · refine ⟨_, _, rfl, fun rest => ?_⟩
    have byte := small n (by omega)
    rw [firstChar, byte, if_pos (by omega)]
    rfl
  · refine ⟨_, _, rfl, fun rest => ?_⟩
    refine firstChar_of_code (small (n / 64 % 32 + 192) (by omega)) (by omega)
      (if_pos (by omega)) ?_
    rw [List.cons_append, List.nil_append, continueCode_cons (by omega) (by omega), last,
      continueCode]
    simp only [Nat.pow_eq, Prod.mk.injEq, Option.some.injEq, and_true]
    omega
  · refine ⟨_, _, rfl, fun rest => ?_⟩
    refine firstChar_of_code (small (n / 4096 % 16 + 224) (by omega)) (by omega)
      (laterBytes?_three (by omega) (by omega)) ?_
    simp only [List.cons_append, List.nil_append]
    rw [continueCode_cons (by split_ifs <;> omega) (by split_ifs <;> omega),
      continueCode_cons (by omega) (by omega), middle, last, continueCode]
    simp only [Nat.pow_eq, Prod.mk.injEq, Option.some.injEq, and_true]
    omega
  · have second := small (n / 4096 % 64 + 128) (by omega)
    refine ⟨_, _, rfl, fun rest => ?_⟩
    refine firstChar_of_code (small (n / 262144 % 8 + 240) (by omega)) (by omega)
      (laterBytes?_four (by omega) (by omega)) ?_
    simp only [List.cons_append, List.nil_append]
    rw [continueCode_cons (by split_ifs <;> omega) (by split_ifs <;> omega),
      continueCode_cons (by omega) (by omega), continueCode_cons (by omega) (by omega), second,
      middle, last, continueCode]
    simp only [Nat.pow_eq, Prod.mk.injEq, Option.some.injEq, and_true]
    omega

theorem decodeFrom_encoded {cs : List Char} {fuel : Nat}
    (enough : (cs.flatMap utf8EncodeChar).length ≤ fuel) :
    decodeFrom fuel (cs.flatMap utf8EncodeChar) = cs := by
  induction cs generalizing fuel with
  | nil => cases fuel <;> rfl
  | cons c rest ih =>
    obtain ⟨byte, later, encoded, read⟩ := firstChar_encoded c
    rw [List.flatMap_cons, encoded, List.cons_append] at enough ⊢
    obtain ⟨fuel, rfl⟩ := Nat.exists_eq_add_of_le' (Nat.one_le_of_lt enough)
    rw [decodeFrom, read]
    rw [List.length_cons, List.length_append] at enough
    exact congrArg (c :: ·) (ih (by omega))

/-- The bytes of a text are shown as the text. -/
theorem shown_bytes (text : String) : shown (bytes text) = text := by
  rw [shown, decodeBytes, bytes_eq, decodeFrom_encoded (Nat.le_refl _), String.ofList_toList]

theorem IsText.bytes_shown (isText : IsText first) : bytes (shown first) = first := by
  obtain ⟨text, rfl⟩ := isText
  rw [shown_bytes]

end PolicyReview.Text
