import Mathlib.Data.String.Basic
import PolicyReview.Text.Utf8

/-! The order of texts is that of their bytes in UTF-8. The bytes of a character say which of two
characters is below the other, and no byte string of one starts that of another. -/

namespace PolicyReview.Text

open String

theorem bytes_eq (text : String) : bytes text = text.toList.flatMap utf8EncodeChar := by
  have encoded : text.toList.utf8Encode = text.toByteArray := String.utf8Encode_toList
  rw [bytes, ← encoded, List.utf8Encode, List.data_toByteArray]

theorem codePoint_lt (c : Char) : c.val.toNat < 0x110000 := by
  have valid := c.valid
  simp only [UInt32.isValidChar, Nat.isValidChar] at valid
  omega

/-- Whatever follows them, the bytes of a lower character are below. -/
theorem utf8EncodeChar_lt {c d : Char} (below : c < d) (after later : List UInt8) :
    utf8EncodeChar c ++ after < utf8EncodeChar d ++ later := by
  have below : c.val.toNat < d.val.toNat := below
  have bound := codePoint_lt d
  have small : ∀ k < 256, (UInt8.ofNat k).toNat = k := fun k bound =>
    UInt8.toNat_ofNat_of_lt' bound
  have nested : ∀ k, k / 4096 = k / 64 / 64 ∧ k / 262144 = k / 64 / 64 / 64 := by omega
  simp only [utf8EncodeChar, nested]
  generalize c.val.toNat = n at *
  generalize d.val.toNat = m at *
  split_ifs <;>
    simp (disch := omega) only [List.cons_append, List.nil_append, List.cons_lt_cons_iff,
      UInt8.lt_iff_toNat_lt, ← UInt8.toNat_inj, small] <;>
    omega

theorem utf8EncodeChar_ne_nil (c : Char) : utf8EncodeChar c ≠ [] := by
  simp only [utf8EncodeChar]
  split_ifs <;> simp

theorem flatMap_utf8EncodeChar_lt {first second : List Char} (below : first < second) :
    first.flatMap utf8EncodeChar < second.flatMap utf8EncodeChar := by
  induction first generalizing second with
  | nil =>
    cases second with
    | nil => exact absurd below (List.lt_irrefl _)
    | cons d later =>
      rw [List.flatMap_cons]
      obtain ⟨byte, rest, bytes⟩ := List.exists_cons_of_ne_nil (utf8EncodeChar_ne_nil d)
      rw [bytes]
      exact List.nil_lt_cons _ _
  | cons c rest ih =>
    cases second with
    | nil => exact absurd below (List.not_lt_nil _)
    | cons d later =>
      rw [List.flatMap_cons, List.flatMap_cons]
      rcases List.cons_lt_cons_iff.1 below with lower | ⟨rfl, remaining⟩
      · exact utf8EncodeChar_lt lower _ _
      · exact List.append_left_lt (ih remaining)

theorem lt_iff_bytes_lt {first second : String} : first < second ↔ bytes first < bytes second := by
  have increasing : ∀ {first second : String}, first < second → bytes first < bytes second := by
    intro first second below
    rw [bytes_eq, bytes_eq]
    exact flatMap_utf8EncodeChar_lt (String.lt_iff_toList_lt.1 below)
  refine ⟨increasing, fun below => ?_⟩
  rcases lt_trichotomy first second with lower | rfl | higher
  · exact lower
  · exact absurd below (List.lt_irrefl _)
  · exact absurd below (List.lt_asymm (increasing higher))

theorem le_iff_bytes_le {first second : String} : first ≤ second ↔ bytes first ≤ bytes second := by
  rw [← not_lt, lt_iff_bytes_lt, List.not_lt]

end PolicyReview.Text
