import Mathlib.Data.List.TakeDrop
import PolicyReview.Ancestry.Glob
import PolicyReview.Proofs.Ancestry.Canonical

/-! The spellings of glob tokens. A name has a few spellings, in letters of either case, and every
other token has one. The classification of a raw segment finds the token that it spells, and
refuses a segment that spells none. -/

namespace PolicyReview

namespace SegmentName

/-- The spellings of a name in lower case, the canonical one first. -/
def spellings : SegmentName → List String
  | organizations => ["organizations", "organization", "orgs", "org"]
  | folders => ["folders", "folder"]
  | projects => ["projects", "project"]

/-- Case aside, the segment is one of the spellings of the name. -/
def SpeltBy (name : SegmentName) (raw : String) : Prop := Ancestry.lower raw ∈ name.spellings

theorem segmentName?_eq_some {raw : String} {name : SegmentName} :
    Ancestry.segmentName? raw = some name ↔ name.SpeltBy raw := by
  unfold Ancestry.segmentName? SpeltBy
  constructor
  · intro found
    split at found <;> cases found <;> simp [spellings, *]
  · intro spelt
    generalize Ancestry.lower raw = lowered at *
    cases name with
    | organizations =>
      obtain rfl | rfl | rfl | rfl := by simpa [spellings] using spelt
      all_goals rfl
    | folders =>
      obtain rfl | rfl := by simpa [spellings] using spelt
      all_goals rfl
    | projects =>
      obtain rfl | rfl := by simpa [spellings] using spelt
      all_goals rfl

theorem text_mem_spellings (name : SegmentName) : name.text ∈ name.spellings := by
  cases name <;> simp [spellings, text]

theorem speltBy_text (name : SegmentName) : name.SpeltBy name.text := by
  cases name <;> simp [SpeltBy, spellings, text, Ancestry.lower]

theorem isLower_of_mem_spellings (name : SegmentName) :
    ∀ spelling ∈ name.spellings, ∀ c ∈ spelling.toList, c.isLower = true := by
  cases name <;> simp [spellings]

theorem SpeltBy.isAlpha {name : SegmentName} {raw : String} (spelt : name.SpeltBy raw) :
    ∀ c ∈ raw.toList, c.isAlpha = true := by
  intro c member
  rw [Text.isAlpha_iff]
  cases capital : c.isUpper with
  | true => exact .inl rfl
  | false =>
    have lowered : c ∈ (Ancestry.lower raw).toList := by
      simpa [Ancestry.lower] using ⟨c, member, Text.toLower_of_not_isUpper capital⟩
    exact .inr (isLower_of_mem_spellings name _ spelt _ lowered)

theorem SpeltBy.ne_empty {name : SegmentName} {raw : String} (spelt : name.SpeltBy raw) :
    raw ≠ "" := by
  rintro rfl
  cases name <;> simp [SpeltBy, spellings, Ancestry.lower] at spelt

end SegmentName

namespace GlobToken

structure IsNumber (digits : String) : Prop where
  isDigit : ∀ c ∈ digits.toList, c.isDigit = true
  positive : ∃ c ∈ digits.toList, c ≠ '0'

/-- The segments of a pattern that stand for a token. -/
inductive SpeltBy : GlobToken → String → Prop where
  | name {segment : SegmentName} {raw : String} :
      segment.SpeltBy raw → SpeltBy (.name segment) raw
  | id {digits : String} : IsNumber digits → SpeltBy (.id digits) digits
  | idPrefixed {digits : String} : IsNumber digits → SpeltBy (.idPrefixed digits) (digits ++ "*")
  | idPrefixedDeep {digits : String} :
      IsNumber digits → SpeltBy (.idPrefixedDeep digits) (digits ++ "**")
  | any : SpeltBy .any "*"
  | anyDeep : SpeltBy .anyDeep "**"

theorem speltBy_name {segment : SegmentName} {raw : String} :
    SpeltBy (.name segment) raw ↔ segment.SpeltBy raw := by
  refine ⟨fun spelt => ?_, .name⟩
  cases spelt with
  | name spelt => exact spelt

theorem isPositive_iff {digits : String} :
    Glob.isPositive digits.toList = true ↔ IsNumber digits := by
  simp only [Glob.isPositive, Bool.and_eq_true, List.all_eq_true, List.any_eq_true,
    decide_eq_true_eq]
  exact ⟨fun ⟨isDigit, positive⟩ => ⟨isDigit, positive⟩,
    fun number => ⟨number.isDigit, number.positive⟩⟩

theorem IsNumber.ne_star {digits : String} (number : IsNumber digits) {c : Char}
    (member : c ∈ digits.toList) : c ≠ '*' := by
  rintro rfl
  exact absurd (number.isDigit _ member) (by decide)

theorem IsNumber.segmentName? {digits : String} (number : IsNumber digits) (suffix : String) :
    Ancestry.segmentName? (digits ++ suffix) = none := by
  obtain ⟨c, member, -⟩ := number.positive
  rw [Option.eq_none_iff_forall_ne_some]
  intro name found
  have letter := (SegmentName.segmentName?_eq_some.1 found).isAlpha c (by simp [member])
  exact Text.not_isAlpha_of_isDigit (number.isDigit c member) letter

theorem IsNumber.span_stars {digits suffix : String} (number : IsNumber digits)
    (stars : ∀ c ∈ suffix.toList, c = '*') :
    (digits ++ suffix).toList.span (· ≠ '*') = (digits.toList, suffix.toList) := by
  have before : ∀ c ∈ digits.toList, (c ≠ '*' : Bool) = true := fun c inside => by
    simpa using number.ne_star inside
  rw [List.span_eq_takeWhile_dropWhile, String.toList_append,
    List.takeWhile_append_of_pos before, List.dropWhile_append_of_pos before]
  cases after : suffix.toList with
  | nil => simp
  | cons first rest => simp [stars first (by simp [after])]

theorem classify_number {digits : String} (number : IsNumber digits) (suffix : String)
    (stars : ∀ c ∈ suffix.toList, c = '*') :
    Glob.classify (digits ++ suffix) =
      match suffix.toList with
      | [] => .ok (.id digits)
      | ['*'] => .ok (.idPrefixed digits)
      | ['*', '*'] => .ok (.idPrefixedDeep digits)
      | _ => .error .badSuffix := by
  obtain ⟨c, member, -⟩ := number.positive
  have apart : ∀ other : String, c ∉ other.toList → digits ++ suffix ≠ other := by
    rintro other missing rfl
    exact missing (by simp [member])
  unfold Glob.classify
  rw [if_neg (apart "" (by simp)), if_neg (apart "*" (by simpa using number.ne_star member)),
    if_neg (apart "**" (by simpa using number.ne_star member)), number.segmentName?]
  simp only [number.span_stars stars, String.ofList_toList]
  exact if_pos (isPositive_iff.2 number)

theorem classify_name {name : SegmentName} {raw : String} (spelt : name.SpeltBy raw) :
    Glob.classify raw = .ok (.name name) := by
  have apart : ∀ other : String, '*' ∈ other.toList → raw ≠ other := by
    rintro other star rfl
    exact absurd (spelt.isAlpha '*' star) (by decide)
  unfold Glob.classify
  rw [if_neg spelt.ne_empty, if_neg (apart "*" (by simp)), if_neg (apart "**" (by simp)),
    SegmentName.segmentName?_eq_some.2 spelt]

theorem classify_eq_ok {raw : String} {token : GlobToken} :
    Glob.classify raw = .ok token ↔ token.SpeltBy raw := by
  constructor
  · intro read
    unfold Glob.classify at read
    split at read
    · cases read
    split at read
    next star => cases read; exact star ▸ .any
    split at read
    next stars => cases read; exact stars ▸ .anyDeep
    split at read
    next name found => cases read; exact .name (SegmentName.segmentName?_eq_some.1 found)
    next =>
      have whole := List.takeWhile_append_dropWhile (p := (· ≠ '*')) (l := raw.toList)
      rw [List.span_eq_takeWhile_dropWhile] at read
      generalize raw.toList.takeWhile (· ≠ '*') = digits at *
      generalize raw.toList.dropWhile (· ≠ '*') = suffix at *
      simp only at read
      obtain rfl : raw = String.ofList digits ++ String.ofList suffix := by
        rw [← String.ofList_append, whole, String.ofList_toList]
      split at read
      next positive =>
        have number : IsNumber (String.ofList digits) := isPositive_iff.1 (by simpa using positive)
        split at read
        next => cases read; simpa using SpeltBy.id number
        next => cases read; exact .idPrefixed number
        next => cases read; exact .idPrefixedDeep number
        next => cases read
      next => cases read
  · intro spelt
    cases spelt with
    | name spelt => exact classify_name spelt
    | id number => simpa using classify_number number "" (by simp)
    | idPrefixed number => simpa using classify_number number "*" (by simp)
    | idPrefixedDeep number => simpa using classify_number number "**" (by simp)
    | any => rfl
    | anyDeep => rfl

theorem SpeltBy.unique {first second : GlobToken} {raw : String} (spelt : first.SpeltBy raw)
    (spelt' : second.SpeltBy raw) : first = second :=
  Except.ok.inj ((classify_eq_ok.2 spelt).symm.trans (classify_eq_ok.2 spelt'))

end GlobToken

end PolicyReview
