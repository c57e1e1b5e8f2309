import PolicyReview.Proofs.Ancestry.Canonical
import PolicyReview.Proofs.Ancestry.Grammar

/-! The canonical text of a glob. The text of a token is one of its spellings, so that the text of
a glob is a pattern of the same tokens. Patterns have one glob when they agree segment by segment,
where only the spelling of a name is free. -/

namespace PolicyReview

namespace GlobToken

variable {token : GlobToken} {raw : String}

theorem SpeltBy.text (spelt : token.SpeltBy raw) : token.SpeltBy token.text := by
  cases spelt with
  | name _ => exact .name (SegmentName.speltBy_text _)
  | id number => exact .id number
  | idPrefixed number => exact .idPrefixed number
  | idPrefixedDeep number => exact .idPrefixedDeep number
  | any => exact .any
  | anyDeep => exact .anyDeep

theorem SpeltBy.eq_text (spelt : token.SpeltBy raw) (unnamed : ∀ name, token ≠ .name name) :
    raw = token.text := by
  cases spelt with
  | name => exact absurd rfl (unnamed _)
  | _ => rfl

theorem SpeltBy.isDigit_or_star (spelt : token.SpeltBy raw)
    (unnamed : ∀ name, token ≠ .name name) :
    ∀ c ∈ raw.toList, c.isDigit = true ∨ c = '*' := by
  have starred : ∀ {digits stars : String}, IsNumber digits → (∀ c ∈ stars.toList, c = '*') →
      ∀ c ∈ (digits ++ stars).toList, c.isDigit = true ∨ c = '*' := by
    intro digits stars number stars_only c inside
    rw [String.toList_append, List.mem_append] at inside
    exact inside.imp (number.isDigit c) (stars_only c)
  cases spelt with
  | name => exact absurd rfl (unnamed _)
  | id number => exact fun c inside => .inl (number.isDigit c inside)
  | idPrefixed number => exact starred number (by simp)
  | idPrefixedDeep number => exact starred number (by simp)
  | any => simp
  | anyDeep => simp

theorem SpeltBy.ne_empty (spelt : token.SpeltBy raw) : raw ≠ "" := by
  rintro rfl
  cases classify_eq_ok.2 spelt

theorem SpeltBy.isSegment (spelt : token.SpeltBy raw) : Ancestry.IsSegment raw := by
  refine ⟨spelt.ne_empty, fun slash => ?_⟩
  by_cases named : ∃ name, token = .name name
  · obtain ⟨name, rfl⟩ := named
    exact absurd ((speltBy_name.1 spelt).isAlpha _ slash) (by decide)
  · exact absurd (spelt.isDigit_or_star (not_exists.1 named) _ slash) (by decide)

/-- Segments of patterns that agree: spellings of one name, or the same to the letter. -/
def Agree (first second : String) : Prop :=
  first = second ∨ ∃ name : SegmentName, name.SpeltBy first ∧ name.SpeltBy second

theorem SpeltBy.agree_iff (spelt : token.SpeltBy raw) {other : String} :
    Agree raw other ↔ token.SpeltBy other := by
  constructor
  · rintro (rfl | ⟨name, named, named'⟩)
    · exact spelt
    · obtain rfl := spelt.unique (.name named)
      exact .name named'
  · intro spelt'
    by_cases named : ∃ name, token = .name name
    · obtain ⟨name, rfl⟩ := named
      exact .inr ⟨name, speltBy_name.1 spelt, speltBy_name.1 spelt'⟩
    · have unnamed := not_exists.1 named
      exact .inl ((spelt.eq_text unnamed).trans (spelt'.eq_text unnamed).symm)

end GlobToken

namespace Glob

variable {pattern : String} {glob : Glob} {tokens : List GlobToken} {raws : List String}

theorem isSegment_of_spelt (spelt : List.Forall₂ GlobToken.SpeltBy tokens raws) :
    ∀ raw ∈ raws, Ancestry.IsSegment raw := by
  induction spelt with
  | nil => exact List.forall_mem_nil _
  | cons first _ ih => exact List.forall_mem_cons.2 ⟨first.isSegment, ih⟩

theorem texts_spelt (spelt : List.Forall₂ GlobToken.SpeltBy tokens raws) :
    List.Forall₂ GlobToken.SpeltBy tokens (tokens.map GlobToken.text) := by
  induction spelt with
  | nil => exact .nil
  | cons first _ ih => exact .cons first.text ih

theorem agree_iff_spelt (spelt : List.Forall₂ GlobToken.SpeltBy tokens raws)
    {others : List String} :
    List.Forall₂ GlobToken.Agree raws others ↔ List.Forall₂ GlobToken.SpeltBy tokens others := by
  induction spelt generalizing others with
  | nil => rw [List.forall₂_nil_left_iff, List.forall₂_nil_left_iff]
  | cons first _ ih =>
    simp only [List.forall₂_cons_left_iff, first.agree_iff, ih]

theorem pieces_text (parsed : parse pattern = .ok glob) :
    Ancestry.pieces glob.text = glob.tokens.map GlobToken.text := by
  have spelt := parse_spelt parsed
  apply Ancestry.pieces_join
  · intro empty
    rw [List.map_eq_nil_iff.1 empty, List.forall₂_nil_left_iff] at spelt
    exact pieces_ne_nil pattern spelt
  · exact fun text inside => (isSegment_of_spelt (texts_spelt spelt) text inside).2

theorem parse_text (parsed : parse pattern = .ok glob) : parse glob.text = .ok glob := by
  obtain ⟨spelt, run⟩ := parseFrom_eq_ok.1 (parse_eq_ok.1 parsed)
  rw [parse_eq_ok, pieces_text parsed]
  exact parseFrom_eq_ok.2 ⟨texts_spelt spelt, run⟩

/-- The text of a glob is a pattern of that glob, and patterns of one glob are those that agree
segment by segment. -/
theorem parse_canonical {pattern other : String} {glob glob' : Glob}
    (parsed : parse pattern = .ok glob) (parsed' : parse other = .ok glob') :
    parse glob.text = .ok glob ∧
      (glob = glob' ↔
        List.Forall₂ GlobToken.Agree (Ancestry.pieces pattern) (Ancestry.pieces other)) := by
  refine ⟨parse_text parsed, ?_⟩
  rw [agree_iff_spelt (parse_spelt parsed)]
  constructor
  · rintro rfl
    exact parse_spelt parsed'
  · intro spelt
    have same : glob.tokens = glob'.tokens :=
      List.left_unique_forall₂' (fun _ _ _ first second => first.unique second) spelt
        (parse_spelt parsed')
    cases glob
    cases glob'
    exact congrArg Glob.mk same

theorem parse_canonical_aliases : ∃ glob glob' : Glob,
    parse "Org/007/FOLDER/2**" = .ok glob ∧ parse "organization/007/folders/2**" = .ok glob' ∧
      parse glob.text = .ok glob ∧ glob = glob' := by
  have parsed : parse "Org/007/FOLDER/2**" = .ok
      ⟨[.name .organizations, .id "007", .name .folders, .idPrefixedDeep "2"]⟩ := rfl
  have parsed' : parse "organization/007/folders/2**" = .ok
      ⟨[.name .organizations, .id "007", .name .folders, .idPrefixedDeep "2"]⟩ := rfl
  have spelt : ∀ {raw : String} {name : SegmentName}, Ancestry.segmentName? raw = some name →
      name.SpeltBy raw := SegmentName.segmentName?_eq_some.1
  obtain ⟨kept, same⟩ := parse_canonical parsed parsed'
  refine ⟨_, _, parsed, parsed', kept, same.2 ?_⟩
  exact .cons (.inr ⟨.organizations, spelt rfl, spelt rfl⟩) <| .cons (.inl rfl) <|
    .cons (.inr ⟨.folders, spelt rfl, spelt rfl⟩) <| .cons (.inl rfl) .nil

end Glob

end PolicyReview
