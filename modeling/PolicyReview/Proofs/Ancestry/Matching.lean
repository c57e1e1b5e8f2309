import PolicyReview.Proofs.Ancestry.Grammar

/-! Matching of globs. A glob matches a path when the segments of the path can be cut into one piece
for each token, in order, of the shape that the token asks for. The matcher tries the cuts by
backtracking over what is left after each piece. -/

namespace PolicyReview

namespace GlobToken

inductive Covers : GlobToken → List String → Prop where
  | name (segment : SegmentName) : Covers (.name segment) [segment.text]
  | id (digits : String) : Covers (.id digits) [digits]
  | idPrefixed (digits rest : String) : Covers (.idPrefixed digits) [digits ++ rest]
  | idPrefixedDeep (digits rest : String) (more : List String) :
      Covers (.idPrefixedDeep digits) ((digits ++ rest) :: more)
  | any (segment : String) : Covers .any [segment]
  | anyDeep (segments : List String) : Covers .anyDeep segments

def isSingle : GlobToken → Bool
  | .anyDeep | .idPrefixedDeep _ => false
  | _ => true

end GlobToken

namespace Glob

theorem mem_suffixes {α : Type} {xs ys : List α} :
    ys ∈ suffixes xs ↔ ∃ before, xs = before ++ ys := by
  induction xs with
  | nil => simp [suffixes]
  | cons x xs ih =>
    rw [suffixes, List.mem_cons, ih]
    constructor
    · rintro (rfl | ⟨before, rfl⟩)
      · exact ⟨[], rfl⟩
      · exact ⟨x :: before, rfl⟩
    · rintro ⟨before, same⟩
      cases before with
      | nil => exact .inl same.symm
      | cons _ before => exact .inr ⟨before, (List.cons.inj same).2⟩

theorem startsWith_iff {start segment : String} :
    startsWith start segment = true ↔ ∃ rest, segment = start ++ rest := by
  rw [startsWith, List.isPrefixOf_iff_prefix]
  constructor
  · rintro ⟨rest, same⟩
    exact ⟨String.ofList rest, String.toList_injective (by simp [same])⟩
  · rintro ⟨rest, rfl⟩
    simp

theorem covers_single {token : GlobToken} (single : token.isSingle = true) {piece : List String} :
    token.Covers piece ↔ ∃ segment, piece = [segment] ∧ matchesOne token segment = true := by
  constructor
  · intro covers
    cases covers with
    | idPrefixed digits rest => exact ⟨_, rfl, startsWith_iff.2 ⟨rest, rfl⟩⟩
    | idPrefixedDeep => cases single
    | anyDeep => cases single
    | _ => exact ⟨_, rfl, by simp [matchesOne]⟩
  · rintro ⟨segment, rfl, matched⟩
    cases token with
    | name name =>
      obtain rfl : name.text = segment := by simpa [matchesOne] using matched
      exact .name name
    | id digits =>
      obtain rfl : digits = segment := by simpa [matchesOne] using matched
      exact .id digits
    | idPrefixed digits =>
      obtain ⟨rest, rfl⟩ := startsWith_iff.1 matched
      exact .idPrefixed digits rest
    | any => exact .any segment
    | idPrefixedDeep => cases single
    | anyDeep => cases single

theorem matchesSegments_nil {segments : List String} :
    matchesSegments [] segments = true ↔ segments = [] := by
  simp [matchesSegments]

theorem matchesSegments_single {token : GlobToken} (single : token.isSingle = true)
    {rest : List GlobToken} {segments : List String} :
    matchesSegments (token :: rest) segments = true ↔ ∃ segment tail,
      segments = segment :: tail ∧ matchesOne token segment = true ∧
        matchesSegments rest tail = true := by
  cases token with
  | idPrefixedDeep => cases single
  | anyDeep => cases single
  | _ => cases segments <;> simp [matchesSegments]

theorem matchesSegments_cons {token : GlobToken} {rest : List GlobToken}
    {segments : List String} :
    matchesSegments (token :: rest) segments = true ↔ ∃ piece later,
      segments = piece ++ later ∧ token.Covers piece ∧ matchesSegments rest later = true := by
  by_cases single : token.isSingle = true
  · rw [matchesSegments_single single]
    simp only [covers_single single]
    constructor
    · rintro ⟨segment, tail, rfl, covered, matched⟩
      exact ⟨[segment], tail, rfl, ⟨segment, rfl, covered⟩, matched⟩
    · rintro ⟨_, later, rfl, ⟨segment, rfl, covered⟩, matched⟩
      exact ⟨segment, later, rfl, covered, matched⟩
  cases token with
  | anyDeep =>
    simp only [matchesSegments, List.any_eq_true, mem_suffixes]
    constructor
    · rintro ⟨later, ⟨piece, rfl⟩, matched⟩
      exact ⟨piece, later, rfl, .anyDeep piece, matched⟩
    · rintro ⟨piece, later, rfl, -, matched⟩
      exact ⟨later, ⟨piece, rfl⟩, matched⟩
  | idPrefixedDeep digits =>
    constructor
    · intro matched
      cases segments with
      | nil => simp [matchesSegments] at matched
      | cons segment tail =>
        simp only [matchesSegments, Bool.and_eq_true, startsWith_iff, List.any_eq_true,
          mem_suffixes] at matched
        obtain ⟨⟨ending, rfl⟩, later, ⟨more, rfl⟩, matched⟩ := matched
        exact ⟨(digits ++ ending) :: more, later, rfl, .idPrefixedDeep digits ending more, matched⟩
    · rintro ⟨piece, later, rfl, covers, matched⟩
      cases covers with
      | idPrefixedDeep _ ending more =>
        simp only [List.cons_append, matchesSegments, Bool.and_eq_true, startsWith_iff,
          List.any_eq_true, mem_suffixes]
        exact ⟨⟨ending, rfl⟩, later, ⟨more, rfl⟩, matched⟩
  | _ => exact absurd rfl single

/-- A cut of segments into consecutive pieces, one for each token and of the shape that the token
asks for. -/
structure IsCut (tokens : List GlobToken) (segments : List String) (cut : List (List String)) :
    Prop where
  joined : cut.flatten = segments
  covered : List.Forall₂ GlobToken.Covers tokens cut

theorem matchesSegments_iff_cut {tokens : List GlobToken} {segments : List String} :
    matchesSegments tokens segments = true ↔ ∃ cut, IsCut tokens segments cut := by
  induction tokens generalizing segments with
  | nil =>
    rw [matchesSegments_nil]
    constructor
    · rintro rfl
      exact ⟨[], rfl, .nil⟩
    · rintro ⟨cut, rfl, covered⟩
      cases covered
      rfl
  | cons token rest ih =>
    rw [matchesSegments_cons]
    constructor
    · rintro ⟨piece, later, rfl, covers, matched⟩
      obtain ⟨cut, rfl, covered⟩ := ih.1 matched
      exact ⟨piece :: cut, rfl, .cons covers covered⟩
    · rintro ⟨cut, rfl, covered⟩
      cases covered with
      | cons covers covered =>
        exact ⟨_, _, rfl, covers, ih.2 ⟨_, rfl, covered⟩⟩

/-- The tokens of a glob are what its pattern spells, and it matches the paths whose segments have
a cut into pieces of these tokens. -/
theorem matchesPath_iff_cut {pattern : String} {glob : Glob} (parsed : parse pattern = .ok glob)
    (path : String) :
    List.Forall₂ GlobToken.SpeltBy glob.tokens (Ancestry.pieces pattern) ∧
    (glob.matchesPath path = true ↔ ∃ cut, IsCut glob.tokens (Ancestry.segments path) cut) :=
  ⟨parse_spelt parsed, matchesSegments_iff_cut⟩

theorem matchesPath_two_deep : ∃ glob : Glob,
    parse "Org/1/**/folders/2**" = .ok glob ∧
    glob.matchesPath "organizations//1/projects/7/folders/23/x/y/" = true := by
  have parsed : parse "Org/1/**/folders/2**" = .ok
      ⟨[.name .organizations, .id "1", .anyDeep, .name .folders, .idPrefixedDeep "2"]⟩ := rfl
  refine ⟨_, parsed, (matchesPath_iff_cut parsed _).2.2 ⟨[["organizations"], ["1"],
    ["projects", "7"], ["folders"], ["23", "x", "y"]], rfl, ?_⟩⟩
  exact .cons (.name .organizations) <| .cons (.id "1") <| .cons (.anyDeep _) <|
    .cons (.name .folders) <| .cons (.idPrefixedDeep "2" "3" _) .nil

end Glob

end PolicyReview
