import PolicyReview.Proofs.Ancestry.Equivalence
import PolicyReview.Proofs.Ancestry.Matching
import PolicyReview.Proofs.Ancestry.Rendering

/-! Globs and paths of one canonical form. Where the names of a pattern stand at the even places,
its glob has the text of the canonical path that the pattern is. A chain of names and numbers has
them there, since each name is followed by its number: it matches the paths of its own canonical
form, and with `**` after it those that go on from there. -/

namespace PolicyReview

theorem Ancestry.lower_of_uncapped {segment : String}
    (uncapped : ∀ c ∈ segment.toList, c.isUpper = false) : lower segment = segment := by
  apply String.toList_injective
  rw [lower, String.toList_ofList]
  conv_rhs => rw [← List.map_id segment.toList]
  refine List.map_congr_left fun c inside => ?_
  exact Text.toLower_of_not_isUpper (uncapped c inside)

namespace GlobToken

variable {token : GlobToken} {raw : String}

def isName : GlobToken → Bool
  | .name _ => true
  | _ => false

def isLiteral : GlobToken → Bool
  | .name _ | .id _ => true
  | _ => false

theorem SpeltBy.canonicalName (spelt : token.SpeltBy raw) :
    Ancestry.canonicalName raw = token.text := by
  by_cases named : ∃ name, token = .name name
  · obtain ⟨name, rfl⟩ := named
    exact Ancestry.canonicalName_of_speltBy (speltBy_name.1 spelt)
  · have unnamed := not_exists.1 named
    have uncapped : ∀ c ∈ raw.toList, c.isUpper = false := by
      intro c inside
      rcases spelt.isDigit_or_star unnamed c inside with digit | rfl
      · rw [Bool.eq_false_iff]
        exact fun capital => Text.not_isAlpha_of_isDigit digit (Text.isAlpha_iff.2 (.inl capital))
      · rfl
    have spellsNone : ∀ name : SegmentName, ¬name.SpeltBy raw := fun name spelt' =>
      unnamed name (spelt.unique (.name spelt'))
    rw [Ancestry.canonicalName_of_unnamed spellsNone, Ancestry.lower_of_uncapped uncapped,
      spelt.eq_text unnamed]

theorem covers_literal (literal : token.isLiteral = true) {piece : List String} :
    token.Covers piece ↔ piece = [token.text] := by
  constructor
  · intro covers
    cases covers with
    | name | id => rfl
    | _ => cases literal
  · rintro rfl
    cases token with
    | name name => exact .name name
    | id digits => exact .id digits
    | _ => cases literal

end GlobToken

namespace Glob

variable {pattern : String} {glob : Glob} {tokens : List GlobToken} {raws : List String}

/-- Segments whose names all stand at even places. -/
def NamesAtEven (raws : List String) : Prop :=
  ∀ i (within : i < raws.length) (name : SegmentName), name.SpeltBy raws[i] → i % 2 = 0

/-- Segments that are all names and numbers. -/
def IsChain (raws : List String) : Prop :=
  ∀ raw ∈ raws, (∃ name : SegmentName, name.SpeltBy raw) ∨ GlobToken.IsNumber raw

theorem segments_of_parse (parsed : parse pattern = .ok glob) :
    Ancestry.segments pattern = Ancestry.pieces pattern := by
  rw [Ancestry.segments, List.filter_eq_self]
  exact fun raw inside => by simpa using (isSegment_of_spelt (parse_spelt parsed) raw inside).1

theorem canonicalSegments_of_spelt (spelt : List.Forall₂ GlobToken.SpeltBy tokens raws)
    (even : NamesAtEven raws) :
    Ancestry.canonicalSegments raws = tokens.map GlobToken.text := by
  obtain ⟨lengths, each⟩ := List.forall₂_iff_get.1 spelt
  rw [Ancestry.canonicalSegments_eq_mapIdx]
  apply List.ext_getElem
  · simp [lengths]
  intro i within within'
  rw [List.length_mapIdx] at within
  rw [List.length_map] at within'
  have here : tokens[i].SpeltBy raws[i] := each i within' within
  rw [List.getElem_mapIdx, List.getElem_map]
  split
  next => exact here.canonicalName
  next odd =>
    refine here.eq_text fun name named => odd ?_
    rw [named, GlobToken.speltBy_name] at here
    exact even i within name here

theorem text_eq_canonicalize (parsed : parse pattern = .ok glob)
    (even : NamesAtEven (Ancestry.pieces pattern)) :
    glob.text = Ancestry.canonicalize pattern := by
  rw [text, Ancestry.canonicalize, segments_of_parse parsed,
    canonicalSegments_of_spelt (parse_spelt parsed) even]

/-! Chains. -/

/-- Whether a name is due, in the states that no wildcard leads to, or the id of a name. -/
inductive Due : Bool → GlobState → Prop where
  | start : Due true .start
  | afterId (last : SegmentName) : Due true (.afterId last)
  | expectId (name : SegmentName) : Due false (.expectId name)

theorem Due.step {named : Bool} {state next : GlobState} {token : GlobToken}
    (due : Due named state) (literal : token.isLiteral = true)
    (moved : state.advance token = .ok next) : token.isName = named ∧ Due (!named) next := by
  cases due with
  | start | afterId =>
    cases token with
    | name name =>
      obtain rfl := eq_expectId_of_advance moved
      exact ⟨rfl, .expectId name⟩
    | id => cases moved
    | _ => cases literal
  | expectId name =>
    cases token with
    | name => cases moved
    | id =>
      cases moved
      exact ⟨rfl, .afterId name⟩
    | _ => cases literal

theorem Due.run {named : Bool} {state last : GlobState} (due : Due named state)
    (literal : ∀ token ∈ tokens, token.isLiteral = true)
    (run : tokens.foldlM GlobState.advance state = .ok last) (i : Nat)
    (within : i < tokens.length) : tokens[i].isName = (named == (i % 2 == 0)) := by
  induction tokens generalizing named state i with
  | nil => cases within
  | cons token rest ih =>
    obtain ⟨next, moved, later⟩ := bind_eq_ok.1 run
    rw [List.forall_mem_cons] at literal
    obtain ⟨first, due⟩ := due.step literal.1 moved
    cases i with
    | zero => simpa using first
    | succ i =>
      rw [List.getElem_cons_succ, ih due literal.2 later]
      rcases Nat.mod_two_eq_zero_or_one i with even | odd
      · cases named <;> simp [even, Nat.add_mod]
      · cases named <;> simp [odd, Nat.add_mod]

theorem isLiteral_of_chain (spelt : List.Forall₂ GlobToken.SpeltBy tokens raws)
    (chain : IsChain raws) : ∀ token ∈ tokens, token.isLiteral = true := by
  induction spelt with
  | nil => exact List.forall_mem_nil _
  | cons first _ ih =>
    rw [IsChain, List.forall_mem_cons] at chain
    refine List.forall_mem_cons.2 ⟨?_, ih chain.2⟩
    rcases chain.1 with ⟨name, named⟩ | number
    · rw [first.unique (.name named)]
      rfl
    · rw [first.unique (.id number)]
      rfl

theorem namesAtEven_of_chain (parsed : parse pattern = .ok glob)
    (chain : IsChain (Ancestry.pieces pattern)) : NamesAtEven (Ancestry.pieces pattern) := by
  obtain ⟨spelt, last, run, -⟩ := parseFrom_eq_ok.1 (parse_eq_ok.1 parsed)
  obtain ⟨lengths, each⟩ := List.forall₂_iff_get.1 spelt
  intro i within name named
  have within' : i < glob.tokens.length := lengths ▸ within
  have here : glob.tokens[i] = .name name := (each i within' within).unique (.name named)
  have turn := Due.start.run (isLiteral_of_chain spelt chain) run i within'
  simpa [here, GlobToken.isName] using turn.symm

theorem matchesSegments_literal (literal : ∀ token ∈ tokens, token.isLiteral = true)
    {rest : List GlobToken} {segments : List String} :
    matchesSegments (tokens ++ rest) segments = true ↔ ∃ later,
      segments = tokens.map GlobToken.text ++ later ∧ matchesSegments rest later = true := by
  induction tokens generalizing segments with
  | nil => simp
  | cons token others ih =>
    rw [List.forall_mem_cons] at literal
    rw [List.cons_append, matchesSegments_cons]
    simp only [GlobToken.covers_literal literal.1, ih literal.2]
    constructor
    · rintro ⟨_, _, rfl, rfl, later, rfl, matched⟩
      exact ⟨later, rfl, matched⟩
    · rintro ⟨later, rfl, matched⟩
      exact ⟨[token.text], _, rfl, rfl, later, rfl, matched⟩

theorem matchesSegments_chain (literal : ∀ token ∈ tokens, token.isLiteral = true)
    {segments : List String} :
    matchesSegments tokens segments = true ↔ segments = tokens.map GlobToken.text := by
  conv_lhs => rw [← List.append_nil tokens]
  rw [matchesSegments_literal literal]
  simp [matchesSegments_nil]

theorem matchesSegments_chain_deep (literal : ∀ token ∈ tokens, token.isLiteral = true)
    {segments : List String} :
    matchesSegments (tokens ++ [.anyDeep]) segments = true ↔
      tokens.map GlobToken.text <+: segments := by
  have all : ∀ later, matchesSegments [.anyDeep] later = true := fun later =>
    matchesSegments_cons.2 ⟨later, [], (List.append_nil later).symm, .anyDeep later, rfl⟩
  simp [matchesSegments_literal literal, all, List.IsPrefix, eq_comm]

theorem parse_deep (parsed : parse pattern = .ok glob) :
    parse (pattern ++ "/**") = .ok ⟨glob.tokens ++ [.anyDeep]⟩ := by
  obtain ⟨spelt, last, run, -⟩ := parseFrom_eq_ok.1 (parse_eq_ok.1 parsed)
  obtain ⟨next, moved, ended⟩ := exists_advance_wildcard .anyDeep rfl last
  have cut : Ancestry.pieces (pattern ++ "/**") = Ancestry.pieces pattern ++ ["**"] :=
    Ancestry.pieces_append_slash pattern "**"
  rw [parse_eq_ok, cut, parseFrom_eq_ok]
  refine ⟨List.rel_append spelt (.cons .anyDeep .nil), next, ?_, ended⟩
  rw [List.foldlM_append, run, ok_bind, List.foldlM_cons, moved]
  rfl

/-- A glob has the text of the canonical path that its pattern is, if the names of the pattern
stand at even places. A chain of names and numbers matches the paths of its canonical form, and
with `**` after it those that begin with it. -/
theorem agrees_with_paths (parsed : parse pattern = .ok glob) :
    (NamesAtEven (Ancestry.pieces pattern) → glob.text = Ancestry.canonicalize pattern) ∧
    (IsChain (Ancestry.pieces pattern) →
      (∀ path, glob.matchesPath (Ancestry.canonicalize path) = true ↔
        Ancestry.canonicalize path = Ancestry.canonicalize pattern) ∧
      ∃ deep, parse (pattern ++ "/**") = .ok deep ∧
        ∀ path, deep.matchesPath (Ancestry.canonicalize path) = true ↔
          Ancestry.segments (Ancestry.canonicalize pattern) <+:
            Ancestry.segments (Ancestry.canonicalize path)) := by
  refine ⟨text_eq_canonicalize parsed, fun chain => ?_⟩
  have spelt := parse_spelt parsed
  have literal := isLiteral_of_chain spelt chain
  have texts : Ancestry.segments (Ancestry.canonicalize pattern) =
      glob.tokens.map GlobToken.text := by
    rw [Ancestry.segments_canonicalize, segments_of_parse parsed,
      canonicalSegments_of_spelt spelt (namesAtEven_of_chain parsed chain)]
  refine ⟨fun path => ?_, _, parse_deep parsed, fun path => ?_⟩
  · rw [matchesPath, matchesSegments_chain literal, ← texts, Ancestry.canonicalize_eq_iff]
  · rw [matchesPath, matchesSegments_chain_deep literal, texts]

theorem agrees_with_paths_below : ∃ glob deep : Glob,
    parse "Org/007/FOLDER/2" = .ok glob ∧ parse "Org/007/FOLDER/2/**" = .ok deep ∧
      glob.text = Ancestry.canonicalize "Org/007/FOLDER/2" ∧
      glob.matchesPath (Ancestry.canonicalize "orgs//007/folder/2") = true ∧
      deep.matchesPath (Ancestry.canonicalize "orgs/007/folder/2//project/X") = true := by
  have parsed : parse "Org/007/FOLDER/2" = .ok
      ⟨[.name .organizations, .id "007", .name .folders, .id "2"]⟩ := rfl
  have named : ∀ {raw : String} {name : SegmentName}, Ancestry.segmentName? raw = some name →
      name.SpeltBy raw := SegmentName.segmentName?_eq_some.1
  have chain : IsChain ["Org", "007", "FOLDER", "2"] := by
    simp only [IsChain, List.forall_mem_cons]
    exact ⟨.inl ⟨_, named rfl⟩, .inr (GlobToken.isPositive_iff.1 rfl), .inl ⟨_, named rfl⟩,
      .inr (GlobToken.isPositive_iff.1 rfl), List.forall_mem_nil _⟩
  have same : Ancestry.canonicalize "orgs//007/folder/2" =
      Ancestry.canonicalize "Org/007/FOLDER/2" := by decide +kernel
  have below : Ancestry.segments (Ancestry.canonicalize "Org/007/FOLDER/2") <+:
      Ancestry.segments (Ancestry.canonicalize "orgs/007/folder/2//project/X") := by
    decide +kernel
  obtain ⟨shown, matched⟩ := agrees_with_paths parsed
  obtain ⟨equal, deep, parsedDeep, inside⟩ := matched chain
  exact ⟨_, deep, parsed, parsedDeep, shown (namesAtEven_of_chain parsed chain),
    (equal _).2 same, (inside _).2 below⟩

end Glob

end PolicyReview
