import Mathlib.Data.List.Forall2
import PolicyReview.Proofs.Ancestry.Token
import PolicyReview.Proofs.Fallible

/-! The grammar of glob patterns. A pattern is a sentence of blocks: each has a segment name, its id
and a stretch of ids and wildcards, and a stretch may also come before the first of them. The
automaton accepts the sentences and nothing else, since what it expects in a state is what may
follow the segments that led there. -/

namespace PolicyReview

def SegmentName.Precedes (name next : SegmentName) : Prop :=
  name.rank < next.rank ∨ name = .folders ∧ next = .folders

theorem SegmentName.mayPrecede_iff {name next : SegmentName} :
    name.mayPrecede next = true ↔ name.Precedes next := by
  simp [mayPrecede, Precedes, or_comm]

namespace Glob

def IsWildcard (raw : String) : Prop := raw = "*" ∨ raw = "**"

/-- A wildcard, a number, or a number with the stars of a wildcard after it. -/
def IsId (raw : String) : Prop :=
  IsWildcard raw ∨ ∃ digits, GlobToken.IsNumber digits ∧
    (raw = digits ∨ raw = digits ++ "*" ∨ raw = digits ++ "**")

/-- Ids and wildcards of which the first is let in by a gate; there may be none at all. -/
def Stretch (gate : String → Prop) : List String → Prop
  | [] => True
  | first :: rest => gate first ∧ ∀ raw ∈ rest, IsId raw

structure Block where
  segment : SegmentName
  name : String
  id : String
  tail : List String
  name_spelt : segment.SpeltBy name
  id_isId : IsId id
  tail_opened : Stretch IsWildcard tail

def Block.raws (block : Block) : List String := block.name :: block.id :: block.tail

/-- The segments of a pattern in their grammatical order. -/
structure Sentence where
  head : List String
  blocks : List Block
  head_opened : Stretch IsWildcard head
  nonempty : head ≠ [] ∨ blocks ≠ []
  ordered : (blocks.map (·.segment)).IsChain SegmentName.Precedes

def Sentence.raws (sentence : Sentence) : List String :=
  sentence.head ++ sentence.blocks.flatMap Block.raws

theorem isWildcard_iff {raw : String} :
    IsWildcard raw ↔ ∃ token : GlobToken, token.SpeltBy raw ∧
      (∀ name, token ≠ .name name) ∧ token.isWildcard = true := by
  constructor
  · rintro (rfl | rfl)
    · exact ⟨.any, .any, by simp, rfl⟩
    · exact ⟨.anyDeep, .anyDeep, by simp, rfl⟩
  · rintro ⟨token, spelt, -, wild⟩
    cases spelt with
    | any => exact .inl rfl
    | anyDeep => exact .inr rfl
    | _ => cases wild

theorem isId_iff {raw : String} :
    IsId raw ↔ ∃ token : GlobToken, token.SpeltBy raw ∧ ∀ name, token ≠ .name name := by
  constructor
  · rintro (wild | ⟨digits, number, rfl | rfl | rfl⟩)
    · obtain ⟨token, spelt, unnamed, -⟩ := isWildcard_iff.1 wild
      exact ⟨token, spelt, unnamed⟩
    · exact ⟨_, .id number, by simp⟩
    · exact ⟨_, .idPrefixed number, by simp⟩
    · exact ⟨_, .idPrefixedDeep number, by simp⟩
  · rintro ⟨token, spelt, unnamed⟩
    cases spelt with
    | name => exact absurd rfl (unnamed _)
    | id number => exact .inr ⟨_, number, .inl rfl⟩
    | idPrefixed number => exact .inr ⟨_, number, .inr (.inl rfl)⟩
    | idPrefixedDeep number => exact .inr ⟨_, number, .inr (.inr rfl)⟩
    | any => exact .inl (.inl rfl)
    | anyDeep => exact .inl (.inr rfl)

theorem stretch_isId {raws : List String} : Stretch IsId raws ↔ ∀ raw ∈ raws, IsId raw := by
  cases raws <;> simp [Stretch]

theorem ordered_cons {last : Option SegmentName} {name : SegmentName} {names : List SegmentName} :
    (last.toList ++ name :: names).IsChain SegmentName.Precedes ↔
      (∀ earlier ∈ last, earlier.Precedes name) ∧
        (name :: names).IsChain SegmentName.Precedes := by
  cases last <;> simp

def Continues (gate : String → Prop) (last : Option SegmentName) (raws : List String) : Prop :=
  ∃ (stretch : List String) (blocks : List Block), Stretch gate stretch ∧
    (last.toList ++ blocks.map (·.segment)).IsChain SegmentName.Precedes ∧
    raws = stretch ++ blocks.flatMap Block.raws

def NeedsId (name : SegmentName) (raws : List String) : Prop :=
  ∃ id rest, raws = id :: rest ∧ IsId id ∧ Continues IsWildcard (some name) rest

theorem continues_nil (gate : String → Prop) (last : Option SegmentName) :
    Continues gate last [] :=
  ⟨[], [], trivial, by cases last <;> simp, rfl⟩

theorem continues_cons {gate : String → Prop} {last : Option SegmentName} {raw : String}
    {rest : List String} :
    Continues gate last (raw :: rest) ↔
      (gate raw ∧ Continues IsId last rest) ∨
      ∃ name : SegmentName, name.SpeltBy raw ∧ (∀ earlier ∈ last, earlier.Precedes name) ∧
        NeedsId name rest := by
  constructor
  · rintro ⟨stretch, blocks, opened, ordered, same⟩
    cases stretch with
    | cons first more =>
      obtain ⟨rfl, rfl⟩ := List.cons.inj same
      exact .inl ⟨opened.1, more, blocks, stretch_isId.2 opened.2, ordered, rfl⟩
    | nil =>
      cases blocks with
      | nil => cases same
      | cons block others =>
        obtain ⟨rfl, rfl⟩ := List.cons.inj same
        obtain ⟨follows, ordered⟩ := ordered_cons.1 ordered
        exact .inr ⟨block.segment, block.name_spelt, follows, block.id, _, rfl, block.id_isId,
          block.tail, others, block.tail_opened, ordered, rfl⟩
  · rintro (⟨opens, stretch, blocks, opened, ordered, rfl⟩ |
      ⟨name, spelt, follows, id, more, rfl, isId, tail, blocks, opened, ordered, rfl⟩)
    · exact ⟨raw :: stretch, blocks, ⟨opens, stretch_isId.1 opened⟩, ordered, rfl⟩
    · exact ⟨[], ⟨name, raw, id, tail, spelt, isId, opened⟩ :: blocks, trivial,
        ordered_cons.2 ⟨follows, ordered⟩, rfl⟩

def Expects : GlobState → List String → Prop
  | .start => Continues IsWildcard none
  | .expectId name => NeedsId name
  | .afterId last => Continues IsWildcard (some last)
  | .wild last => Continues IsId last

theorem nameAfter_eq_ok {last : Option SegmentName} {name : SegmentName} {next : GlobState} :
    GlobState.nameAfter last name = .ok next ↔
      (∀ earlier ∈ last, earlier.Precedes name) ∧ next = .expectId name := by
  cases last with
  | none => simp [GlobState.nameAfter, eq_comm]
  | some last =>
    by_cases follows : last.mayPrecede name = true
    · simp [GlobState.nameAfter, follows, SegmentName.mayPrecede_iff.1 follows, eq_comm]
    · simp [GlobState.nameAfter, follows, mt SegmentName.mayPrecede_iff.2 follows]

/-- A state in which a name may come goes on by that name, or by what the gate of its stretch
lets in. -/
theorem continues_advance {state : GlobState} {gate : String → Prop} {last : Option SegmentName}
    {opens : GlobToken → Bool}
    (names : ∀ name, state.advance (.name name) = GlobState.nameAfter last name)
    (others : ∀ token, (∀ name, token ≠ .name name) → state.advance token =
      if opens token then .ok (.wild last) else .error .strayId)
    (gate_iff : ∀ raw, gate raw ↔ ∃ token : GlobToken, token.SpeltBy raw ∧
      (∀ name, token ≠ .name name) ∧ opens token = true) {raw : String} {rest : List String} :
    Continues gate last (raw :: rest) ↔ ∃ (token : GlobToken) (next : GlobState),
      token.SpeltBy raw ∧ state.advance token = .ok next ∧ Expects next rest := by
  rw [continues_cons, gate_iff]
  constructor
  · rintro (⟨⟨token, spelt, unnamed, opened⟩, later⟩ | ⟨name, spelt, follows, later⟩)
    · exact ⟨token, .wild last, spelt, by rw [others token unnamed, if_pos opened], later⟩
    · exact ⟨.name name, .expectId name, .name spelt,
        by rw [names, nameAfter_eq_ok]; exact ⟨follows, rfl⟩, later⟩
  · rintro ⟨token, next, spelt, moved, later⟩
    by_cases named : ∃ name, token = .name name
    · obtain ⟨name, rfl⟩ := named
      rw [names, nameAfter_eq_ok] at moved
      obtain ⟨follows, rfl⟩ := moved
      exact .inr ⟨name, GlobToken.speltBy_name.1 spelt, follows, later⟩
    · have unnamed : ∀ name, token ≠ .name name := fun name same => named ⟨name, same⟩
      rw [others token unnamed] at moved
      by_cases opened : opens token = true
      · rw [if_pos opened, Except.ok.injEq] at moved
        subst moved
        exact .inl ⟨⟨token, spelt, unnamed, opened⟩, later⟩
      · rw [if_neg opened] at moved
        cases moved

theorem advance_expectId {name : SegmentName} {token : GlobToken} {next : GlobState} :
    (GlobState.expectId name).advance token = .ok next ↔
      (∀ other, token ≠ .name other) ∧ next = .afterId name := by
  cases token <;> simp [GlobState.advance, eq_comm]

theorem eq_expectId_of_advance {state next : GlobState} {name : SegmentName}
    (moved : state.advance (.name name) = .ok next) : next = .expectId name := by
  cases state with
  | start => exact ((@nameAfter_eq_ok none name next).1 moved).2
  | expectId => cases moved
  | afterId last => exact ((@nameAfter_eq_ok (some last) name next).1 moved).2
  | wild last => exact ((@nameAfter_eq_ok last name next).1 moved).2

theorem exists_advance_wildcard (token : GlobToken) (wild : token.isWildcard = true)
    (state : GlobState) :
    ∃ next, state.advance token = .ok next ∧ ∀ name, next ≠ .expectId name := by
  cases token with
  | any | anyDeep => cases state <;> exact ⟨_, rfl, by simp⟩
  | _ => cases wild

theorem needsId_advance {name : SegmentName} {raw : String} {rest : List String} :
    NeedsId name (raw :: rest) ↔ ∃ (token : GlobToken) (next : GlobState),
      token.SpeltBy raw ∧ (GlobState.expectId name).advance token = .ok next ∧
        Expects next rest := by
  constructor
  · rintro ⟨id, more, same, isId, later⟩
    obtain ⟨rfl, rfl⟩ := List.cons.inj same
    obtain ⟨token, spelt, unnamed⟩ := isId_iff.1 isId
    exact ⟨token, _, spelt, advance_expectId.2 ⟨unnamed, rfl⟩, later⟩
  · rintro ⟨token, next, spelt, moved, later⟩
    obtain ⟨unnamed, rfl⟩ := advance_expectId.1 moved
    exact ⟨raw, rest, rfl, isId_iff.2 ⟨token, spelt, unnamed⟩, later⟩

theorem expects_cons {state : GlobState} {raw : String} {rest : List String} :
    Expects state (raw :: rest) ↔ ∃ (token : GlobToken) (next : GlobState),
      token.SpeltBy raw ∧ state.advance token = .ok next ∧ Expects next rest := by
  cases state with
  | start =>
    refine continues_advance (fun _ => rfl) (fun token unnamed => ?_) fun _ => isWildcard_iff
    cases token with
    | name name => exact absurd rfl (unnamed name)
    | _ => rfl
  | expectId name => exact needsId_advance
  | afterId last =>
    refine continues_advance (fun _ => rfl) (fun token unnamed => ?_) fun _ => isWildcard_iff
    cases token with
    | name name => exact absurd rfl (unnamed name)
    | _ => rfl
  | wild last =>
    have opens : ∀ raw, IsId raw ↔ ∃ token : GlobToken, token.SpeltBy raw ∧
        (∀ name, token ≠ .name name) ∧ (fun _ => true) token = true := by
      simp [isId_iff]
    refine continues_advance (fun _ => rfl) (fun token unnamed => ?_) opens
    cases token with
    | name name => exact absurd rfl (unnamed name)
    | _ => rfl

theorem expects_nil {state : GlobState} :
    Expects state [] ↔ ∀ name, state ≠ .expectId name := by
  cases state with
  | expectId name => simp [Expects, NeedsId]
  | _ => simp [Expects, continues_nil]

theorem parseFrom_cons {state : GlobState} {raw : String} {rest : List String}
    {tokens : List GlobToken} :
    parseFrom state (raw :: rest) = .ok tokens ↔ ∃ token next later,
      token.SpeltBy raw ∧ state.advance token = .ok next ∧ parseFrom next rest = .ok later ∧
        tokens = token :: later := by
  simp only [parseFrom, ← GlobToken.classify_eq_ok]
  constructor
  · intro read
    split at read
    · cases read
    next token spelt =>
      split at read
      · cases read
      next next moved =>
        obtain ⟨later, more, rfl⟩ := map_eq_ok.1 read
        exact ⟨token, next, later, spelt, moved, more, rfl⟩
  · rintro ⟨token, next, later, spelt, moved, more, rfl⟩
    simp only [spelt, moved, more, Except.map]

/-- A pattern is read as tokens that it spells one by one, and through which the automaton runs
without being left to wait for an id. -/
theorem parseFrom_eq_ok {state : GlobState} {raws : List String} {tokens : List GlobToken} :
    parseFrom state raws = .ok tokens ↔ List.Forall₂ GlobToken.SpeltBy tokens raws ∧
      ∃ last, tokens.foldlM GlobState.advance state = .ok last ∧
        ∀ name, last ≠ .expectId name := by
  -- for all states at once, since every segment moves the automaton
  induction raws generalizing state tokens with
  | nil =>
    rw [List.forall₂_nil_right_iff]
    constructor
    · intro read
      cases state with
      | expectId => cases read
      | _ => cases read; exact ⟨rfl, _, rfl, by simp⟩
    · rintro ⟨rfl, last, run, ended⟩
      cases run
      cases state with
      | expectId name => exact absurd rfl (ended name)
      | _ => rfl
  | cons raw rest ih =>
    rw [parseFrom_cons, List.forall₂_cons_right_iff]
    constructor
    · rintro ⟨token, next, later, spelt, moved, more, rfl⟩
      obtain ⟨others, last, run, ended⟩ := ih.1 more
      exact ⟨⟨token, later, spelt, others, rfl⟩, last, by rwa [List.foldlM_cons, moved], ended⟩
    · rintro ⟨⟨token, later, spelt, others, rfl⟩, last, run, ended⟩
      obtain ⟨next, moved, more⟩ := bind_eq_ok.1 run
      exact ⟨token, next, later, spelt, moved, ih.2 ⟨others, last, more, ended⟩, rfl⟩

theorem parseFrom_accepts {state : GlobState} {raws : List String} :
    (∃ tokens, parseFrom state raws = .ok tokens) ↔ Expects state raws := by
  induction raws generalizing state with
  | nil =>
    rw [expects_nil]
    cases state <;> simp [parseFrom]
  | cons raw rest ih =>
    rw [expects_cons]
    constructor
    · rintro ⟨tokens, read⟩
      obtain ⟨token, next, later, spelt, moved, more, -⟩ := parseFrom_cons.1 read
      exact ⟨token, next, spelt, moved, ih.1 ⟨later, more⟩⟩
    · rintro ⟨token, next, spelt, moved, expected⟩
      obtain ⟨later, more⟩ := ih.2 expected
      exact ⟨token :: later, parseFrom_cons.2 ⟨token, next, later, spelt, moved, more, rfl⟩⟩

theorem pieces_ne_nil (path : String) : Ancestry.pieces path ≠ [] := by
  simp [Ancestry.pieces, List.splitOn, List.splitOnP_ne_nil]

theorem parse_eq_ok {pattern : String} {glob : Glob} :
    parse pattern = .ok glob ↔ parseFrom .start (Ancestry.pieces pattern) = .ok glob.tokens := by
  unfold parse
  by_cases empty : pattern = ""
  · subst empty
    have refused : parseFrom .start (Ancestry.pieces "") = .error ⟨"", .emptySegment⟩ := rfl
    simp [refused]
  · rw [if_neg empty, map_eq_ok]
    constructor
    · rintro ⟨tokens, read, rfl⟩
      exact read
    · exact fun read => ⟨glob.tokens, read, rfl⟩

theorem parse_spelt {pattern : String} {glob : Glob} (parsed : parse pattern = .ok glob) :
    List.Forall₂ GlobToken.SpeltBy glob.tokens (Ancestry.pieces pattern) :=
  (parseFrom_eq_ok.1 (parse_eq_ok.1 parsed)).1

/-- A string is a pattern exactly when its segments are a sentence of the grammar. -/
theorem parses_iff_sentence (pattern : String) :
    (∃ glob, parse pattern = .ok glob) ↔
      ∃ sentence : Sentence, Ancestry.pieces pattern = sentence.raws := by
  have accepted : (∃ glob, parse pattern = .ok glob) ↔
      Continues IsWildcard none (Ancestry.pieces pattern) := by
    rw [show Continues IsWildcard none = Expects .start from rfl, ← parseFrom_accepts]
    constructor
    · rintro ⟨glob, read⟩
      exact ⟨glob.tokens, parse_eq_ok.1 read⟩
    · rintro ⟨tokens, read⟩
      exact ⟨⟨tokens⟩, parse_eq_ok.2 read⟩
  rw [accepted]
  constructor
  · rintro ⟨head, blocks, opened, ordered, same⟩
    refine ⟨⟨head, blocks, opened, ?_, ordered⟩, same⟩
    by_contra empty
    obtain ⟨rfl, rfl⟩ := by simpa using empty
    exact pieces_ne_nil pattern same
  · rintro ⟨sentence, same⟩
    exact ⟨sentence.head, sentence.blocks, sentence.head_opened, sentence.ordered, same⟩

end Glob

end PolicyReview
