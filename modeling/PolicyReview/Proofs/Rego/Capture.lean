import Mathlib.Data.List.Chain
import PolicyReview.Proofs.Rego.RawString
import PolicyReview.Rego.Evaluation
import PolicyReview.Rego.Module.Reader

/-! Function rules that have a parameter with the short name of an import. The rules keep their
parameters, and a use of such a parameter is kept or replaced by the path by what stands next to it
alone. A rewriting that knows the scopes of parameters writes the same exactly where no such use is
replaced. -/

namespace PolicyReview.Rego

/-! The parts of a module. -/

namespace Lexeme

def isGap : Lexeme → Bool
  | .comment _ => true
  | .other c => Text.isBlank c
  | _ => false

def word? : Lexeme → Option (List Char)
  | .word text => some text
  | _ => none

end Lexeme

def closes (lexemes : List Lexeme) : Bool :=
  (lexemes.find? (!·.isGap)).any fun mark => mark = .other ',' || mark = .other ')'

/-- The words that are whole items, up to the closing parenthesis. `fresh` says whether the item at
hand has had gaps only. -/
def parametersFrom (fresh : Bool) : List Lexeme → List (List Char)
  | [] => []
  | lexeme :: rest =>
    if lexeme = .other ')' then []
    else (if fresh && closes rest then lexeme.word?.toList else []) ++
      parametersFrom (lexeme = .other ',' || fresh && lexeme.isGap) rest

/-- A function rule: its name, and what comes after the opening parenthesis. -/
structure FunctionRule where
  name : List Char
  rest : List Lexeme

namespace FunctionRule

def lexemes (rule : FunctionRule) : List Lexeme := .word rule.name :: .other '(' :: rule.rest

def parameters (rule : FunctionRule) : List (List Char) := parametersFrom true rule.rest

end FunctionRule

inductive Part where
  | function (rule : FunctionRule)
  | code (lexemes : List Lexeme)

namespace Part

def lexemes : Part → List Lexeme
  | .function rule => rule.lexemes
  | .code lexemes => lexemes

/-- The names that are parameters all over a part. -/
def bound : Part → List (List Char)
  | .function rule => rule.parameters
  | .code _ => []

end Part

structure Piece where
  part : Part
  places : List Occurrence

/-- The parts of a module with the places of their lexemes. -/
def pieces (places : List Occurrence) : List Part → List Piece
  | [] => []
  | part :: rest =>
    ⟨part, places.take part.lexemes.length⟩ :: pieces (places.drop part.lexemes.length) rest

def Piece.qualified (aliases : AliasTable) (piece : Piece) : Part :=
  match piece.part with
  | .function rule =>
    .function ⟨rule.name, (piece.places.drop 2).flatMap (·.replaced aliases)⟩
  | .code _ => .code (piece.places.flatMap (·.replaced aliases))

def AliasTable.without (aliases : AliasTable) (bound : List (List Char)) : AliasTable :=
  aliases.filter fun entry => !bound.contains entry.1

def scopedText (aliases : AliasTable) (pieces : List Piece) : List Char :=
  pieces.flatMap fun piece =>
    piece.places.flatMap (·.written (aliases.without piece.part.bound))

namespace Occurrence

def Leads (place : Occurrence) : Prop :=
  place.after = some (.other '.') ∧ place.before ≠ some (.other '.')

instance (place : Occurrence) : Decidable place.Leads := inferInstanceAs (Decidable (_ ∧ _))

structure IsCaptured (aliases : AliasTable) (bound : List (List Char)) (place : Occurrence) :
    Prop where
  leads : place.Leads
  word : ∃ name ∈ bound, place.lexeme = .word name ∧ (aliases.lookup name).isSome

instance (aliases : AliasTable) (bound : List (List Char)) (place : Occurrence) :
    Decidable (place.IsCaptured aliases bound) :=
  decidable_of_iff (place.Leads ∧
      ∃ name ∈ bound, place.lexeme = .word name ∧ (aliases.lookup name).isSome)
    ⟨fun captured => ⟨captured.1, captured.2⟩, fun captured => ⟨captured.1, captured.2⟩⟩

end Occurrence

section

variable {aliases : AliasTable} {bound : List (List Char)} {place : Occurrence}
  {places : List Occurrence} {parts : List Part} {name path : List Char}

/-! Parameters are kept. -/

theorem closes_cons {lexeme : Lexeme} (solid : lexeme.isGap = false) (lexemes : List Lexeme) :
    closes (lexeme :: lexemes) = (lexeme = .other ',' || lexeme = .other ')') := by
  simp [closes, solid]

theorem closes_word (text : List Char) (lexemes : List Lexeme) :
    closes (.word text :: lexemes) = false :=
  closes_cons rfl lexemes

theorem closes_point (lexemes : List Lexeme) : closes (.other '.' :: lexemes) = false :=
  closes_cons (by decide) lexemes

theorem closes_ofPath (segment : List Char) (segments : List (List Char)) (lexemes : List Lexeme) :
    closes (Lexeme.ofPath (segment :: segments) ++ lexemes) = false := by
  cases segments with
  | nil => exact closes_word segment lexemes
  | cons second later => exact closes_word segment _

theorem parametersFrom_point (fresh : Bool) (lexemes : List Lexeme) :
    parametersFrom fresh (.other '.' :: lexemes) = parametersFrom false lexemes := by
  have solid : (Lexeme.other '.').isGap = false := by decide
  simp [parametersFrom, Lexeme.word?, solid]

theorem parametersFrom_word (fresh : Bool) {lexemes : List Lexeme} (goesOn : closes lexemes = false)
    (text : List Char) :
    parametersFrom fresh (.word text :: lexemes) = parametersFrom false lexemes := by
  simp [parametersFrom, goesOn, Lexeme.isGap]

theorem parametersFrom_ofPath (fresh : Bool) (segment : List Char) (segments : List (List Char))
    {lexemes : List Lexeme} (goesOn : closes lexemes = false) :
    parametersFrom fresh (Lexeme.ofPath (segment :: segments) ++ lexemes) =
      parametersFrom false lexemes := by
  induction segments generalizing fresh segment with
  | nil => exact parametersFrom_word fresh goesOn segment
  | cons second later ih =>
    have split : Lexeme.ofPath (segment :: second :: later) ++ lexemes =
        .word segment :: .other '.' :: (Lexeme.ofPath (second :: later) ++ lexemes) := rfl
    rw [split, parametersFrom_word fresh (closes_point _), parametersFrom_point, ih]

def Linked (places : List Occurrence) : Prop :=
  places.IsChain fun place next => place.after = some next.lexeme

theorem linked_occurrencesFrom (line : Nat) (before : Option Lexeme) (lexemes : List Lexeme) :
    Linked (occurrencesFrom line before lexemes) := by
  induction lexemes generalizing line before with
  | nil => exact .nil
  | cons lexeme rest ih =>
    have later := ih (line + lexeme.text.count '\n') (some lexeme)
    rw [occurrencesFrom]
    cases rest with
    | nil => exact .singleton _
    | cons second others =>
      rw [occurrencesFrom] at later ⊢
      exact .cons_cons rfl later

/-- A lexeme is kept, or it is a word before a point and a path comes in its place. -/
theorem Occurrence.replaced_cases (proper : aliases.IsProper) (place : Occurrence) :
    place.replaced aliases = [place.lexeme] ∨
      ∃ name segments, place.lexeme = .word name ∧ place.after = some (.other '.') ∧
        place.replaced aliases = Lexeme.ofPath (['d', 'a', 't', 'a'] :: segments) := by
  rw [replaced]
  cases use : place.path? aliases with
  | none => exact .inl rfl
  | some path =>
    obtain ⟨name, word, listed, point⟩ := path?_eq_some use
    obtain ⟨segments, read⟩ := (proper name path listed).path.list_eq
    exact .inr ⟨name, segments, word, point, read⟩

theorem closes_replaced (proper : aliases.IsProper) (places : List Occurrence) :
    closes (places.flatMap (·.replaced aliases)) = closes (places.map Occurrence.lexeme) := by
  induction places with
  | nil => rfl
  | cons place rest ih =>
    rw [List.flatMap_cons, List.map_cons]
    rcases place.replaced_cases proper with kept | ⟨name, segments, word, -, path⟩
    · rw [kept, List.singleton_append]
      by_cases gap : place.lexeme.isGap = true
      · simpa [closes, gap] using ih
      · rw [closes_cons (by simpa using gap), closes_cons (by simpa using gap)]
    · rw [path, closes_ofPath, word, closes_word]

theorem parametersFrom_replaced (proper : aliases.IsProper) (linked : Linked places)
    (fresh : Bool) :
    parametersFrom fresh (places.flatMap (·.replaced aliases)) =
      parametersFrom fresh (places.map Occurrence.lexeme) := by
  induction places generalizing fresh with
  | nil => rfl
  | cons place rest ih =>
    have later := ih linked.tail
    have closing := closes_replaced proper rest
    rw [List.flatMap_cons, List.map_cons]
    rcases place.replaced_cases proper with kept | ⟨name, segments, word, point, path⟩
    · rw [kept, List.singleton_append, parametersFrom, parametersFrom, closing, later]
    · have goesOn : closes (rest.map Occurrence.lexeme) = false := by
        cases rest with
        | nil => rfl
        | cons next others =>
          have next : next.lexeme = .other '.' := Option.some.inj (linked.rel.symm.trans point)
          rw [List.map_cons, next]
          exact closes_point _
      calc parametersFrom fresh (place.replaced aliases ++ rest.flatMap (·.replaced aliases))
          = parametersFrom false (rest.flatMap (·.replaced aliases)) := by
            rw [path, parametersFrom_ofPath fresh _ _ (closing.trans goesOn)]
        _ = parametersFrom false (rest.map Occurrence.lexeme) := later false
        _ = parametersFrom fresh (place.lexeme :: rest.map Occurrence.lexeme) := by
            rw [word, parametersFrom_word fresh goesOn]

/-! Pieces. -/

structure Piece.IsSound (piece : Piece) : Prop where
  lexemes : piece.places.map Occurrence.lexeme = piece.part.lexemes
  linked : Linked piece.places

theorem pieces_spec (whole : places.map Occurrence.lexeme = parts.flatMap Part.lexemes)
    (linked : Linked places) :
    (pieces places parts).map Piece.part = parts ∧
      (pieces places parts).flatMap Piece.places = places ∧
      ∀ piece ∈ pieces places parts, piece.IsSound := by
  induction parts generalizing places with
  | nil =>
    obtain rfl := List.map_eq_nil_iff.1 whole
    exact ⟨rfl, rfl, List.forall_mem_nil _⟩
  | cons part rest ih =>
    rw [List.flatMap_cons] at whole
    have own : (places.take part.lexemes.length).map Occurrence.lexeme = part.lexemes := by
      rw [List.map_take, whole, List.take_left]
    have others : (places.drop part.lexemes.length).map Occurrence.lexeme =
        rest.flatMap Part.lexemes := by
      rw [List.map_drop, whole, List.drop_left]
    obtain ⟨names, cover, sound⟩ := ih others (linked.drop _)
    refine ⟨congrArg (part :: ·) names, ?_, List.forall_mem_cons.2 ⟨⟨own, linked.take _⟩, sound⟩⟩
    rw [pieces, List.flatMap_cons, cover, List.take_append_drop]

theorem Piece.IsSound.qualified {piece : Piece} (sound : piece.IsSound)
    (proper : aliases.IsProper) :
    (piece.qualified aliases).lexemes = piece.places.flatMap (·.replaced aliases) ∧
      (piece.qualified aliases).bound = piece.part.bound := by
  obtain ⟨part, places⟩ := piece
  obtain ⟨own, linked⟩ := sound
  cases part with
  | code lexemes => exact ⟨rfl, rfl⟩
  | function rule =>
    obtain ⟨first, places, rfl, word, own⟩ := List.map_eq_cons_iff.1 own
    obtain ⟨second, places, rfl, mark, own⟩ := List.map_eq_cons_iff.1 own
    have named : first.replaced aliases = [.word rule.name] := by
      rcases first.replaced_cases proper with kept | ⟨-, -, -, point, -⟩
      · rw [kept, word]
      · cases (linked.rel.symm.trans point).symm.trans (congrArg some mark)
    have opened : second.replaced aliases = [.other '('] := by
      rcases second.replaced_cases proper with kept | ⟨_, _, other, -, -⟩
      · rw [kept, mark]
      · cases mark.symm.trans other
    constructor
    · rw [List.flatMap_cons, List.flatMap_cons, named, opened]
      rfl
    · exact (parametersFrom_replaced proper linked.tail.tail true).trans
        (congrArg (parametersFrom true) own)

/-! Uses that are captured. -/

theorem AliasTable.lookup_without (aliases : AliasTable) (bound : List (List Char))
    (name : List Char) :
    (aliases.without bound).lookup name = if name ∈ bound then none else aliases.lookup name := by
  induction aliases with
  | nil => simp [without]
  | cons entry rest ih => grind [without]

def FewerPoints (text text' : List Char) : Prop :=
  text = text' ∨ text.count '.' < text'.count '.'

theorem fewerPoints_flatMap {α : Type} {f g : α → List Char} {items : List α}
    (each : ∀ item ∈ items, FewerPoints (f item) (g item)) :
    FewerPoints (items.flatMap f) (items.flatMap g) ∧
      (items.flatMap f = items.flatMap g ↔ ∀ item ∈ items, f item = g item) := by
  induction items with
  | nil => exact ⟨.inl rfl, by simp⟩
  | cons item rest ih =>
    obtain ⟨first, others⟩ := List.forall_mem_cons.1 each
    obtain ⟨fewer, same⟩ := ih others
    rw [List.flatMap_cons, List.flatMap_cons, List.forall_mem_cons, ← same]
    rcases first with equal | less
    · rw [equal]
      refine ⟨?_, by simp⟩
      exact fewer.imp (congrArg _) fun less => by simpa using less
    · have total : (f item ++ rest.flatMap f).count '.' < (g item ++ rest.flatMap g).count '.' := by
        rw [List.count_append, List.count_append]
        rcases fewer with equal | less
        · rw [equal]
          omega
        · omega
      refine ⟨.inr total, fun equal => ?_, fun both => ?_⟩
      · rw [equal] at total
        exact absurd total (lt_irrefl _)
      · rw [both.1] at less
        exact absurd less (lt_irrefl _)

namespace Occurrence

theorem path?_word (word : place.lexeme = .word name) :
    place.path? aliases = if place.Leads then aliases.lookup name else none := by
  rw [path?, word]
  rfl

/-- A parameter with the name of an import is written as the path where it leads a reference, and
kept elsewhere. -/
theorem replaced_parameter (word : place.lexeme = .word name)
    (imported : aliases.lookup name = some path) :
    (place.Leads → place.replaced aliases = Lexeme.list path) ∧
      (¬place.Leads → place.replaced aliases = [place.lexeme]) := by
  constructor
  · intro leads
    rw [replaced, path?_word word, if_pos leads, imported]
  · intro apart
    rw [replaced, path?_word word, if_neg apart]

theorem written_without_of_isCaptured (captured : place.IsCaptured aliases bound) :
    place.written (aliases.without bound) = place.lexeme.text := by
  obtain ⟨-, name, inside, word, -⟩ := captured
  rw [written, path?_word word, AliasTable.lookup_without, if_pos inside, ite_self]
  rfl

theorem written_without (free : ¬place.IsCaptured aliases bound) :
    place.written (aliases.without bound) = place.written aliases := by
  have same : place.path? (aliases.without bound) = place.path? aliases := by
    cases kind : place.lexeme with
    | word name =>
      rw [path?_word kind, path?_word kind, AliasTable.lookup_without]
      split
      next leads =>
        split
        next inside =>
          cases found : aliases.lookup name with
          | none => rfl
          | some path => exact absurd ⟨leads, name, inside, kind, by simp [found]⟩ free
        · rfl
      · rfl
    | _ => rw [path?, path?, kind]
  rw [written, written, same]

theorem fewerPoints_written (proper : aliases.IsProper) (place : Occurrence)
    (bound : List (List Char)) :
    FewerPoints (place.written (aliases.without bound)) (place.written aliases) ∧
      (place.written (aliases.without bound) = place.written aliases ↔
        ¬place.IsCaptured aliases bound) := by
  by_cases captured : place.IsCaptured aliases bound
  · have kept := written_without_of_isCaptured captured
    obtain ⟨leads, name, inside, word, found⟩ := id captured
    obtain ⟨path, listed⟩ := Option.isSome_iff_exists.1 found
    obtain ⟨identifier, isPath⟩ := proper name path listed
    have given : place.written aliases = path := by
      rw [written, path?_word word, if_pos leads, listed, Option.getD_some]
    have less : (place.written (aliases.without bound)).count '.' <
        (place.written aliases).count '.' := by
      obtain ⟨later, rfl⟩ := isPath.eq_append
      have none : '.' ∉ name := AliasTable.notMem_of_isIdentifier identifier (by decide)
      rw [kept, given, word, Lexeme.text, List.count_eq_zero.2 none]
      simp
    refine ⟨.inr less, fun same => ?_, fun free => absurd captured free⟩
    rw [same] at less
    exact absurd less (lt_irrefl _)
  · have same := written_without captured
    exact ⟨.inl same, iff_of_true same captured⟩

end Occurrence

/-- Qualification goes part by part: function rules keep their names and parameters. A parameter
that has the short name of an import is written as the path where it leads a reference, and kept
elsewhere. Parameters are left alone all over exactly where none with such a name leads a
reference. -/
theorem qualifyImports_parameters (source : String) (parts : List Part)
    (whole : Lexeme.list source.toList = parts.flatMap Part.lexemes) :
    let aliases := AliasTable.ofSource source.toList
    let pieces := pieces (occurrences source.toList) parts
    pieces.map Piece.part = parts ∧
      (∀ piece ∈ pieces, piece.places.map Occurrence.lexeme = piece.part.lexemes) ∧
      Lexeme.list (qualifyImports source).toList =
        (pieces.map (Piece.qualified aliases)).flatMap Part.lexemes ∧
      (∀ piece ∈ pieces,
        (piece.qualified aliases).lexemes = piece.places.flatMap (·.replaced aliases) ∧
        (piece.qualified aliases).bound = piece.part.bound ∧
        ∀ place ∈ piece.places, ∀ name ∈ piece.part.bound, place.lexeme = .word name →
          ∀ path, aliases.lookup name = some path →
            (place.Leads → place.replaced aliases = Lexeme.list path) ∧
              (¬place.Leads → place.replaced aliases = [place.lexeme])) ∧
      ((qualifyImports source).toList = scopedText aliases pieces ↔
        ∀ piece ∈ pieces, ∀ place ∈ piece.places,
          ¬place.IsCaptured aliases piece.part.bound) := by
  intro aliases pieces
  have proper : aliases.IsProper := AliasTable.ofSource_isProper source.toList
  have covered : (occurrences source.toList).map Occurrence.lexeme =
      parts.flatMap Part.lexemes := by
    rw [occurrences, occurrencesFrom_lexemes, whole]
  obtain ⟨names, cover, sound⟩ := pieces_spec covered (linked_occurrencesFrom 0 none _)
  refine ⟨names, fun piece member => (sound piece member).lexemes, ?_, fun piece member => ?_, ?_⟩
  · calc Lexeme.list (qualifyImports source).toList
        = (occurrences source.toList).flatMap (·.replaced aliases) := list_qualifyImports source
      _ = pieces.flatMap fun piece => piece.places.flatMap (·.replaced aliases) := by
          rw [← cover, List.flatMap_assoc]
      _ = (pieces.map (Piece.qualified aliases)).flatMap Part.lexemes := by
          rw [List.flatMap_map]
          apply List.flatMap_congr
          exact fun piece member => ((sound piece member).qualified proper).1.symm
  · obtain ⟨lexemes, bound⟩ := (sound piece member).qualified proper
    exact ⟨lexemes, bound, fun place _ name _ word path imported =>
      Occurrence.replaced_parameter word imported⟩
  · have each (piece : Piece) := fewerPoints_flatMap fun place (_ : place ∈ piece.places) =>
      (place.fewerPoints_written proper piece.part.bound).1
    have all := (fewerPoints_flatMap fun piece (_ : piece ∈ pieces) => (each piece).1).2
    rw [toList_qualifyImports, ← cover, List.flatMap_assoc, eq_comm, scopedText]
    refine all.trans (forall₂_congr fun piece _ => ?_)
    exact (each piece).2.trans (forall₂_congr fun place _ =>
      (place.fewerPoints_written proper piece.part.bound).2)

end

theorem qualifyImports_parameters_count :
    let source := "import data.lib.fleet\nsize(fleet) := count(fleet)\n"
    let parts : List Part := [.code (Lexeme.list "import data.lib.fleet\n".toList),
      .function ⟨"size".toList, Lexeme.list "fleet) := count(fleet)\n".toList⟩]
    Lexeme.list source.toList = parts.flatMap Part.lexemes ∧
      parts.map Part.bound = [[], ["fleet".toList]] ∧
      (qualifyImports source).toList = scopedText (AliasTable.ofSource source.toList)
        (pieces (occurrences source.toList) parts) := by
  have whole : Lexeme.list "import data.lib.fleet\nsize(fleet) := count(fleet)\n".toList =
      [Part.code (Lexeme.list "import data.lib.fleet\n".toList), Part.function
        ⟨"size".toList, Lexeme.list "fleet) := count(fleet)\n".toList⟩].flatMap Part.lexemes := by
    decide +kernel
  obtain ⟨-, -, -, -, alone⟩ := qualifyImports_parameters _ _ whole
  exact ⟨whole, by decide +kernel, alone.2 (by decide +kernel)⟩

def truth? (library source : String) (path : List String) : Option Bool := do
  let library ← Module.read? library
  let module ← Module.read? source
  match Program.query [library.arrange, module.arrange] .null path with
  | .ok (some (.bool truth)) => some truth
  | _ => none

/-- A rule asks an import in place of its argument where a parameter that has the name of the import
leads a reference. -/
theorem qualifyImports_captured :
    let library := "package lib.fleet\nknown := false\n"
    let head := "package p\nimport data.lib.fleet\n"
    let last := "answer := f(\x7b\x22known\x22: true\x7d)\n"
    let source := head ++ "f(fleet) := fleet.known\n" ++ last
    let rule : FunctionRule := ⟨"f".toList, Lexeme.list "fleet) := fleet.known\n".toList⟩
    Lexeme.list source.toList =
        Lexeme.list head.toList ++ rule.lexemes ++ Lexeme.list last.toList ∧
      rule.parameters = ["fleet".toList] ∧
      AliasTable.ofSource source.toList = [("fleet".toList, "data.lib.fleet".toList)] ∧
      qualifyImports source = head ++ "f(fleet) := data.lib.fleet.known\n" ++ last ∧
      truth? library source ["p", "answer"] = some true ∧
      truth? library (qualifyImports source) ["p", "answer"] = some false := by
  refine ⟨?_, ?_, ?_, ?_, ?_, ?_⟩ <;> decide +kernel

end PolicyReview.Rego
