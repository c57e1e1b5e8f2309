import PolicyReview.Proofs.Ascending
import PolicyReview.Proofs.Rego.Lexeme
import PolicyReview.Proofs.Text.Split

/-! Qualification of imports is a substitution of lexemes. The text that it writes has the lexemes
of the source, those that stand for imported paths being replaced by the lexemes of these paths, and
lines neither come nor go. -/

namespace PolicyReview.Rego

open Lexeme (isWordStart isWordChar)

namespace Lexeme

variable {name rest : List Char} {segments : List (List Char)} {text : List Char}

/-! Identifiers and paths of them as lexemes. -/

theorem list_identifier (identifier : AliasTable.isIdentifier name = true)
    (stops : ∀ d, rest.head? = some d → isWordChar d = false) :
    list (name ++ rest) = .word name :: list rest := by
  cases name with
  | nil => cases identifier
  | cons c cs =>
    obtain ⟨start, inside⟩ := Bool.and_eq_true_iff.1 identifier
    have taken := span_run (List.all_eq_true.1 inside) stops
    rw [List.cons_append, list_cons, next_word start, taken]

theorem list_point (rest : List Char) : list ('.' :: rest) = .other '.' :: list rest := by
  rw [list_cons]
  rfl

def ofPath (segments : List (List Char)) : List Lexeme :=
  (segments.map Lexeme.word).intersperse (.other '.')

theorem list_path (rest : List Char)
    (identifiers : ∀ segment ∈ segments, AliasTable.isIdentifier segment = true)
    (stops : ∀ d, rest.head? = some d → isWordChar d = false) :
    list (['.'].intercalate segments ++ rest) = ofPath segments ++ list rest := by
  induction segments with
  | nil => rfl
  | cons segment later ih =>
    obtain ⟨first, others⟩ := List.forall_mem_cons.1 identifiers
    cases later with
    | nil => simpa [ofPath] using list_identifier first stops
    | cons second later =>
      have point : ∀ d, ('.' :: (['.'].intercalate (second :: later) ++ rest)).head? = some d →
          isWordChar d = false := by
        rintro d ⟨⟩
        rfl
      have split : ['.'].intercalate (segment :: second :: later) ++ rest =
          segment ++ '.' :: (['.'].intercalate (second :: later) ++ rest) := by
        simp [List.intercalate]
      rw [split, list_identifier first point, list_point, ih others]
      rfl

end Lexeme

theorem AliasTable.notMem_of_isIdentifier {name : List Char} {c : Char}
    (identifier : isIdentifier name = true) (unfit : isWordChar c = false) : c ∉ name := by
  intro inside
  have fit : isWordChar c = true := by
    cases name with
    | nil => cases inside
    | cons first others =>
      obtain ⟨start, later⟩ := Bool.and_eq_true_iff.1 identifier
      rcases List.mem_cons.1 inside with rfl | inside
      · exact Lexeme.isWordChar_of_isWordStart start
      · exact List.all_eq_true.1 later c inside
  rw [unfit] at fit
  cases fit

/-! The paths that a table of short names holds. -/

def IsDataPath (path : List Char) : Prop :=
  ∃ segments ≠ [], (∀ segment ∈ segments, AliasTable.isIdentifier segment = true) ∧
    path = ['.'].intercalate (['d', 'a', 't', 'a'] :: segments)

namespace IsDataPath

variable {path rest : List Char}

theorem eq_append (isPath : IsDataPath path) :
    ∃ later, path = ['d', 'a', 't', 'a'] ++ '.' :: later := by
  obtain ⟨segments, filled, -, rfl⟩ := isPath
  obtain ⟨first, others, rfl⟩ := List.exists_cons_of_ne_nil filled
  exact ⟨['.'].intercalate (first :: others), by simp [List.intercalate]⟩

theorem notMem {c : Char} (isPath : IsDataPath path) (unfit : isWordChar c = false)
    (apart : c ≠ '.') : c ∉ path := by
  obtain ⟨segments, -, identifiers, rfl⟩ := isPath
  intro inside
  obtain ⟨piece, among, inside⟩ := List.mem_flatten.1 inside
  rcases Text.eq_or_mem_of_mem_intersperse among with rfl | segment
  · exact apart (List.mem_singleton.1 inside)
  · refine AliasTable.notMem_of_isIdentifier ?_ unfit inside
    rcases List.mem_cons.1 segment with rfl | later
    · decide
    · exact identifiers piece later

theorem head? (isPath : IsDataPath path) : path.head? = some 'd' := by
  obtain ⟨later, rfl⟩ := isPath.eq_append
  rfl

theorem list_eq (isPath : IsDataPath path) :
    ∃ segments, Lexeme.list path = Lexeme.ofPath (['d', 'a', 't', 'a'] :: segments) := by
  obtain ⟨segments, -, identifiers, rfl⟩ := isPath
  have identifiers : ∀ segment ∈ ['d', 'a', 't', 'a'] :: segments,
      AliasTable.isIdentifier segment = true :=
    List.forall_mem_cons.2 ⟨by decide, identifiers⟩
  have read := Lexeme.list_path [] identifiers (by simp)
  rw [List.append_nil, Lexeme.list_nil, List.append_nil] at read
  exact ⟨segments, read⟩

theorem list_append (isPath : IsDataPath path)
    (stops : ∀ d, rest.head? = some d → isWordChar d = false) :
    Lexeme.list (path ++ rest) = Lexeme.list path ++ Lexeme.list rest := by
  obtain ⟨segments, -, identifiers, rfl⟩ := isPath
  have identifiers : ∀ segment ∈ ['d', 'a', 't', 'a'] :: segments,
      AliasTable.isIdentifier segment = true :=
    List.forall_mem_cons.2 ⟨by decide, identifiers⟩
  have alone := Lexeme.list_path [] identifiers (by simp)
  rw [List.append_nil, Lexeme.list_nil, List.append_nil] at alone
  rw [alone, Lexeme.list_path rest identifiers stops]

end IsDataPath

namespace AliasTable

variable {line path short : List Char} {entry : List Char × List Char}

structure IsEntry (entry : List Char × List Char) : Prop where
  short : isIdentifier entry.1 = true
  path : IsDataPath entry.2

theorem isEntry_of_entry? (given : entry? path short = some entry) : IsEntry entry := by
  unfold entry? at given
  split at given
  next segment segments cut =>
    split at given
    next fine =>
      obtain rfl := Option.some.inj given
      rw [Bool.and_eq_true, List.all_eq_true] at fine
      refine ⟨fine.2, segment :: segments, List.cons_ne_nil _ _, fine.1, ?_⟩
      rw [← cut, List.intercalate_splitOn]
    · cases given
  · cases given

theorem isEntry_of_ofLine? (given : ofLine? line = some entry) : IsEntry entry := by
  simp only [ofLine?] at given
  split at given
  next =>
    split at given
    · exact isEntry_of_entry? given
    · exact isEntry_of_entry? given
    · cases given
  · cases given

/-- Everything that can be looked up is well formed. -/
def IsProper (aliases : AliasTable) : Prop :=
  ∀ short path, aliases.lookup short = some path → IsEntry (short, path)

theorem ofSource_isProper (source : List Char) : (ofSource source).IsProper := by
  intro short path found
  obtain ⟨line, -, imported⟩ := List.mem_filterMap.1 (List.mem_reverse.1 (mem_of_lookup found))
  exact isEntry_of_ofLine? imported

end AliasTable

/-! Where the lexemes of a text stand. -/

structure Occurrence where
  line : Nat
  before : Option Lexeme
  lexeme : Lexeme
  after : Option Lexeme

def lineBreaks (lexemes : List Lexeme) : Nat := (lexemes.flatMap Lexeme.text).count '\n'

def occurrencesFrom (line : Nat) (before : Option Lexeme) : List Lexeme → List Occurrence
  | [] => []
  | lexeme :: rest =>
    ⟨line, before, lexeme, rest.head?⟩ ::
      occurrencesFrom (line + lexeme.text.count '\n') (some lexeme) rest

def occurrences (source : List Char) : List Occurrence :=
  occurrencesFrom 0 none (Lexeme.list source)

namespace Occurrence

/-- The path that stands behind a word before a point and not after one, when the word is the short
name of an imported path. -/
def path? (aliases : AliasTable) (occurrence : Occurrence) : Option (List Char) :=
  match occurrence.lexeme with
  | .word text =>
    if occurrence.after = some (.other '.') ∧ occurrence.before ≠ some (.other '.') then
      aliases.lookup text
    else none
  | _ => none

def replaced (aliases : AliasTable) (occurrence : Occurrence) : List Lexeme :=
  match occurrence.path? aliases with
  | some path => Lexeme.list path
  | none => [occurrence.lexeme]

/-- The text that comes in place of a lexeme. -/
def written (aliases : AliasTable) (occurrence : Occurrence) : List Char :=
  (occurrence.path? aliases).getD occurrence.lexeme.text

variable {aliases : AliasTable} {occurrence : Occurrence} {path : List Char}

theorem flatMap_text_replaced :
    (occurrence.replaced aliases).flatMap Lexeme.text = occurrence.written aliases := by
  unfold replaced written
  cases occurrence.path? aliases with
  | some path => exact Lexeme.flatMap_text_list path
  | none => simp

theorem path?_eq_some (use : occurrence.path? aliases = some path) :
    ∃ name, occurrence.lexeme = .word name ∧ aliases.lookup name = some path ∧
      occurrence.after = some (.other '.') := by
  unfold path? at use
  split at use
  next name word =>
    split at use
    next inPlace => exact ⟨name, word, use, inPlace.1⟩
    · cases use
  · cases use

end Occurrence

/-! What is written lexeme by lexeme, and how it is read. -/

section

variable {aliases : AliasTable} {line : Nat} {before : Option Lexeme} {lexeme : Lexeme}
  {rest : List Char}

theorem qualifyLexemes_eq_flatMap (line : Nat) (before : Option Lexeme) (lexemes : List Lexeme) :
    qualifyLexemes aliases (before == some (.other '.')) lexemes =
      (occurrencesFrom line before lexemes).flatMap (·.written aliases) := by
  induction lexemes generalizing line before with
  | nil => rfl
  | cons lexeme later ih =>
    rw [occurrencesFrom, List.flatMap_cons, ← ih]
    cases lexeme with
    | word text =>
      have apart : (some (Lexeme.word text) == some (.other '.')) = false := by simp
      rw [apart, qualifyLexemes]
      congr 1
      simp only [Occurrence.written, Occurrence.path?, Lexeme.text]
      cases aliases.lookup text with
      | none => simp
      | some path =>
        by_cases point : later.head? = some (.other '.') <;>
          by_cases led : before = some (.other '.') <;> simp [point, led]
    | comment text => rfl
    | quoted text => rfl
    | raw text => rfl
    | other c => rfl

/-- The text that is written for the lexemes of another begins like it, and has the lexemes that
come in place of those. -/
theorem list_written (proper : aliases.IsProper) (cs : List Char) (line : Nat)
    (before : Option Lexeme) :
    Lexeme.Alike cs ((occurrencesFrom line before (Lexeme.list cs)).flatMap (·.written aliases)) ∧
      Lexeme.list ((occurrencesFrom line before (Lexeme.list cs)).flatMap (·.written aliases)) =
        (occurrencesFrom line before (Lexeme.list cs)).flatMap (·.replaced aliases) := by
  induction cs using Lexeme.list_induction generalizing line before with
  | nil => exact ⟨.inl rfl, rfl⟩
  | cons c cs ih =>
    rw [Lexeme.list_cons, occurrencesFrom, List.flatMap_cons, List.flatMap_cons]
    obtain ⟨alike, read⟩ := ih (line + (Lexeme.next c cs).1.text.count '\n') (Lexeme.next c cs).1
    generalize hplace : Occurrence.mk line before (Lexeme.next c cs).1
      (Lexeme.list (Lexeme.next c cs).2).head? = place
    generalize (occurrencesFrom _ _ (Lexeme.list (Lexeme.next c cs).2)) = later at alike read ⊢
    have own : place.lexeme = (Lexeme.next c cs).1 := by rw [← hplace]
    cases use : place.path? aliases with
    | none =>
      have kept : place.written aliases = (Lexeme.next c cs).1.text := by
        rw [Occurrence.written, use, own, Option.getD_none]
      have same : place.replaced aliases = [(Lexeme.next c cs).1] := by
        rw [Occurrence.replaced, use, own]
      rw [kept, same, Lexeme.list_exchange alike, read]
      refine ⟨.inl ?_, rfl⟩
      rw [List.head?_append, Lexeme.next_text_head]
      rfl
    | some path =>
      obtain ⟨name, word, listed, point⟩ := Occurrence.path?_eq_some use
      have isPath := (proper _ _ listed).path
      have kept : place.written aliases = path := by
        rw [Occurrence.written, use, Option.getD_some]
      have same : place.replaced aliases = Lexeme.list path := by
        rw [Occurrence.replaced, use]
      have start := Lexeme.isWordStart_of_next (own.symm.trans word)
      have stops := alike.head?_point (Lexeme.head?_of_list_point (by rw [← point, ← hplace]))
      rw [kept, same, ← read, isPath.list_append]
      · refine ⟨.inr ⟨c, 'd', rfl, ?_, start, rfl⟩, rfl⟩
        rw [List.head?_append, isPath.head?]
        rfl
      · rintro d first
        obtain rfl := Option.some.inj (first.symm.trans stops)
        rfl

theorem Occurrence.count_written (proper : aliases.IsProper) (occurrence : Occurrence) :
    (occurrence.written aliases).count '\n' = occurrence.lexeme.text.count '\n' := by
  rw [written]
  cases use : occurrence.path? aliases with
  | none => rfl
  | some path =>
    obtain ⟨name, word, listed, -⟩ := path?_eq_some use
    have entry := proper _ _ listed
    have inPath : '\n' ∉ path := entry.path.notMem rfl (by decide)
    have inName : '\n' ∉ name := AliasTable.notMem_of_isIdentifier entry.short rfl
    rw [Option.getD_some, word, Lexeme.text, List.count_eq_zero.2 inPath,
      List.count_eq_zero.2 inName]

theorem lineBreaks_replaced (proper : aliases.IsProper) (occurrence : Occurrence) :
    lineBreaks (occurrence.replaced aliases) = lineBreaks [occurrence.lexeme] := by
  rw [lineBreaks, occurrence.flatMap_text_replaced, occurrence.count_written proper, lineBreaks,
    List.flatMap_singleton]

end

theorem lineBreaks_append (lexemes later : List Lexeme) :
    lineBreaks (lexemes ++ later) = lineBreaks lexemes + lineBreaks later := by
  rw [lineBreaks, List.flatMap_append, List.count_append]
  rfl

theorem occurrencesFrom_lexemes (line : Nat) (before : Option Lexeme) (lexemes : List Lexeme) :
    (occurrencesFrom line before lexemes).map Occurrence.lexeme = lexemes := by
  induction lexemes generalizing line before with
  | nil => rfl
  | cons lexeme rest ih => rw [occurrencesFrom, List.map_cons, ih]

/-- The lexemes of a text that is qualified are those of the source, each one with what comes in its
place, and as many line breaks stand before it as before. -/
theorem qualifyImports_lexemes (source : String) :
    let lexemes := Lexeme.list source.toList
    let pieces :=
      (occurrences source.toList).map (·.replaced (AliasTable.ofSource source.toList))
    lexemes.flatMap Lexeme.text = source.toList ∧
      (occurrences source.toList).map Occurrence.lexeme = lexemes ∧
      Lexeme.list (qualifyImports source).toList = pieces.flatten ∧
      pieces.flatten.flatMap Lexeme.text = (qualifyImports source).toList ∧
      ∀ i, lineBreaks (pieces.take i).flatten = lineBreaks (lexemes.take i) := by
  intro lexemes pieces
  have proper := AliasTable.ofSource_isProper source.toList
  have read : Lexeme.list (qualifyImports source).toList = pieces.flatten := by
    rw [qualifyImports, String.toList_ofList, qualifyChars]
    have start : (none == some (Lexeme.other '.')) = false := rfl
    rw [← start, qualifyLexemes_eq_flatMap 0, (list_written proper source.toList 0 none).2]
    exact List.flatMap_def
  refine ⟨Lexeme.flatMap_text_list _, occurrencesFrom_lexemes _ _ _, read, ?_, fun i => ?_⟩
  · rw [← read, Lexeme.flatMap_text_list]
  · have own : lexemes = (occurrences source.toList).map Occurrence.lexeme :=
      (occurrencesFrom_lexemes _ _ _).symm
    rw [own, ← List.map_take, ← List.map_take]
    induction (occurrences source.toList).take i with
    | nil => rfl
    | cons occurrence rest ih =>
      rw [List.map_cons, List.map_cons, List.flatten_cons, lineBreaks_append,
        lineBreaks_replaced proper, ih, ← lineBreaks_append]
      rfl

end PolicyReview.Rego
