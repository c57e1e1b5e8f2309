import PolicyReview.Proofs.Rego.Capture
import PolicyReview.Proofs.Rego.Expansion

/-! A second qualification. Where no line imports from a root that has the short name of a path, the
text that is written imports what the source does, under the same names, and uses none of them, so
that it is written again as it stands. -/

namespace PolicyReview.Rego

open Lexeme (isWordChar)

/-! What lines import. -/

def importedWords (line : List Char) : List (List Char) :=
  Text.words ((Text.trimChars (line.takeWhile (· ≠ '#'))).drop (importWord.length + 1))

def importedRoot? (line : List Char) : Option (List Char) :=
  if IsImportLine line then
    (importedWords line).head?.map fun word => (word.splitOn '.').headD []
  else none

/-- The roots that the lines of a source import from. -/
def importedRoots (source : List Char) : List (List Char) :=
  (source.splitOn '\n').filterMap importedRoot?

theorem IsImportLine.words {line : List Char} (imports : IsImportLine line) :
    Text.words (line.takeWhile (· ≠ '#')) = importWord :: importedWords line := by
  obtain ⟨rest, trimmed⟩ := imports
  have lead : (importWord ++ [' ']).length = importWord.length + 1 := List.length_append
  rw [importedWords, ← Text.words_trimChars, ← trimmed, List.drop_left' lead, List.append_assoc,
    List.singleton_append, Text.words_append_cons (by decide)]
  rfl

namespace AliasTable

def ofWords? : List (List Char) → Option (List Char × List Char)
  | [path] => entry? path ((path.splitOn '.').getLast?.getD [])
  | [path, ['a', 's'], short] => entry? path short
  | _ => none

theorem ofLine?_of_isImportLine {line : List Char} (imports : IsImportLine line) :
    ofLine? line = ofWords? (importedWords line) :=
  if_pos (List.isPrefixOf_iff_prefix.2 imports)

theorem ofWords?_eq_some {words : List (List Char)} {entry : List Char × List Char}
    (given : ofWords? words = some entry) : ∃ path rest, words = path :: rest ∧
      IsDataPath path ∧ ∀ word ∈ rest, isIdentifier word = true := by
  unfold ofWords? at given
  split at given
  next path =>
    exact ⟨path, [], rfl, (entry?_eq_some given).2, List.forall_mem_nil _⟩
  next path short =>
    obtain ⟨identifier, isPath⟩ := entry?_eq_some given
    refine ⟨path, _, rfl, isPath, List.forall_mem_cons.2 ⟨by decide, ?_⟩⟩
    exact List.forall_mem_singleton.2 identifier
  · cases given

end AliasTable

theorem IsDataPath.root {path : List Char} (isPath : IsDataPath path) :
    (path.splitOn '.').headD [] = ['d', 'a', 't', 'a'] := by
  obtain ⟨later, rfl⟩ := isPath.eq_append
  rw [Text.splitOn_append_cons (by decide)]
  rfl

section

variable {aliases : AliasTable} {line line' word word' : List Char}
  {words words' lines lines' : List (List Char)} {source source' : List Char}

/-! What the lines that are written import. -/

theorem separates_isBlank : Expanded.Separates Text.isBlank := by
  intro c blank
  refine ⟨Bool.eq_false_iff.2 fun fit => ?_, ?_⟩
  · rw [not_isBlank_of_isWordChar fit] at blank
    cases blank
  · rintro rfl
    cases blank

theorem separates_eq {mark : Char} (unfit : isWordChar mark = false) (apart : mark ≠ '.') :
    Expanded.Separates (· == mark) := by
  intro c same
  obtain rfl := beq_iff_eq.1 same
  exact ⟨unfit, apart⟩

namespace Expanded

theorem path_eq (proper : aliases.IsProper) (expanded : Expanded aliases .free word word')
    (unused : aliases.lookup ((word.splitOn '.').headD []) = none)
    (isPath : IsDataPath word ∨ IsDataPath word') : word = word' := by
  have bound : Lead.free.binds word = true ∨ Lead.free.binds word' = true :=
    isPath.imp Lead.binds_path Lead.binds_path
  refine (expanded.eq_or_used bound).resolve_right ?_
  rintro ⟨name, path, rest, rest', listed, rfl, rfl⟩
  have within : '.' ∉ name := AliasTable.notMem_of_isIdentifier (proper _ _ listed).short rfl
  rw [Text.splitOn_append_cons within, List.headD_cons, listed] at unused
  cases unused

theorem names_eq (expanded : List.Forall₂ (Expanded aliases .free) words words')
    (either : (∀ word ∈ words, AliasTable.isIdentifier word = true) ∨
      ∀ word ∈ words', AliasTable.isIdentifier word = true) : words = words' := by
  induction expanded with
  | nil => rfl
  | cons first _ ih =>
    simp only [List.forall_mem_cons] at either
    rw [first.eq_of_identifier (either.imp And.left And.left),
      ih (either.imp And.right And.right)]

theorem ofWords?_eq (proper : aliases.IsProper)
    (expanded : List.Forall₂ (Expanded aliases .free) words words')
    (unused : ∀ word, words.head? = some word →
      aliases.lookup ((word.splitOn '.').headD []) = none) :
    AliasTable.ofWords? words' = AliasTable.ofWords? words := by
  have same (binds : (∃ entry, AliasTable.ofWords? words = some entry) ∨
      ∃ entry, AliasTable.ofWords? words' = some entry) : words = words' := by
    cases expanded with
    | nil => rfl
    | @cons word word' rest rest' first others =>
      have shape : (IsDataPath word ∧ ∀ name ∈ rest, AliasTable.isIdentifier name = true) ∨
          IsDataPath word' ∧ ∀ name ∈ rest', AliasTable.isIdentifier name = true := by
        refine binds.imp ?_ ?_ <;>
        · rintro ⟨entry, given⟩
          obtain ⟨path, rest, whole, isPath, names⟩ := AliasTable.ofWords?_eq_some given
          obtain ⟨rfl, rfl⟩ := List.cons.inj whole
          exact ⟨isPath, names⟩
      rw [first.path_eq proper (unused _ rfl) (shape.imp And.left And.left),
        names_eq others (shape.imp And.right And.right)]
  cases binds : AliasTable.ofWords? words with
  | some entry => rw [← same (.inl ⟨entry, binds⟩), binds]
  | none =>
    cases binds' : AliasTable.ofWords? words' with
    | none => rfl
    | some entry =>
      rw [← same (.inr ⟨entry, binds'⟩), binds] at binds'
      exact binds'.symm

theorem ofLine?_eq (proper : aliases.IsProper) (expanded : Expanded aliases .free line line')
    (unused : ∀ root, importedRoot? line = some root → aliases.lookup root = none) :
    AliasTable.ofLine? line' = AliasTable.ofLine? line := by
  obtain ⟨_, respelt⟩ := expanded.respelt proper
  by_cases imports : IsImportLine line
  · have imports' := respelt.isImportLine_iff.1 imports
    have separates : Expanded.Separates (· == '#') := separates_eq rfl (by decide)
    have code := expanded.takeWhile separates proper
    have cut (text : List Char) : text.takeWhile (!· == '#') = text.takeWhile (· ≠ '#') :=
      congrArg (List.takeWhile · text) (funext fun c => (decide_not (p := c = '#')).symm)
    rw [cut, cut] at code
    have pieces := code.forall₂_splitOnP separates_isBlank proper
    have words : List.Forall₂ (Expanded aliases .free) (importWord :: importedWords line)
        (importWord :: importedWords line') := by
      rw [← imports.words, ← imports'.words]
      exact List.rel_filter (fun _ _ piece => by simp [piece.eq_nil_iff]) pieces
    rw [AliasTable.ofLine?_of_isImportLine imports, AliasTable.ofLine?_of_isImportLine imports']
    refine ofWords?_eq proper (List.forall₂_cons.1 words).2 fun word first => unused _ ?_
    rw [importedRoot?, if_pos imports, first]
    rfl
  · rw [AliasTable.ofLine?_eq_none imports,
      AliasTable.ofLine?_eq_none (mt respelt.isImportLine_iff.2 imports)]

theorem filterMap_ofLine?_eq (proper : aliases.IsProper)
    (expanded : List.Forall₂ (Expanded aliases .free) lines lines')
    (unused : ∀ root ∈ lines.filterMap importedRoot?, aliases.lookup root = none) :
    lines'.filterMap AliasTable.ofLine? = lines.filterMap AliasTable.ofLine? := by
  induction expanded with
  | nil => rfl
  | @cons line line' lines lines' first _ ih =>
    have here : ∀ root, importedRoot? line = some root → aliases.lookup root = none :=
      fun root imported => unused root (List.mem_filterMap.2 ⟨line, List.mem_cons_self, imported⟩)
    have later : ∀ root ∈ lines.filterMap importedRoot?, aliases.lookup root = none := by
      intro root member
      obtain ⟨other, inside, imported⟩ := List.mem_filterMap.1 member
      exact unused root (List.mem_filterMap.2 ⟨other, List.mem_cons_of_mem _ inside, imported⟩)
    rw [List.filterMap_cons, List.filterMap_cons, first.ofLine?_eq proper here, ih later]

theorem ofSource_eq (proper : aliases.IsProper) (expanded : Expanded aliases .free source source')
    (unused : ∀ root ∈ importedRoots source, aliases.lookup root = none) :
    AliasTable.ofSource source' = AliasTable.ofSource source :=
  congrArg List.reverse (filterMap_ofLine?_eq proper
    (expanded.forall₂_splitOnP (separates_eq rfl (by decide)) proper) unused)

end Expanded

/-! What is written uses no short name. -/

def Unused (aliases : AliasTable) (line : Nat) (before : Option Lexeme) (lexemes : List Lexeme) :
    Prop :=
  ∀ place ∈ occurrencesFrom line before lexemes, place.path? aliases = none

variable {before before' : Option Lexeme} {lexeme : Lexeme} {lexemes later : List Lexeme}

theorem Unused.cons {line : Nat}
    (own : (Occurrence.mk line before lexeme lexemes.head?).path? aliases = none)
    (rest : ∀ line, Unused aliases line (some lexeme) lexemes) :
    Unused aliases line before (lexeme :: lexemes) :=
  List.forall_mem_cons.2 ⟨own, rest _⟩

theorem Unused.ofPath {segment : List Char} (segments : List (List Char)) (line : Nat)
    (apart : before = some (.other '.') ∨ aliases.lookup segment = none)
    (rest : ∀ line word, Unused aliases line (some (.word word)) later) :
    Unused aliases line before (Lexeme.ofPath (segment :: segments) ++ later) := by
  have own (after : Option Lexeme) :
      (Occurrence.mk line before (.word segment) after).path? aliases = none := by
    rw [Occurrence.path?_word rfl]
    split
    next leads => exact apart.resolve_left leads.2
    · rfl
  induction segments generalizing segment line before with
  | nil => exact .cons (own _) fun line => rest line segment
  | cons second segments ih =>
    refine .cons (own _) fun line => .cons rfl fun line => ih line (.inl rfl) fun after => ?_
    rw [Occurrence.path?_word rfl, if_neg fun leads => leads.2 rfl]

theorem head?_replaced_point_iff (proper : aliases.IsProper) (line : Nat) (before : Option Lexeme)
    (lexemes : List Lexeme) :
    ((occurrencesFrom line before lexemes).flatMap (·.replaced aliases)).head? =
      some (.other '.') ↔ lexemes.head? = some (.other '.') := by
  cases lexemes with
  | nil => exact Iff.rfl
  | cons lexeme rest =>
    rw [occurrencesFrom, List.flatMap_cons]
    rcases (Occurrence.mk line before lexeme rest.head?).replaced_cases proper with
      kept | ⟨name, segments, word, -, path⟩
    · rw [kept]
      exact Iff.rfl
    · obtain rfl : lexeme = .word name := word
      rw [path]
      cases segments <;> simp [Lexeme.ofPath]

/-- What comes in place of lexemes uses no short name, where none is the root of paths. -/
theorem unused_replaced (proper : aliases.IsProper)
    (root : aliases.lookup ['d', 'a', 't', 'a'] = none) (line line' : Nat)
    (led : before' = some (.other '.') ↔ before = some (.other '.')) :
    Unused aliases line' before'
      ((occurrencesFrom line before lexemes).flatMap (·.replaced aliases)) := by
  induction lexemes generalizing before before' line line' with
  | nil => exact List.forall_mem_nil _
  | cons lexeme rest ih =>
    rw [occurrencesFrom, List.flatMap_cons]
    cases use : (Occurrence.mk line before lexeme rest.head?).path? aliases with
    | none =>
      rw [Occurrence.replaced, use]
      refine .cons ?_ fun line' => ih _ line' Iff.rfl
      rw [← use]
      exact Occurrence.path?_congr rfl led (head?_replaced_point_iff proper _ _ _)
    | some path =>
      obtain ⟨name, word, listed, -⟩ := Occurrence.path?_eq_some use
      obtain rfl : lexeme = .word name := word
      have isPath : IsDataPath path := (proper _ _ listed).path
      obtain ⟨segments, read⟩ := isPath.list_eq
      have pieces : (Occurrence.mk line before (.word name) rest.head?).replaced aliases =
          Lexeme.ofPath (['d', 'a', 't', 'a'] :: segments) := by
        rw [Occurrence.replaced, use]
        exact read
      rw [pieces]
      exact .ofPath segments line' (.inr root) fun line' segment => ih _ line' (by simp)

theorem qualifyImports_of_unused {source : String} (none : uses source.toList = []) :
    qualifyImports source = source := by
  have each := List.filter_eq_nil_iff.1 none
  have copied : ∀ place ∈ occurrences source.toList,
      place.written (AliasTable.ofSource source.toList) = place.lexeme.text := by
    intro place inside
    have apart := Option.not_isSome_iff_eq_none.1 (each place inside)
    rw [Occurrence.written, apart, Option.getD_none]
  apply String.toList_injective
  rw [toList_qualifyImports, List.flatMap_congr copied, ← List.flatMap_map, occurrences,
    occurrencesFrom_lexemes, Lexeme.flatMap_text_list]

end

theorem lookup_data {source : List Char}
    (apart : ∀ root ∈ importedRoots source, (AliasTable.ofSource source).lookup root = none) :
    (AliasTable.ofSource source).lookup ['d', 'a', 't', 'a'] = none := by
  cases found : (AliasTable.ofSource source).lookup ['d', 'a', 't', 'a'] with
  | none => rfl
  | some path =>
    obtain ⟨line, inside, bound⟩ :=
      List.mem_filterMap.1 (List.mem_reverse.1 (mem_of_lookup found))
    have imports : IsImportLine line := by
      by_contra other
      rw [AliasTable.ofLine?_eq_none other] at bound
      cases bound
    rw [AliasTable.ofLine?_of_isImportLine imports] at bound
    obtain ⟨path, rest, words, isPath, -⟩ := AliasTable.ofWords?_eq_some bound
    have root : importedRoot? line = some ['d', 'a', 't', 'a'] := by
      rw [importedRoot?, if_pos imports, words, List.head?_cons, Option.map_some, isPath.root]
    rw [apart _ (List.mem_filterMap.2 ⟨line, inside, root⟩)] at found
    cases found

/-- Where no short name of an import is the root that a line imports from, the text that is written
imports the same and uses no short name, so that it is written again as it stands. -/
theorem qualifyImports_idempotent (source : String)
    (apart : ∀ entry ∈ AliasTable.ofSource source.toList,
      entry.1 ∉ importedRoots source.toList) :
    AliasTable.ofSource (qualifyImports source).toList = AliasTable.ofSource source.toList ∧
      uses (qualifyImports source).toList = [] ∧
      qualifyImports (qualifyImports source) = qualifyImports source := by
  have proper := AliasTable.ofSource_isProper source.toList
  have unused : ∀ root ∈ importedRoots source.toList,
      (AliasTable.ofSource source.toList).lookup root = none := by
    intro root imported
    rw [List.lookup_eq_none_iff]
    intro entry member
    exact bne_iff_ne.2 fun same => apart entry member (same ▸ imported)
  have expanded : Expanded (AliasTable.ofSource source.toList) .free source.toList
      (qualifyImports source).toList := by
    rw [toList_qualifyImports]
    exact expanded_written proper (fun _ _ _ => .inl rfl) 0
  have table := expanded.ofSource_eq proper unused
  have none : uses (qualifyImports source).toList = [] := by
    rw [uses, table, List.filter_eq_nil_iff, occurrences, list_qualifyImports]
    intro place inside
    have left := unused_replaced proper (lookup_data unused) 0 0 Iff.rfl place inside
    rw [left]
    exact Bool.false_ne_true
  exact ⟨table, none, qualifyImports_of_unused none⟩

theorem qualifyImports_idempotent_crossed :
    let source := "import data.lib.fleet\nimport data.fleet.lib\nx := fleet.size + lib.size\n"
    (∀ entry ∈ AliasTable.ofSource source.toList, entry.1 ∉ importedRoots source.toList) ∧
      qualifyImports source ≠ source ∧
      qualifyImports (qualifyImports source) = qualifyImports source := by
  have apart : ∀ entry ∈ AliasTable.ofSource
        "import data.lib.fleet\nimport data.fleet.lib\nx := fleet.size + lib.size\n".toList,
      entry.1 ∉ importedRoots
        "import data.lib.fleet\nimport data.fleet.lib\nx := fleet.size + lib.size\n".toList := by
    decide +kernel
  exact ⟨apart, by decide +kernel, (qualifyImports_idempotent _ apart).2.2⟩

/-- An import from a root that has a short name is read as another one the second time. -/
example :
    let source := "import data.lib.rego\nimport rego.v1\nx := v1.size\n"
    qualifyImports (qualifyImports source) ≠ qualifyImports source := by
  decide +kernel

end PolicyReview.Rego
