import PolicyReview.Proofs.Rego.Qualification
import PolicyReview.Proofs.Text.Letter
import PolicyReview.Proofs.Text.Line

/-! Lines that import. They are qualified like all other lines, so that an import line is copied
exactly when no use of a short name stands on it; the names that a qualified text imports are then
those of the source. -/

namespace PolicyReview.Rego

open Lexeme (isWordStart isWordChar)

structure IsCode (c : Char) : Prop where
  visible : Text.isBlank c = false
  not_comment : c ≠ '#'

theorem not_isBlank_of_isWordChar {c : Char} (fit : isWordChar c = true) :
    Text.isBlank c = false := by
  have range : 48 ≤ c.toNat ∧ c.toNat ≤ 122 := by
    simp only [isWordChar, Char.isAlphanum, Bool.or_eq_true, decide_eq_true_eq] at fit
    rcases fit with (letter | digit) | rfl
    · rw [Text.isAlpha_iff, Text.isUpper_iff, Text.isLower_iff] at letter
      omega
    · have range : 48 ≤ c.toNat ∧ c.toNat ≤ 57 := Char.isDigit_iff_toNat.1 digit
      omega
    · decide
  simp [Text.isBlank, Text.blankRanges]
  omega

theorem isCode_of_isWordStart {c : Char} (start : isWordStart c = true) : IsCode c := by
  refine ⟨not_isBlank_of_isWordChar (Lexeme.isWordChar_of_isWordStart start), ?_⟩
  rintro rfl
  cases start

/-! Import lines. -/

def importWord : List Char := ['i', 'm', 'p', 'o', 'r', 't']

/-- Cut at `#` and trimmed, the line begins with the word that imports and a blank. -/
def IsImportLine (line : List Char) : Prop :=
  importWord ++ [' '] <+: Text.trimChars (line.takeWhile (· ≠ '#'))

instance : DecidablePred IsImportLine :=
  fun line => inferInstanceAs
    (Decidable (importWord ++ [' '] <+: Text.trimChars (line.takeWhile (· ≠ '#'))))

theorem isImportLine_iff {line : List Char} : IsImportLine line ↔
    ∃ before after first rest, line = before ++ (importWord ++ ' ' :: (after ++ first :: rest)) ∧
      (∀ c ∈ before, Text.isBlank c = true) ∧ (∀ c ∈ after, Text.isBlank c = true) ∧
      IsCode first := by
  constructor
  · rintro ⟨imported, trimmed⟩
    obtain ⟨before, rest, whole, blank, -⟩ := Text.exists_trimChars (line.takeWhile (· ≠ '#'))
    rw [← trimmed] at whole
    have filled : Text.trimChars (line.takeWhile (· ≠ '#')) ≠ [] := by
      rw [← trimmed]
      exact List.cons_ne_nil _ _
    have last := Text.not_isBlank_getLast filled
    have seen : ∃ c ∈ imported, Text.isBlank c = false := by
      simp only [← trimmed] at last
      by_cases empty : imported = []
      · subst empty
        cases last
      · rw [List.getLast_append_of_ne_nil _ empty] at last
        exact ⟨_, List.getLast_mem empty, last⟩
    obtain ⟨c, inside, visible⟩ := seen
    obtain ⟨after, first, later, rfl, blanks, visible⟩ := Text.exists_first_visible inside visible
    have among : first ∈ line.takeWhile (· ≠ '#') := by
      rw [whole]
      simp
    refine ⟨before, after, first, later ++ rest ++ line.dropWhile (· ≠ '#'), ?_, blank, blanks,
      visible, by simpa using List.mem_takeWhile_imp among⟩
    conv => lhs; rw [← List.takeWhile_append_dropWhile (p := (· ≠ '#')) (l := line), whole]
    simp
  · rintro ⟨before, after, first, rest, rfl, blank, blanks, code⟩
    have uncut : ∀ text : List Char, (∀ c ∈ text, Text.isBlank c = true) →
        ∀ c ∈ text, decide (c ≠ '#') = true := by
      intro text blank c inside
      refine decide_eq_true fun same => ?_
      have := blank c inside
      rw [same] at this
      cases this
    rw [IsImportLine, List.takeWhile_append_of_pos (uncut before blank),
      List.takeWhile_append_of_pos (List.all_eq_true.1 (by decide)),
      List.takeWhile_cons_of_pos (by decide),
      List.takeWhile_append_of_pos (uncut after blanks),
      List.takeWhile_cons_of_pos (by simpa using code.not_comment)]
    have goes : 'i' :: (['m', 'p', 'o', 'r', 't'] ++ ' ' :: after) <+:
        Text.trimChars (before ++ 'i' :: (['m', 'p', 'o', 'r', 't'] ++ ' ' :: after) ++
          first :: rest.takeWhile (· ≠ '#')) :=
      Text.prefix_trimChars blank (by decide) code.visible
    refine List.IsPrefix.trans ⟨after, rfl⟩ (List.IsPrefix.trans goes ?_)
    simp [importWord]

/-! A line and the line that is written for it. -/

/-- The second line is the first one with paths in place of names that stand before points; the
number is that of the paths. -/
inductive Respelt : Nat → List Char → List Char → Prop
  | nil : Respelt 0 [] []
  | kept {uses : Nat} {line line' : List Char} (c : Char) (rest : Respelt uses line line') :
    Respelt uses (c :: line) (c :: line')
  | used {uses : Nat} {line line' name path : List Char}
    (identifier : AliasTable.isIdentifier name = true) (isPath : IsDataPath path)
    (point : line.head? = some '.') (rest : Respelt uses line line') :
    Respelt (uses + 1) (name ++ line) (path ++ line')

namespace Respelt

variable {uses : Nat} {c : Char} {line line' lead : List Char}

theorem append (lead : List Char) (respelt : Respelt uses line line') :
    Respelt uses (lead ++ line) (lead ++ line') := by
  induction lead with
  | nil => exact respelt
  | cons c lead ih => exact ih.kept c

theorem count_point (respelt : Respelt uses line line') :
    line.count '.' + uses ≤ line'.count '.' := by
  induction respelt with
  | nil => exact Nat.le_refl _
  | kept c rest ih =>
    rw [List.count_cons, List.count_cons]
    omega
  | @used uses line line' name path identifier isPath point rest ih =>
    obtain ⟨later, whole⟩ := isPath.eq_append
    have without : name.count '.' = 0 :=
      List.count_eq_zero.2 (AliasTable.notMem_of_isIdentifier identifier rfl)
    have with_ : 0 < path.count '.' := List.count_pos_iff.2 (by simp [whole])
    rw [List.count_append, List.count_append]
    omega

theorem eq_iff (respelt : Respelt uses line line') : line = line' ↔ uses = 0 := by
  constructor
  · rintro rfl
    have := respelt.count_point
    omega
  · rintro rfl
    generalize none : 0 = uses at respelt
    induction respelt with
    | nil => rfl
    | kept c rest ih => rw [ih none]
    | used => cases none

/-! What cannot be the start of a name stands in both lines, and so does what cannot be the start
of a path. -/

theorem left_cons (respelt : Respelt uses (c :: line) line')
    (unused : isWordStart c = true → ((c :: line).dropWhile isWordChar).head? ≠ some '.') :
    ∃ rest, line' = c :: rest ∧ Respelt uses line rest := by
  generalize whole : c :: line = first at respelt unused
  cases respelt with
  | nil => cases whole
  | kept d rest =>
    obtain ⟨rfl, rfl⟩ := List.cons.inj whole
    exact ⟨_, rfl, rest⟩
  | @used uses left right name path identifier isPath point rest =>
    cases name with
    | nil => cases identifier
    | cons d name =>
      obtain ⟨start, inside⟩ := Bool.and_eq_true_iff.1 identifier
      obtain ⟨rfl, -⟩ := List.cons.inj whole
      refine absurd ?_ (unused start)
      have every : ∀ d ∈ c :: name, isWordChar d = true :=
        List.forall_mem_cons.2 ⟨Lexeme.isWordChar_of_isWordStart start, List.all_eq_true.1 inside⟩
      obtain ⟨rest, rfl⟩ := List.head?_eq_some_iff.1 point
      rw [List.dropWhile_append_of_pos every]
      rfl

theorem left_blanks (blank : ∀ c ∈ lead, Text.isBlank c = true)
    (respelt : Respelt uses (lead ++ line) line') :
    ∃ rest, line' = lead ++ rest ∧ Respelt uses line rest := by
  induction lead generalizing line' with
  | nil => exact ⟨line', rfl, respelt⟩
  | cons c lead ih =>
    obtain ⟨first, others⟩ := List.forall_mem_cons.1 blank
    obtain ⟨rest, rfl, later⟩ := respelt.left_cons fun start => by
      rw [(isCode_of_isWordStart start).visible] at first
      cases first
    obtain ⟨rest, rfl, left⟩ := ih others later
    exact ⟨rest, rfl, left⟩

theorem left_word (lead : List Char) (word : ∀ c ∈ lead, isWordChar c = true)
    (respelt : Respelt uses (lead ++ ' ' :: line) line') :
    ∃ rest, line' = lead ++ ' ' :: rest ∧ Respelt uses line rest := by
  induction lead generalizing line' with
  | nil =>
    obtain ⟨rest, rfl, later⟩ := respelt.left_cons fun start => by cases start
    exact ⟨rest, rfl, later⟩
  | cons c lead ih =>
    have blank : ((c :: (lead ++ ' ' :: line)).dropWhile isWordChar).head? ≠ some '.' := by
      rw [← List.cons_append, List.dropWhile_append_of_pos word,
        List.dropWhile_cons_of_neg (by decide)]
      simp
    obtain ⟨rest, rfl, later⟩ := respelt.left_cons fun _ => blank
    obtain ⟨rest, rfl, left⟩ := ih (List.forall_mem_cons.1 word).2 later
    exact ⟨rest, rfl, left⟩

theorem right_append (apart : 'd' ∉ lead) (respelt : Respelt uses line (lead ++ line')) :
    ∃ rest, line = lead ++ rest ∧ Respelt uses rest line' := by
  induction lead generalizing line with
  | nil => exact ⟨line, rfl, respelt⟩
  | cons c lead ih =>
    obtain ⟨first, others⟩ := not_or.1 (mt List.mem_cons.2 apart)
    generalize whole : c :: lead ++ line' = second at respelt
    cases respelt with
    | nil => cases whole
    | kept d rest =>
      obtain ⟨rfl, rfl⟩ := List.cons.inj whole
      obtain ⟨left, rfl, later⟩ := ih others rest
      exact ⟨left, rfl, later⟩
    | used identifier isPath point rest =>
      obtain ⟨later, rfl⟩ := isPath.eq_append
      exact absurd (List.cons.inj whole).1.symm first

theorem code_iff (respelt : Respelt uses line line') :
    (∃ c rest, line = c :: rest ∧ IsCode c) ↔ ∃ c rest, line' = c :: rest ∧ IsCode c := by
  cases respelt with
  | nil => simp
  | kept c rest => simp
  | @used uses left right name path identifier isPath point rest =>
    obtain ⟨later, rfl⟩ := isPath.eq_append
    cases name with
    | nil => cases identifier
    | cons d name =>
      have start := (Bool.and_eq_true_iff.1 identifier).1
      refine iff_of_true ⟨d, _, rfl, isCode_of_isWordStart start⟩ ⟨'d', _, rfl, ?_⟩
      exact isCode_of_isWordStart rfl

theorem isImportLine_iff (respelt : Respelt uses line line') :
    IsImportLine line ↔ IsImportLine line' := by
  rw [Rego.isImportLine_iff, Rego.isImportLine_iff]
  constructor
  · rintro ⟨before, after, first, rest, rfl, blank, blanks, code⟩
    obtain ⟨text, rfl, trimmed⟩ := respelt.left_blanks blank
    obtain ⟨text, rfl, imported⟩ := trimmed.left_word importWord (List.all_eq_true.1 (by decide))
    obtain ⟨text, rfl, shown⟩ := imported.left_blanks blanks
    obtain ⟨first, rest, rfl, code⟩ := shown.code_iff.1 ⟨first, rest, rfl, code⟩
    exact ⟨before, after, first, rest, rfl, blank, blanks, code⟩
  · rintro ⟨before, after, first, rest, rfl, blank, blanks, code⟩
    have apart : ∀ text : List Char, (∀ c ∈ text, Text.isBlank c = true) → 'd' ∉ text :=
      fun text blank inside => by cases blank 'd' inside
    obtain ⟨text, rfl, trimmed⟩ := respelt.right_append (apart before blank)
    rw [List.append_cons] at trimmed
    obtain ⟨text, rfl, imported⟩ := trimmed.right_append (by decide)
    obtain ⟨text, rfl, shown⟩ := imported.right_append (apart after blanks)
    obtain ⟨first, rest, rfl, code⟩ := shown.code_iff.2 ⟨first, rest, rfl, code⟩
    exact ⟨before, after, first, rest, by simp, blank, blanks, code⟩

end Respelt

section

variable {aliases : AliasTable}

def usesOn (aliases : AliasTable) (i : Nat) (places : List Occurrence) : Nat :=
  places.countP fun place => place.line = i ∧ (place.path? aliases).isSome

/-- Each line that is written is a line of the source with paths in place of names. -/
theorem respelt_onLine (proper : aliases.IsProper) (i line : Nat) (before : Option Lexeme)
    (lexemes : List Lexeme) :
    Respelt (usesOn aliases i (occurrencesFrom line before lexemes))
      (Text.onLine i line (lexemes.flatMap Lexeme.text))
      (Text.onLine i line
        ((occurrencesFrom line before lexemes).flatMap (·.written aliases))) := by
  induction lexemes generalizing line before with
  | nil => exact .nil
  | cons lexeme rest ih =>
    rw [occurrencesFrom, List.flatMap_cons, List.flatMap_cons, Text.onLine_append,
      Text.onLine_append, Occurrence.count_written proper, usesOn, List.countP_cons]
    have later := ih (line + lexeme.text.count '\n') (some lexeme)
    generalize hplace : Occurrence.mk line before lexeme rest.head? = place
    obtain rfl : lexeme = place.lexeme := by rw [← hplace]
    obtain rfl : line = place.line := by rw [← hplace]
    cases use : place.path? aliases with
    | none =>
      rw [if_neg (by simp), Occurrence.written, use, Option.getD_none]
      exact later.append _
    | some path =>
      obtain ⟨name, word, listed, point⟩ := Occurrence.path?_eq_some use
      have entry := proper _ _ listed
      have inPath : '\n' ∉ path := entry.path.notMem rfl (by decide)
      have inName : '\n' ∉ name := AliasTable.notMem_of_isIdentifier entry.short rfl
      have unbroken : place.lexeme.text.count '\n' = 0 := by
        rw [word]
        exact List.count_eq_zero.2 inName
      rw [unbroken, Nat.add_zero] at later ⊢
      rw [Occurrence.written, use, Option.getD_some, word, Lexeme.text,
        Text.onLine_unbroken inName, Text.onLine_unbroken inPath]
      by_cases here : place.line = i
      · have pointed : (Text.onLine i place.line (rest.flatMap Lexeme.text)).head? = some '.' := by
          rw [← hplace] at point
          obtain ⟨others, rfl⟩ := List.head?_eq_some_iff.1 point
          simp [Lexeme.text, Text.onLine, here]
        rw [if_pos (by simp [here]), if_pos here, if_pos here]
        rw [word] at later
        exact .used entry.short entry.path pointed later
      · rw [if_neg (by simp [here]), if_neg here, if_neg here]
        rw [word] at later
        exact later

theorem count_flatMap_written (proper : aliases.IsProper) (line : Nat) (before : Option Lexeme)
    (lexemes : List Lexeme) :
    ((occurrencesFrom line before lexemes).flatMap (·.written aliases)).count '\n' =
      (lexemes.flatMap Lexeme.text).count '\n' := by
  induction lexemes generalizing line before with
  | nil => rfl
  | cons lexeme rest ih =>
    rw [occurrencesFrom, List.flatMap_cons, List.flatMap_cons, List.count_append,
      List.count_append, ih, Occurrence.count_written proper]

end

theorem AliasTable.ofLine?_eq_none {line : List Char} (other : ¬IsImportLine line) :
    ofLine? line = none := by
  rw [IsImportLine, ← List.isPrefixOf_iff_prefix] at other
  exact if_neg other

def Nameless (text : List Char) : Prop :=
  ∀ later, AliasTable.ofSource (text ++ later) = AliasTable.ofSource later

namespace Nameless

theorem concat (lines : List Char) (none : AliasTable.ofSource lines = []) :
    Nameless (lines ++ ['\n']) := by
  intro later
  have cut : (lines ++ ['\n'] ++ later).splitOn '\n' = lines.splitOn '\n' ++ later.splitOn '\n' := by
    rw [List.append_assoc]
    exact List.splitOnP_append_cons lines later (beq_self_eq_true '\n')
  have last := List.reverse_eq_nil_iff.1 none
  rw [AliasTable.ofSource, cut, List.filterMap_append, last]
  rfl

theorem join {text later : String} (before : Nameless text.toList) (after : Nameless later.toList) :
    Nameless (text ++ later).toList := by
  intro rest
  rw [String.toList_append, List.append_assoc, before, after]

theorem of_getLast? {text : List Char} (ends : text.getLast? = some '\n')
    (none : AliasTable.ofSource text.dropLast = []) : Nameless text := by
  obtain ⟨lines, rfl⟩ := List.getLast?_eq_some_iff.1 ends
  rw [List.dropLast_concat] at none
  exact concat lines none

theorem literal {chars : List Char} (ends : chars.getLast? = some '\n')
    (none : AliasTable.ofSource chars.dropLast = []) : Nameless (String.ofList chars).toList := by
  rw [String.toList_ofList]
  exact of_getLast? ends none

theorem line {line : String} {first : Char} (unbroken : '\n' ∉ line.toList)
    (begins : line.toList.head? = some first) (visible : Text.isBlank first = false)
    (other : first ≠ 'i') : Nameless (line ++ "\n\n").toList := by
  have none : AliasTable.ofLine? line.toList = none := by
    refine AliasTable.ofLine?_eq_none fun imports => ?_
    obtain ⟨before, after, code, later, whole, blank, -⟩ := isImportLine_iff.1 imports
    rw [whole] at begins
    cases before with
    | nil => exact other (Option.some.inj begins).symm
    | cons c before =>
      obtain rfl : c = first := Option.some.inj begins
      exact Bool.false_ne_true (visible.symm.trans (blank c List.mem_cons_self))
  have nothing : AliasTable.ofSource line.toList = [] := by
    rw [AliasTable.ofSource, Text.splitOn_unbroken unbroken, List.filterMap_cons, none]
    rfl
  intro later
  rw [String.toList_append]
  exact (congrArg AliasTable.ofSource (by simp)).trans
    ((concat _ nothing _).trans (concat [] rfl later))

theorem qualifyImports {source : String} (nameless : Nameless source.toList) :
    qualifyImports source = source := by
  have none := nameless []
  rw [List.append_nil] at none
  have kept : ∀ (afterPoint : Bool) (lexemes : List Lexeme),
      qualifyLexemes [] afterPoint lexemes = lexemes.flatMap Lexeme.text := by
    intro afterPoint lexemes
    induction lexemes generalizing afterPoint with
    | nil => rfl
    | cons lexeme rest ih =>
      rw [List.flatMap_cons, ← ih (lexeme == .other '.')]
      cases lexeme <;> rfl
  rw [Rego.qualifyImports, qualifyChars, none]
  change String.ofList (qualifyLexemes [] _ _) = source
  rw [kept, Lexeme.flatMap_text_list, String.ofList_toList]

end Nameless

/-- The places where a text uses the short names that it imports. -/
def uses (source : List Char) : List Occurrence :=
  (occurrences source).filter fun place => (place.path? (AliasTable.ofSource source)).isSome

theorem usesOn_eq_zero {source : List Char} {i : Nat} :
    usesOn (AliasTable.ofSource source) i (occurrences source) = 0 ↔
      ∀ place ∈ uses source, place.line ≠ i := by
  simp only [usesOn, uses, List.countP_eq_zero, List.mem_filter]
  grind

theorem toList_qualifyImports (source : String) : (qualifyImports source).toList =
    (occurrences source.toList).flatMap (·.written (AliasTable.ofSource source.toList)) := by
  rw [qualifyImports, String.toList_ofList, qualifyChars, occurrences,
    ← qualifyLexemes_eq_flatMap 0]
  rfl

theorem count_qualifyImports (source : String) :
    (qualifyImports source).toList.count '\n' = source.toList.count '\n' := by
  rw [toList_qualifyImports, occurrences, count_flatMap_written (AliasTable.ofSource_isProper _),
    Lexeme.flatMap_text_list]

theorem respelt_qualifyImports (source : String) (i : Nat) : Respelt
    (usesOn (AliasTable.ofSource source.toList) i (occurrences source.toList))
    (Text.onLine i 0 source.toList) (Text.onLine i 0 (qualifyImports source).toList) := by
  have each := respelt_onLine (AliasTable.ofSource_isProper source.toList) i 0 none
    (Lexeme.list source.toList)
  rwa [Lexeme.flatMap_text_list, ← occurrences, ← toList_qualifyImports] at each

/-- A line is copied exactly when no use of a short name stands on it. When none stands on a line
that imports, the text that is written imports what the source does. -/
theorem qualifyImports_lines (source : String) :
    let lines := source.toList.splitOn '\n'
    let written := (qualifyImports source).toList.splitOn '\n'
    written.length = lines.length ∧
      (∀ i line, lines[i]? = some line →
        (written[i]? = some line ↔ ∀ place ∈ uses source.toList, place.line ≠ i)) ∧
      ((∀ place ∈ uses source.toList, ∀ line, lines[place.line]? = some line →
          ¬IsImportLine line) →
        AliasTable.ofSource (qualifyImports source).toList =
          AliasTable.ofSource source.toList) := by
  have breaks := count_qualifyImports source
  have respelt := respelt_qualifyImports source
  generalize (qualifyImports source).toList = output at breaks respelt
  refine ⟨?_, fun i line given => ?_, fun apart => ?_⟩
  · rw [Text.splitOn_eq_map_onLine 0 output, Text.splitOn_eq_map_onLine 0 source.toList, breaks,
      List.length_map, List.length_map]
  · rw [Text.getElem?_splitOn] at given ⊢
    rw [breaks]
    split at given
    next within =>
      obtain rfl := Option.some.inj given
      rw [if_pos within, Option.some_inj, eq_comm, (respelt i).eq_iff, usesOn_eq_zero]
    · cases given
  · rw [AliasTable.ofSource, AliasTable.ofSource, Text.splitOn_eq_map_onLine 0 output,
      Text.splitOn_eq_map_onLine 0 source.toList, breaks, List.filterMap_map, List.filterMap_map]
    refine congrArg List.reverse (List.filterMap_congr fun i inside => ?_)
    simp only [Function.comp_apply, Nat.zero_add]
    have within : i ≤ source.toList.count '\n' := Nat.lt_succ_iff.1 (List.mem_range.1 inside)
    by_cases imports : IsImportLine (Text.onLine i 0 source.toList)
    · have unused : ∀ place ∈ uses source.toList, place.line ≠ i := by
        rintro place use rfl
        refine apart place use _ ?_ imports
        rw [Text.getElem?_splitOn, if_pos within]
      rw [(respelt i).eq_iff.2 (usesOn_eq_zero.2 unused)]
    · rw [AliasTable.ofLine?_eq_none imports,
        AliasTable.ofLine?_eq_none (mt (respelt i).isImportLine_iff.2 imports)]

/-- A package that is named as the root of another import makes another path of that import. -/
theorem qualifyImports_rego :
    let source := "import data.lib.rego\nimport rego.v1\nx := rego.size\n"
    (source.toList.splitOn '\n')[1]? = some "import rego.v1".toList ∧
      IsImportLine "import rego.v1".toList ∧
      ((qualifyImports source).toList.splitOn '\n')[1]? = some "import data.lib.rego.v1".toList ∧
      AliasTable.ofSource (qualifyImports source).toList ≠ AliasTable.ofSource source.toList := by
  decide +kernel

end PolicyReview.Rego
