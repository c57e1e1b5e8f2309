import PolicyReview.Proofs.Rego.ImportLine

/-! Raw strings of sources. What stands in raw strings counts for qualification only where a line
begins in one and reads as an import; the lines that begin elsewhere import the same whatever the
raw strings hold. Where no raw string imports, the code that is written does not depend on them. -/

namespace PolicyReview.Rego

open Lexeme (isWordChar)

/-! Lines that import nothing. -/

namespace AliasTable

variable {line path short : List Char} {entry : List Char × List Char} {c : Char}

theorem entry?_eq_some (given : entry? path short = some entry) :
    isIdentifier short = true ∧ IsDataPath path := by
  have proper := isEntry_of_entry? given
  unfold entry? at given
  split at given
  next =>
    split at given
    next =>
      obtain rfl := Option.some.inj given
      exact ⟨proper.short, proper.path⟩
    · cases given
  · cases given

theorem ofLine?_eq_none_of_mem (inside : c ∈ line.takeWhile (· ≠ '#'))
    (visible : Text.isBlank c = false) (unfit : isWordChar c = false) (apart : c ≠ '.') :
    ofLine? line = none := by
  have among := Text.mem_trimChars inside visible
  have refused {path short : List Char} (within : c ∈ path ∨ c ∈ short) :
      entry? path short = none := by
    refine Option.eq_none_iff_forall_ne_some.2 fun entry given => ?_
    obtain ⟨identifier, isPath⟩ := entry?_eq_some given
    rcases within with inPath | inShort
    · exact isPath.notMem unfit apart inPath
    · exact notMem_of_isIdentifier identifier unfit inShort
  simp only [ofLine?]
  generalize Text.trimChars (line.takeWhile (· ≠ '#')) = code at among
  split
  next led =>
    obtain ⟨rest, rfl⟩ := List.isPrefixOf_iff_prefix.1 led
    have later : c ∈ rest := by
      rcases List.mem_append.1 among with lead | later
      · have fit : ∀ d ∈ ['i', 'm', 'p', 'o', 'r', 't', ' '],
            (Text.isBlank d || isWordChar d) = true := List.all_eq_true.1 rfl
        have either := fit c lead
        rw [visible, unfit] at either
        cases either
      · exact later
    obtain ⟨word, member, within⟩ := Text.exists_word_of_mem later visible
    rw [List.drop_left]
    split
    next path cut =>
      rw [cut, List.mem_singleton] at member
      exact refused (.inl (member ▸ within))
    next path short cut =>
      rw [cut] at member
      simp only [List.mem_cons, List.not_mem_nil, or_false] at member
      rcases member with rfl | rfl | rfl
      · exact refused (.inl within)
      · have fit : ∀ d ∈ ['a', 's'], isWordChar d = true := List.all_eq_true.1 rfl
        rw [fit c within] at unfit
        cases unfit
      · exact refused (.inr within)
    · rfl
  · rfl

theorem ofLine?_backquote (lead text text' : List Char) :
    ofLine? (lead ++ '\x60' :: text) = ofLine? (lead ++ '\x60' :: text') := by
  by_cases comment : ∀ c ∈ lead, decide (c ≠ '#') = true
  · have none (text : List Char) : ofLine? (lead ++ '\x60' :: text) = none := by
      refine ofLine?_eq_none_of_mem (c := '\x60') ?_ (by decide) (by decide) (by decide)
      rw [List.takeWhile_append_of_pos comment, List.takeWhile_cons_of_pos (by decide)]
      simp
    rw [none, none]
  · have cut (text : List Char) : (lead ++ '\x60' :: text).takeWhile (· ≠ '#') =
        lead.takeWhile (· ≠ '#') := by
      rw [List.takeWhile_append, if_neg]
      intro whole
      have same := (List.takeWhile_prefix (· ≠ '#') (l := lead)).eq_of_length whole
      exact comment (List.takeWhile_eq_self_iff.1 same)
    rw [ofLine?, ofLine?, cut, cut]

end AliasTable

/-! Lines by where they begin. -/

namespace Lexeme

def isRaw : Lexeme → Bool
  | .raw _ => true
  | _ => false

/-- Lexemes that differ at most in what a raw string holds. -/
inductive SameCode : Lexeme → Lexeme → Prop
  | same (lexeme : Lexeme) : SameCode lexeme lexeme
  | raw (text text' : List Char) : SameCode (.raw ('\x60' :: text)) (.raw ('\x60' :: text'))

end Lexeme

/-- The two sources differ at most in what their raw strings hold. -/
def SameCode (source source' : List Char) : Prop :=
  List.Forall₂ Lexeme.SameCode (Lexeme.list source) (Lexeme.list source')

/-- The raw strings of a source. -/
def rawStrings (source : List Char) : List Lexeme := (Lexeme.list source).filter Lexeme.isRaw

def marked (lexemes : List Lexeme) : List (Char × Bool) :=
  lexemes.flatMap fun lexeme => lexeme.text.map (·, lexeme.isRaw)

def linesFrom (inRaw : Bool) (lead : List Char) : List (Char × Bool) → List (Bool × List Char)
  | [] => [(inRaw, lead)]
  | (c, raw) :: rest =>
    if c = '\n' then (inRaw, lead) :: linesFrom raw [] rest else linesFrom inRaw (lead ++ [c]) rest

def markedLines (source : List Char) : List (Bool × List Char) :=
  linesFrom false [] (marked (Lexeme.list source))

def importAt? (raw : Bool) (line : Bool × List Char) : Option (List Char × List Char) :=
  if line.1 = raw then AliasTable.ofLine? line.2 else none

/-- What the lines import that begin in raw strings, or what the other lines import. -/
def importsAt (raw : Bool) (source : List Char) : AliasTable :=
  (markedLines source).filterMap (importAt? raw)

section

variable {inRaw raw : Bool} {lead text : List Char} {chars chars' : List (Char × Bool)}
  {lexemes lexemes' : List Lexeme} {source source' : List Char}

theorem map_linesFrom (unbroken : '\n' ∉ lead) :
    (linesFrom inRaw lead chars).map (·.2) = (lead ++ chars.map (·.1)).splitOn '\n' := by
  fun_induction linesFrom inRaw lead chars with
  | case1 inRaw lead =>
    rw [List.map_nil, List.append_nil, Text.splitOn_unbroken unbroken]
    rfl
  | case2 inRaw lead raw rest ih =>
    rw [List.map_cons, List.map_cons, Text.splitOn_append_cons unbroken, ih List.not_mem_nil]
    rfl
  | case3 inRaw lead c raw rest different ih =>
    have still : '\n' ∉ lead ++ [c] := by simp [unbroken, Ne.symm different]
    rw [ih still]
    simp

theorem map_markedLines (source : List Char) :
    (markedLines source).map (·.2) = source.splitOn '\n' := by
  have text : (marked (Lexeme.list source)).map (·.1) = source := by
    conv => rhs; rw [← Lexeme.flatMap_text_list source]
    rw [marked, List.map_flatMap]
    refine List.flatMap_congr fun lexeme _ => ?_
    simp [Function.comp_def]
  rw [markedLines, map_linesFrom List.not_mem_nil, text, List.nil_append]

theorem ofSource_perm (source : List Char) :
    (AliasTable.ofSource source).Perm (importsAt false source ++ importsAt true source) := by
  have lines : (source.splitOn '\n').filterMap AliasTable.ofLine? =
      (markedLines source).filterMap fun line => AliasTable.ofLine? line.2 := by
    rw [← map_markedLines, List.filterMap_map]
    rfl
  rw [AliasTable.ofSource, lines, importsAt, importsAt]
  refine (List.reverse_perm _).trans ?_
  induction markedLines source with
  | nil => exact .refl _
  | cons line rest ih =>
    obtain ⟨inRaw, text⟩ := line
    cases found : AliasTable.ofLine? text with
    | none => cases inRaw <;> simpa [List.filterMap_cons, importAt?, found] using ih
    | some entry =>
      cases inRaw with
      | false => simpa [List.filterMap_cons, importAt?, found] using ih
      | true =>
        simp only [List.filterMap_cons, importAt?, found]
        exact (ih.cons entry).trans List.perm_middle.symm

theorem ofSource_eq_reverse (none : importsAt true source = []) :
    AliasTable.ofSource source = (importsAt false source).reverse := by
  rw [AliasTable.ofSource, ← map_markedLines, List.filterMap_map, importsAt]
  refine congrArg List.reverse (List.filterMap_congr fun line member => ?_)
  have nothing := List.filterMap_eq_nil_iff.1 none line member
  obtain ⟨inRaw, text⟩ := line
  cases inRaw with
  | false => rfl
  | true => exact nothing

/-! What lines import that do not begin in raw strings. -/

theorem importsAt_sealed (chars : List (Char × Bool)) {found : Option (List Char × List Char)}
    (settled : ∀ text, importAt? false (inRaw, lead ++ text) = found) :
    (linesFrom inRaw lead chars).filterMap (importAt? false) =
      found.toList ++ (linesFrom true [] chars).filterMap (importAt? false) := by
  have adds {inRaw : Bool} {lead : List Char} {found : Option (List Char × List Char)}
      (settled : ∀ text, importAt? false (inRaw, lead ++ text) = found)
      (rest : List (Bool × List Char)) : ((inRaw, lead) :: rest).filterMap (importAt? false) =
        found.toList ++ rest.filterMap (importAt? false) := by
    have now := settled []
    rw [List.append_nil] at now
    rw [List.filterMap_eq_flatMap_toList, List.flatMap_cons, now,
      ← List.filterMap_eq_flatMap_toList]
  induction chars generalizing inRaw lead found with
  | nil => exact adds settled []
  | cons first rest ih =>
    obtain ⟨c, raw⟩ := first
    by_cases newline : c = '\n'
    · rw [linesFrom, if_pos newline, adds settled, linesFrom, if_pos newline]
      rfl
    · have longer (text : List Char) : importAt? false (inRaw, (lead ++ [c]) ++ text) = found := by
        rw [List.append_assoc]
        exact settled _
      have later := ih longer
      have none (text : List Char) : importAt? false (true, [c] ++ text) = none := rfl
      have nothing := ih none
      rw [linesFrom, if_neg newline, later, linesFrom, if_neg newline, List.nil_append, nothing]
      rfl

theorem importsAt_inRaw (text : List Char) :
    (linesFrom true lead (text.map (·, true) ++ chars)).filterMap (importAt? false) =
      (linesFrom true [] chars).filterMap (importAt? false) := by
  induction text generalizing lead with
  | nil =>
    have none (text : List Char) : importAt? false (true, lead ++ text) = none := rfl
    exact importsAt_sealed chars none
  | cons c rest ih =>
    rw [List.map_cons, List.cons_append, linesFrom]
    split
    · rw [List.filterMap_cons, ih]
      rfl
    · exact ih

theorem importsAt_raw (text : List Char) :
    (linesFrom inRaw lead (('\x60' :: text).map (·, true) ++ chars)).filterMap (importAt? false) =
      (importAt? false (inRaw, lead ++ ['\x60'])).toList ++
        (linesFrom true [] chars).filterMap (importAt? false) := by
  have settled (more : List Char) : importAt? false (inRaw, (lead ++ ['\x60']) ++ more) =
      importAt? false (inRaw, lead ++ ['\x60']) := by
    unfold importAt?
    rw [List.append_assoc, List.singleton_append, AliasTable.ofLine?_backquote lead more []]
  rw [List.map_cons, List.cons_append, linesFrom, if_neg (by decide),
    importsAt_sealed _ settled, importsAt_inRaw]

theorem importsAt_kept (text : List Char)
    (same : ∀ inRaw lead, (linesFrom inRaw lead chars).filterMap (importAt? false) =
      (linesFrom inRaw lead chars').filterMap (importAt? false)) :
    (linesFrom inRaw lead (text.map (·, raw) ++ chars)).filterMap (importAt? false) =
      (linesFrom inRaw lead (text.map (·, raw) ++ chars')).filterMap (importAt? false) := by
  induction text generalizing inRaw lead with
  | nil => exact same inRaw lead
  | cons c rest ih =>
    rw [List.map_cons, List.cons_append, List.cons_append, linesFrom, linesFrom]
    split
    · rw [List.filterMap_cons, List.filterMap_cons, ih]
    · exact ih

theorem importsAt_marked (same : List.Forall₂ Lexeme.SameCode lexemes lexemes') :
    (linesFrom inRaw lead (marked lexemes)).filterMap (importAt? false) =
      (linesFrom inRaw lead (marked lexemes')).filterMap (importAt? false) := by
  induction same generalizing inRaw lead with
  | nil => rfl
  | cons first _ ih =>
    rw [marked, marked, List.flatMap_cons, List.flatMap_cons]
    cases first with
    | same => exact importsAt_kept _ fun _ _ => ih
    | raw text text' =>
      exact (importsAt_raw text).trans
        ((congrArg _ ih).trans (importsAt_raw text').symm)

theorem importsAt_code (same : SameCode source source') :
    importsAt false source = importsAt false source' :=
  importsAt_marked same

end

/-! What is written. -/

namespace Lexeme.SameCode

variable {first second : Lexeme} {lexemes lexemes' : List Lexeme}

theorem point_iff (same : SameCode first second) :
    first = .other '.' ↔ second = .other '.' := by
  cases same with
  | same => exact Iff.rfl
  | raw text text' => simp

theorem head?_point_iff (same : List.Forall₂ SameCode lexemes lexemes') :
    lexemes.head? = some (.other '.') ↔ lexemes'.head? = some (.other '.') := by
  cases same with
  | nil => exact Iff.rfl
  | cons first _ => simp [first.point_iff]

end Lexeme.SameCode

section

variable {aliases : AliasTable} {before before' : Option Lexeme} {lexemes lexemes' : List Lexeme}
  {source source' : String}

theorem Occurrence.path?_congr {place place' : Occurrence} (own : place.lexeme = place'.lexeme)
    (led : place.before = some (.other '.') ↔ place'.before = some (.other '.'))
    (followed : place.after = some (.other '.') ↔ place'.after = some (.other '.')) :
    place.path? aliases = place'.path? aliases := by
  simp only [path?, own, led, followed, ne_eq]

theorem replaced_sameCode (same : List.Forall₂ Lexeme.SameCode lexemes lexemes')
    (led : before = some (.other '.') ↔ before' = some (.other '.')) (line line' : Nat) :
    List.Forall₂ Lexeme.SameCode
      ((occurrencesFrom line before lexemes).flatMap (·.replaced aliases))
      ((occurrencesFrom line' before' lexemes').flatMap (·.replaced aliases)) := by
  induction same generalizing before before' line line' with
  | nil => exact .nil
  | @cons lexeme lexeme' lexemes lexemes' first rest ih =>
    have point : some lexeme = some (.other '.') ↔ some lexeme' = some (.other '.') := by
      rw [Option.some_inj, Option.some_inj]
      exact first.point_iff
    have later := ih point
    rw [occurrencesFrom, occurrencesFrom, List.flatMap_cons, List.flatMap_cons]
    refine List.rel_append ?_ (later _ _)
    cases first with
    | raw text text' => exact .cons (.raw text text') .nil
    | same lexeme =>
      have path : (Occurrence.mk line before lexeme lexemes.head?).path? aliases =
          (Occurrence.mk line' before' lexeme lexemes'.head?).path? aliases :=
        Occurrence.path?_congr rfl led (Lexeme.SameCode.head?_point_iff rest)
      rw [Occurrence.replaced, Occurrence.replaced, path]
      exact List.forall₂_same.2 fun piece _ => .same piece

theorem list_qualifyImports (source : String) : Lexeme.list (qualifyImports source).toList =
    (occurrences source.toList).flatMap (·.replaced (AliasTable.ofSource source.toList)) := by
  have proper := AliasTable.ofSource_isProper source.toList
  rw [toList_qualifyImports]
  exact (list_written proper source.toList 0 none).2

theorem IsDataPath.isRaw_eq_false {path : List Char} (isPath : IsDataPath path) :
    ∀ lexeme ∈ Lexeme.list path, lexeme.isRaw = false := by
  obtain ⟨segments, read⟩ := isPath.list_eq
  rw [read]
  intro lexeme member
  rcases Text.eq_or_mem_of_mem_intersperse member with rfl | word
  · rfl
  · obtain ⟨segment, -, rfl⟩ := List.mem_map.1 word
    rfl

theorem filter_isRaw_replaced (proper : aliases.IsProper) (place : Occurrence) :
    (place.replaced aliases).filter Lexeme.isRaw = [place.lexeme].filter Lexeme.isRaw := by
  rw [Occurrence.replaced]
  cases use : place.path? aliases with
  | none => rfl
  | some path =>
    obtain ⟨name, word, listed, -⟩ := Occurrence.path?_eq_some use
    have none : (Lexeme.list path).filter Lexeme.isRaw = [] :=
      List.filter_eq_nil_iff.2 fun lexeme member => by
        simp [(proper _ _ listed).path.isRaw_eq_false lexeme member]
    rw [word]
    exact none

theorem rawStrings_qualifyImports (source : String) :
    rawStrings (qualifyImports source).toList = rawStrings source.toList := by
  have proper := AliasTable.ofSource_isProper source.toList
  have each : (occurrences source.toList).flatMap (fun place => [place.lexeme]) =
      Lexeme.list source.toList := by
    rw [← List.map_eq_flatMap]
    exact occurrencesFrom_lexemes 0 none _
  rw [rawStrings, rawStrings, list_qualifyImports, ← each, List.filter_flatMap,
    List.filter_flatMap]
  exact List.flatMap_congr fun place _ => filter_isRaw_replaced proper place

/-- Sources that differ in what raw strings hold import the same on the lines that do not begin in
one, and where no other line imports they are written with the same code; the raw strings are
copied. Short names are bound by lines of the two kinds. -/
theorem qualifyImports_sameCode (source source' : String)
    (same : SameCode source.toList source'.toList) :
    importsAt false source.toList = importsAt false source'.toList ∧
    (importsAt true source.toList = [] → importsAt true source'.toList = [] →
      SameCode (qualifyImports source).toList (qualifyImports source').toList) ∧
    rawStrings (qualifyImports source).toList = rawStrings source.toList ∧
    (AliasTable.ofSource source.toList).Perm
      (importsAt false source.toList ++ importsAt true source.toList) := by
  have code := importsAt_code same
  refine ⟨code, fun none none' => ?_, rawStrings_qualifyImports source, ofSource_perm _⟩
  have table : AliasTable.ofSource source.toList = AliasTable.ofSource source'.toList := by
    rw [ofSource_eq_reverse none, ofSource_eq_reverse none', code]
  rw [SameCode, list_qualifyImports, list_qualifyImports, table]
  exact replaced_sameCode same Iff.rfl 0 0

theorem sameCode_of_list {cs cs' : List Char} (first last : List Lexeme) (text text' : List Char)
    (read : Lexeme.list cs = first ++ .raw ('\x60' :: text) :: last)
    (read' : Lexeme.list cs' = first ++ .raw ('\x60' :: text') :: last) : SameCode cs cs' := by
  have copied (lexemes : List Lexeme) : List.Forall₂ Lexeme.SameCode lexemes lexemes :=
    List.forall₂_same.2 fun lexeme _ => .same lexeme
  rw [SameCode, read, read']
  exact List.rel_append (copied first) (.cons (.raw text text') (copied last))

end

theorem qualifyImports_sameCode_prose :
    let source := "import data.lib.fleet\nx := \x60of\nfleet.size\x60\ny := fleet.size\n"
    let source' := "import data.lib.fleet\nx := \x60import it\x60\ny := fleet.size\n"
    SameCode source.toList source'.toList ∧
      importsAt true source.toList = [] ∧ importsAt true source'.toList = [] ∧
      SameCode (qualifyImports source).toList (qualifyImports source').toList := by
  have same : SameCode
      "import data.lib.fleet\nx := \x60of\nfleet.size\x60\ny := fleet.size\n".toList
      "import data.lib.fleet\nx := \x60import it\x60\ny := fleet.size\n".toList :=
    sameCode_of_list (Lexeme.list "import data.lib.fleet\nx := ".toList)
      (Lexeme.list "\ny := fleet.size\n".toList) "of\nfleet.size\x60".toList
      "import it\x60".toList (by decide +kernel) (by decide +kernel)
  obtain ⟨-, kept, -⟩ := qualifyImports_sameCode _ _ same
  have none : importsAt true
      "import data.lib.fleet\nx := \x60of\nfleet.size\x60\ny := fleet.size\n".toList = [] := by
    decide +kernel
  have none' : importsAt true
      "import data.lib.fleet\nx := \x60import it\x60\ny := fleet.size\n".toList = [] := by
    decide +kernel
  exact ⟨same, none, none', kept none none'⟩

/-- A raw string that holds the text of an import gives a name to a path for all code. -/
theorem qualifyImports_rawImport :
    let source := "x := \x60\nimport data.lib.fleet\n\x60\ny := fleet.size\n"
    let source' := "x := \x60\x60\ny := fleet.size\n"
    SameCode source.toList source'.toList ∧
      qualifyImports source = "x := \x60\nimport data.lib.fleet\n\x60\ny := data.lib.fleet.size\n" ∧
      qualifyImports source' = source' ∧
      ¬SameCode (qualifyImports source).toList (qualifyImports source').toList := by
  refine ⟨?_, by decide +kernel, by decide +kernel, fun same => ?_⟩
  · exact sameCode_of_list (Lexeme.list "x := ".toList) (Lexeme.list "\ny := fleet.size\n".toList)
      "\nimport data.lib.fleet\n\x60".toList "\x60".toList (by decide +kernel) (by decide +kernel)
  · exact absurd same.length_eq (by decide +kernel)

end PolicyReview.Rego
