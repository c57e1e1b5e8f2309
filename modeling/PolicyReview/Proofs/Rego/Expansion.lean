import PolicyReview.Proofs.Rego.RawString

/-! A qualified text beside its source, character by character. A short name becomes a path only
where a word of its own begins, and never after a point. What stands between separators can be
looked at by itself: lines, and the words of a line, are expanded each on their own. -/

namespace PolicyReview.Rego

open Lexeme (isWordStart isWordChar)

inductive Lead where
  | free
  | point
  | word
  deriving DecidableEq

namespace Lead

/-- Digits go on with a word and begin none. -/
def next (lead : Lead) (c : Char) : Lead :=
  if c = '.' then .point
  else if isWordStart c || isWordChar c && lead = .word then .word
  else .free

def after (lead : Lead) (text : List Char) : Lead := text.foldl next lead

/-- No word of its own begins after any character of a text. -/
def binds (lead : Lead) : List Char → Bool
  | [] => true
  | c :: rest => lead.next c ≠ .free && binds (lead.next c) rest

variable {lead : Lead} {c : Char} {name path text : List Char} {segments : List (List Char)}

theorem next_of_isWordStart (start : isWordStart c = true) : lead.next c = .word := by
  have apart : c ≠ '.' := by
    rintro rfl
    cases start
  simp [next, apart, start]

theorem next_word_of_isWordChar (fit : isWordChar c = true) : Lead.word.next c = .word := by
  have apart : c ≠ '.' := by
    rintro rfl
    cases fit
  simp [next, apart, fit]

theorem next_of_unfit (unfit : isWordChar c = false) (apart : c ≠ '.') : lead.next c = .free := by
  have start : isWordStart c = false := Bool.eq_false_iff.2 fun start => by
    rw [Lexeme.isWordChar_of_isWordStart start] at unfit
    cases unfit
  simp [next, apart, start, unfit]

theorem after_append (lead : Lead) (text later : List Char) :
    lead.after (text ++ later) = (lead.after text).after later := List.foldl_append

theorem after_concat (lead : Lead) (text : List Char) (c : Char) :
    lead.after (text ++ [c]) = (lead.after text).next c := after_append lead text [c]

theorem binds_append (text later : List Char) :
    binds lead (text ++ later) = (binds lead text && binds (lead.after text) later) := by
  induction text generalizing lead with
  | nil => rfl
  | cons c rest ih => simp only [List.cons_append, binds, ih, after, List.foldl_cons, Bool.and_assoc]

theorem binds_wordChars (inside : ∀ c ∈ text, isWordChar c = true) :
    binds .word text = true ∧ Lead.word.after text = .word := by
  induction text with
  | nil => exact ⟨rfl, rfl⟩
  | cons c rest ih =>
    obtain ⟨first, others⟩ := List.forall_mem_cons.1 inside
    obtain ⟨bound, ends⟩ := ih others
    rw [binds, after, List.foldl_cons, next_word_of_isWordChar first, bound]
    exact ⟨rfl, ends⟩

theorem binds_identifier (lead : Lead) (identifier : AliasTable.isIdentifier name = true) :
    binds lead name = true ∧ lead.after name = .word := by
  cases name with
  | nil => cases identifier
  | cons c rest =>
    obtain ⟨start, inside⟩ := Bool.and_eq_true_iff.1 identifier
    obtain ⟨bound, ends⟩ := binds_wordChars (List.all_eq_true.1 inside)
    rw [binds, after, List.foldl_cons, next_of_isWordStart start, bound]
    exact ⟨rfl, ends⟩

theorem binds_intercalate (lead : Lead)
    (identifiers : ∀ segment ∈ segments, AliasTable.isIdentifier segment = true) :
    binds lead (['.'].intercalate segments) = true := by
  induction segments generalizing lead with
  | nil => rfl
  | cons segment later ih =>
    obtain ⟨first, others⟩ := List.forall_mem_cons.1 identifiers
    obtain ⟨bound, ends⟩ := binds_identifier lead first
    cases later with
    | nil => simpa [List.intercalate] using bound
    | cons second later =>
      have split : ['.'].intercalate (segment :: second :: later) =
          segment ++ '.' :: ['.'].intercalate (second :: later) := by
        simp [List.intercalate]
      rw [split, binds_append, bound, ends, binds, ih _ others]
      rfl

theorem binds_path (isPath : IsDataPath path) : binds lead path = true := by
  obtain ⟨segments, -, identifiers, rfl⟩ := isPath
  exact binds_intercalate lead (List.forall_mem_cons.2 ⟨by decide, identifiers⟩)

end Lead

/-- The second text is the first one with paths in place of short names that begin a word of their
own, not after a point, and end before a point. -/
inductive Expanded (aliases : AliasTable) : Lead → List Char → List Char → Prop
  | nil {lead : Lead} : Expanded aliases lead [] []
  | kept {lead : Lead} {text text' : List Char} (c : Char)
    (rest : Expanded aliases (lead.next c) text text') :
    Expanded aliases lead (c :: text) (c :: text')
  | used {name path text text' : List Char} (listed : aliases.lookup name = some path)
    (rest : Expanded aliases .point text text') :
    Expanded aliases .free (name ++ '.' :: text) (path ++ '.' :: text')

namespace Expanded

variable {aliases : AliasTable} {lead : Lead} {text text' : List Char}

theorem append (same : List Char) (rest : Expanded aliases (lead.after same) text text') :
    Expanded aliases lead (same ++ text) (same ++ text') := by
  induction same generalizing lead with
  | nil => exact rest
  | cons c same ih => exact .kept c (ih rest)

theorem respelt (proper : aliases.IsProper) (expanded : Expanded aliases lead text text') :
    ∃ uses, Respelt uses text text' := by
  induction expanded with
  | nil => exact ⟨0, .nil⟩
  | kept c _ ih =>
    obtain ⟨uses, rest⟩ := ih
    exact ⟨uses, .kept c rest⟩
  | used listed _ ih =>
    obtain ⟨uses, rest⟩ := ih
    obtain ⟨identifier, isPath⟩ := proper _ _ listed
    exact ⟨uses + 1, .used identifier isPath rfl (.kept '.' rest)⟩

theorem eq_nil_iff (expanded : Expanded aliases lead text text') : text = [] ↔ text' = [] := by
  cases expanded with
  | nil => exact Iff.rfl
  | kept c _ => simp
  | used _ _ => simp

theorem tail_point (proper : aliases.IsProper) (expanded : Expanded aliases lead ('.' :: text) text') :
    ∃ later, text' = '.' :: later ∧ Expanded aliases .point text later := by
  generalize whole : '.' :: text = first at expanded
  cases expanded with
  | nil => cases whole
  | kept c rest =>
    obtain ⟨rfl, rfl⟩ := List.cons.inj whole
    exact ⟨_, rfl, rest⟩
  | @used name path _ _ listed _ =>
    have identifier := (proper _ _ listed).short
    cases name with
    | nil => cases identifier
    | cons c name =>
      obtain ⟨rfl, -⟩ := List.cons.inj whole
      cases identifier

/-! Where nothing is expanded. -/

theorem eq_of_binds (within : lead ≠ .free)
    (bound : lead.binds text = true ∨ lead.binds text' = true)
    (expanded : Expanded aliases lead text text') : text = text' := by
  induction expanded with
  | nil => rfl
  | @kept lead text text' c _ ih =>
    simp only [Lead.binds, Bool.and_eq_true, decide_eq_true_eq, ← and_or_left] at bound
    rw [ih bound.1 bound.2]
  | used => exact absurd rfl within

/-- Words that are put together from names and points are copied unless they begin with a short
name. -/
theorem eq_or_used (bound : lead.binds text = true ∨ lead.binds text' = true)
    (expanded : Expanded aliases lead text text') : text = text' ∨
      ∃ name path rest rest', aliases.lookup name = some path ∧ text = name ++ '.' :: rest ∧
        text' = path ++ '.' :: rest' := by
  cases expanded with
  | nil => exact .inl rfl
  | kept c rest =>
    simp only [Lead.binds, Bool.and_eq_true, decide_eq_true_eq, ← and_or_left] at bound
    rw [rest.eq_of_binds bound.1 bound.2]
    exact .inl rfl
  | used listed _ => exact .inr ⟨_, _, _, _, listed, rfl, rfl⟩

theorem eq_of_identifier
    (either : AliasTable.isIdentifier text = true ∨ AliasTable.isIdentifier text' = true)
    (expanded : Expanded aliases lead text text') : text = text' := by
  have bound : lead.binds text = true ∨ lead.binds text' = true :=
    either.imp (fun fine => (lead.binds_identifier fine).1) fun fine => (lead.binds_identifier fine).1
  refine (expanded.eq_or_used bound).resolve_right ?_
  rintro ⟨name, path, rest, rest', -, rfl, rfl⟩
  rcases either with fine | fine <;>
    exact AliasTable.notMem_of_isIdentifier (c := '.') fine rfl (by simp)

/-! Cuts. -/

def Separates (cuts : Char → Bool) : Prop :=
  ∀ c, cuts c = true → isWordChar c = false ∧ c ≠ '.'

variable {cuts : Char → Bool}

theorem Separates.word (separates : Separates cuts) (proper : aliases.IsProper)
    {name path : List Char} (listed : aliases.lookup name = some path) :
    (∀ c ∈ name ++ ['.'], cuts c = false) ∧ ∀ c ∈ path ++ ['.'], cuts c = false := by
  obtain ⟨identifier, isPath⟩ := proper _ _ listed
  have point : cuts '.' = false := Bool.eq_false_iff.2 fun cut => (separates _ cut).2 rfl
  constructor <;> intro c inside <;> rcases List.mem_append.1 inside with within | last
  · refine Bool.eq_false_iff.2 fun cut => ?_
    exact AliasTable.notMem_of_isIdentifier identifier (separates c cut).1 within
  · rw [List.mem_singleton.1 last, point]
  · refine Bool.eq_false_iff.2 fun cut => ?_
    exact isPath.notMem (separates c cut).1 (separates c cut).2 within
  · rw [List.mem_singleton.1 last, point]

theorem splitOnP_append {start : List Char} (uncut : ∀ c ∈ start, cuts c = false)
    (text : List Char) :
    (start ++ text).splitOnP cuts = (text.splitOnP cuts).modifyHead (start ++ ·) := by
  induction start with
  | nil => exact (congrFun List.modifyHead_id (text.splitOnP cuts)).symm
  | cons c start ih =>
    obtain ⟨first, others⟩ := List.forall_mem_cons.1 uncut
    rw [List.cons_append, List.splitOnP_cons_eq_if_modifyHead, if_neg (by simp [first]), ih others]
    cases text.splitOnP cuts <;> rfl

theorem splitOnP (separates : Separates cuts) (proper : aliases.IsProper)
    (expanded : Expanded aliases lead text text') :
    ∃ first first' others others', text.splitOnP cuts = first :: others ∧
      text'.splitOnP cuts = first' :: others' ∧ Expanded aliases lead first first' ∧
      List.Forall₂ (Expanded aliases .free) others others' := by
  induction expanded with
  | nil => exact ⟨[], [], [], [], rfl, rfl, .nil, .nil⟩
  | kept c _ ih =>
    obtain ⟨first, first', others, others', cut, cut', head, tail⟩ := ih
    rw [List.splitOnP_cons_eq_if_modifyHead, List.splitOnP_cons_eq_if_modifyHead, cut, cut']
    by_cases separator : cuts c = true
    · obtain ⟨unfit, apart⟩ := separates c separator
      rw [Lead.next_of_unfit unfit apart] at head
      rw [if_pos separator, if_pos separator]
      exact ⟨[], [], _, _, rfl, rfl, .nil, .cons head tail⟩
    · rw [if_neg separator, if_neg separator]
      exact ⟨c :: first, c :: first', others, others', rfl, rfl, .kept c head, tail⟩
  | @used name path text text' listed _ ih =>
    obtain ⟨first, first', others, others', cut, cut', head, tail⟩ := ih
    obtain ⟨uncut, uncut'⟩ := separates.word proper listed
    refine ⟨name ++ '.' :: first, path ++ '.' :: first', others, others', ?_, ?_,
      .used listed head, tail⟩
    · rw [List.append_cons, splitOnP_append uncut, cut, List.modifyHead_cons, ← List.append_cons]
    · rw [List.append_cons, splitOnP_append uncut', cut', List.modifyHead_cons,
        ← List.append_cons]

theorem forall₂_splitOnP (separates : Separates cuts) (proper : aliases.IsProper)
    (expanded : Expanded aliases .free text text') :
    List.Forall₂ (Expanded aliases .free) (text.splitOnP cuts) (text'.splitOnP cuts) := by
  obtain ⟨_, _, _, _, cut, cut', head, tail⟩ := expanded.splitOnP separates proper
  rw [cut, cut']
  exact .cons head tail

theorem takeWhile (separates : Separates cuts) (proper : aliases.IsProper)
    (expanded : Expanded aliases lead text text') :
    Expanded aliases lead (text.takeWhile (!cuts ·)) (text'.takeWhile (!cuts ·)) := by
  induction expanded with
  | nil => exact .nil
  | kept c _ ih =>
    by_cases separator : cuts c = true
    · rw [List.takeWhile_cons_of_neg (by simp [separator]),
        List.takeWhile_cons_of_neg (by simp [separator])]
      exact .nil
    · rw [List.takeWhile_cons_of_pos (by simp [separator]),
        List.takeWhile_cons_of_pos (by simp [separator])]
      exact .kept c ih
  | used listed _ ih =>
    obtain ⟨uncut, uncut'⟩ := separates.word proper listed
    have kept {start : List Char} (uncut : ∀ c ∈ start ++ ['.'], cuts c = false)
        (later : List Char) : (start ++ '.' :: later).takeWhile (!cuts ·) =
          start ++ '.' :: later.takeWhile (!cuts ·) := by
      rw [List.append_cons, List.takeWhile_append_of_pos fun c inside => by rw [uncut c inside]; rfl,
        ← List.append_cons]
    rw [kept uncut, kept uncut']
    exact .used listed ih

end Expanded

/-! What is written for a source. -/

/-- A word begins where one of its own may, or after the point that the lexeme before is. -/
def Ready (lead : Lead) (before : Option Lexeme) (text : List Char) : Prop :=
  ∀ c, text.head? = some c → isWordChar c = true →
    lead = .free ∨ lead = .point ∧ before = some (.other '.')

theorem Lexeme.spanQuoted_last {cs : List Char} (goesOn : (spanQuoted cs).2 ≠ []) :
    ∃ text last, (spanQuoted cs).1 = text ++ [last] ∧ (last = '\x22' ∨ last = '\n') := by
  fun_induction spanQuoted cs with
  | case1 => exact absurd rfl goesOn
  | case2 c rest text left cut ih =>
    rw [cut] at ih
    obtain ⟨text, last, rfl, closing⟩ := ih goesOn
    exact ⟨'\\' :: c :: text, last, rfl, closing⟩
  | case3 c rest _ stop => exact ⟨[], c, rfl, stop⟩
  | case4 c rest _ _ text left cut ih =>
    rw [cut] at ih
    obtain ⟨text, last, rfl, closing⟩ := ih goesOn
    exact ⟨c :: text, last, rfl, closing⟩

theorem Lexeme.spanRaw_last {cs : List Char} (goesOn : (spanRaw cs).2 ≠ []) :
    ∃ text, (spanRaw cs).1 = text ++ ['\x60'] := by
  have stopped := List.head?_dropWhile_not (· ≠ '\x60') cs
  rw [spanRaw_eq] at goesOn ⊢
  cases after : cs.dropWhile (· ≠ '\x60') with
  | nil =>
    rw [after] at goesOn
    exact absurd rfl goesOn
  | cons stop rest =>
    rw [after] at stopped
    have closing : stop = '\x60' := by simpa using stopped
    exact ⟨cs.takeWhile (· ≠ '\x60'), by simp [closing]⟩

namespace Ready

variable {lead : Lead} {before : Option Lexeme} {c : Char} {cs text : List Char}

theorem of_unfit (unfit : ∀ c, text.head? = some c → isWordChar c = false) :
    Ready lead before text := by
  intro c first fit
  rw [unfit c first] at fit
  cases fit

theorem next (ready : Ready lead before (c :: cs)) :
    Ready (lead.after (Lexeme.next c cs).1.text) (some (Lexeme.next c cs).1)
      (Lexeme.next c cs).2 := by
  rcases Lexeme.kinds c with rfl | rfl | rfl | start | single
  · refine of_unfit fun d first => ?_
    have stopped := List.head?_dropWhile_not (· ≠ '\n') cs
    rw [Lexeme.next_comment, List.span_eq_takeWhile_dropWhile] at first
    rw [first] at stopped
    have newline : d = '\n' := by simpa using stopped
    rw [newline]
    rfl
  · intro d first fit
    have goesOn : (Lexeme.spanQuoted cs).2 ≠ [] := fun none => by
      rw [Lexeme.next_quoted, none] at first
      cases first
    obtain ⟨text, last, whole, closing⟩ := Lexeme.spanQuoted_last goesOn
    rw [Lexeme.next_quoted, Lexeme.text, whole, ← List.cons_append, Lead.after_concat]
    rcases closing with rfl | rfl
    · exact .inl (Lead.next_of_unfit rfl (by decide))
    · exact .inl (Lead.next_of_unfit rfl (by decide))
  · intro d first fit
    have goesOn : (Lexeme.spanRaw cs).2 ≠ [] := fun none => by
      rw [Lexeme.next_raw, none] at first
      cases first
    obtain ⟨text, whole⟩ := Lexeme.spanRaw_last goesOn
    rw [Lexeme.next_raw, Lexeme.text, whole, ← List.cons_append, Lead.after_concat]
    exact .inl (Lead.next_of_unfit rfl (by decide))
  · refine of_unfit fun d first => ?_
    have stopped := List.head?_dropWhile_not isWordChar cs
    rw [Lexeme.next_word start, List.span_eq_takeWhile_dropWhile] at first
    simpa [first] using stopped
  · intro d _ _
    rw [Lexeme.next_single single]
    change lead.next c = .free ∨ lead.next c = .point ∧ _
    by_cases point : c = '.'
    · subst point
      exact .inr ⟨rfl, rfl⟩
    · left
      cases fit : isWordChar c with
      | false => exact Lead.next_of_unfit fit point
      | true =>
        have apart : lead ≠ .word := by
          rcases ready c rfl fit with rfl | ⟨rfl, -⟩ <;> simp
        simp [Lead.next, point, single.not_word, apart]

end Ready

section

variable {aliases : AliasTable}

theorem Occurrence.path?_eq_some_before {place : Occurrence} {path : List Char}
    (use : place.path? aliases = some path) : place.before ≠ some (.other '.') := by
  unfold path? at use
  split at use
  · split at use
    next inPlace => exact inPlace.2
    · cases use
  · cases use

/-- What is written for the lexemes of a text is the text with paths in place of short names. -/
theorem expanded_written (proper : aliases.IsProper) {lead : Lead} {before : Option Lexeme}
    {cs : List Char} (ready : Ready lead before cs) (line : Nat) :
    Expanded aliases lead cs
      ((occurrencesFrom line before (Lexeme.list cs)).flatMap (·.written aliases)) := by
  induction cs using Lexeme.list_induction generalizing lead line before with
  | nil => exact .nil
  | cons c cs ih =>
    rw [Lexeme.list_cons, occurrencesFrom, List.flatMap_cons]
    have later := ih ready.next (line + (Lexeme.next c cs).1.text.count '\n')
    generalize hplace : Occurrence.mk line before (Lexeme.next c cs).1
      (Lexeme.list (Lexeme.next c cs).2).head? = place
    generalize (occurrencesFrom _ _ (Lexeme.list (Lexeme.next c cs).2)) = places at later ⊢
    have own : place.lexeme = (Lexeme.next c cs).1 := by rw [← hplace]
    rw [← Lexeme.next_text c cs]
    cases use : place.path? aliases with
    | none =>
      rw [Occurrence.written, use, Option.getD_none, own]
      exact later.append _
    | some path =>
      obtain ⟨name, word, listed, point⟩ := Occurrence.path?_eq_some use
      have unled := Occurrence.path?_eq_some_before use
      have start := Lexeme.isWordStart_of_next (own.symm.trans word)
      have free : lead = .free := by
        rcases ready c rfl (Lexeme.isWordChar_of_isWordStart start) with free | ⟨-, led⟩
        · exact free
        · rw [← hplace] at unled
          exact absurd led unled
      have follows := Lexeme.head?_of_list_point (by rw [← point, ← hplace])
      obtain ⟨rest, left⟩ := List.head?_eq_some_iff.1 follows
      rw [Occurrence.written, use, Option.getD_some, ← own, word, Lexeme.text, left, free]
      rw [left] at later
      obtain ⟨written, shape, tail⟩ := later.tail_point proper
      rw [shape]
      exact .used listed tail

end

end PolicyReview.Rego
