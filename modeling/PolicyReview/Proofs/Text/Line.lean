import PolicyReview.Text.Blank
import Mathlib.Data.List.DropRight
import Mathlib.Data.List.TakeDrop
import Mathlib.Data.List.TakeWhile

/-! Lines of a text, and the blanks around what stands on them. -/

namespace PolicyReview.Text

variable {text later : List Char} {i line : Nat}

/-- What lies on line `i`, of a text that begins on another line. -/
def onLine (i : Nat) : Nat → List Char → List Char
  | _, [] => []
  | line, c :: cs =>
    if c = '\n' then onLine i (line + 1) cs
    else if line = i then c :: onLine i line cs
    else onLine i line cs

theorem onLine_append (i line : Nat) (text later : List Char) :
    onLine i line (text ++ later) =
      onLine i line text ++ onLine i (line + text.count '\n') later := by
  fun_induction onLine i line text with
  | case1 line => rfl
  | case2 line cs ih => simp [onLine, ih, Nat.add_assoc, Nat.add_comm 1]
  | case3 c cs different ih => simp [onLine, different, ih]
  | case4 line c cs different elsewhere ih => simp [onLine, different, elsewhere, ih]

theorem onLine_unbroken (unbroken : '\n' ∉ text) :
    onLine i line text = if line = i then text else [] := by
  induction text with
  | nil => simp [onLine]
  | cons c cs ih =>
    obtain ⟨different, later⟩ := not_or.1 (mt List.mem_cons.2 unbroken)
    rw [onLine, if_neg (Ne.symm different), ih later]
    split <;> rfl

theorem onLine_before (before : i < line) : onLine i line text = [] := by
  induction text generalizing line with
  | nil => rfl
  | cons c cs ih =>
    rw [onLine, ih before, ih (Nat.lt_succ_of_lt before), if_neg (Nat.ne_of_gt before), ite_self]

theorem splitOn_eq_map_onLine (line : Nat) (text : List Char) : text.splitOn '\n' =
    (List.range (text.count '\n' + 1)).map fun i => onLine (line + i) line text := by
  induction text generalizing line with
  | nil => rfl
  | cons c cs ih =>
    rw [List.splitOn_cons_eq_if_modifyHead, List.range_succ_eq_map, List.map_cons, List.map_map]
    by_cases newline : c = '\n'
    · subst newline
      have empty : onLine line (line + 1) cs = [] := onLine_before (Nat.lt_succ_self line)
      rw [if_pos (by simp), ih (line + 1), List.count_cons_self]
      congr 1
      · simp [onLine, empty]
      · refine List.map_congr_left fun i _ => ?_
        simp [onLine, Nat.add_assoc, Nat.add_comm 1]
    · rw [if_neg (by simpa using newline), ih line, List.range_succ_eq_map, List.map_cons,
        List.modifyHead_cons, List.count_cons_of_ne (by simpa using newline), List.map_map]
      congr 1
      · simp [onLine, newline]
      · refine List.map_congr_left fun i _ => ?_
        simp [onLine, newline]

theorem getElem?_splitOn (i : Nat) (text : List Char) : (text.splitOn '\n')[i]? =
    if i ≤ text.count '\n' then some (onLine i 0 text) else none := by
  rw [splitOn_eq_map_onLine 0, List.getElem?_map]
  split
  next within => simp [List.getElem?_range (Nat.lt_succ_of_le within)]
  next beyond =>
    have outside : (List.range (text.count '\n' + 1))[i]? = none :=
      List.getElem?_eq_none (by rw [List.length_range]; omega)
    rw [outside]
    rfl

/-! Trimmed texts. -/

theorem trimChars_eq (text : List Char) :
    trimChars text = (text.dropWhile isBlank).rdropWhile isBlank := rfl

/-- What is left of a trimmed text are blanks at both ends. -/
theorem exists_trimChars (text : List Char) : ∃ before after,
    text = before ++ trimChars text ++ after ∧ (∀ c ∈ before, isBlank c = true) ∧
      ∀ c ∈ after, isBlank c = true := by
  refine ⟨text.takeWhile isBlank, (text.dropWhile isBlank).rtakeWhile isBlank, ?_,
    fun c inside => List.mem_takeWhile_imp inside, fun c inside => List.mem_rtakeWhile_imp inside⟩
  rw [List.append_assoc, trimChars_eq, List.rdropWhile_append_rtakeWhile,
    List.takeWhile_append_dropWhile]

theorem not_isBlank_getLast (filled : trimChars text ≠ []) :
    isBlank ((trimChars text).getLast filled) = false :=
  Bool.eq_false_iff.2 (List.rdropWhile_last_not isBlank _ filled)

/-- A trimmed text goes on to the last character that is not blank. -/
theorem prefix_trimChars {before start rest : List Char} {first last : Char}
    (blank : ∀ c ∈ before, isBlank c = true) (begins : isBlank first = false)
    (ends : isBlank last = false) :
    first :: start <+: trimChars (before ++ first :: start ++ last :: rest) := by
  have left : (before ++ first :: start ++ last :: rest).dropWhile isBlank =
      first :: start ++ last :: rest := by
    rw [List.append_assoc, List.dropWhile_append_of_pos blank, List.cons_append,
      List.dropWhile_cons_of_neg (by simp [begins])]
  have right : (rest.reverse ++ last :: (first :: start).reverse).dropWhile isBlank =
      rest.reverse.dropWhile isBlank ++ last :: (first :: start).reverse := by
    rw [List.dropWhile_append]
    split
    next empty =>
      rw [List.isEmpty_iff.1 empty, List.dropWhile_cons_of_neg (by simp [ends])]
      rfl
    · rfl
  rw [trimChars_eq, left, List.rdropWhile, List.reverse_append, List.reverse_cons,
    List.append_assoc, List.singleton_append, right]
  simp

theorem mem_dropWhile_isBlank {c : Char} (inside : c ∈ text) (visible : isBlank c = false) :
    c ∈ text.dropWhile isBlank := by
  rw [← List.takeWhile_append_dropWhile (p := isBlank) (l := text), List.mem_append] at inside
  rcases inside with blank | later
  · rw [List.mem_takeWhile_imp blank] at visible
    cases visible
  · exact later

theorem mem_trimChars {c : Char} (inside : c ∈ text) (visible : isBlank c = false) :
    c ∈ trimChars text := by
  have left := mem_dropWhile_isBlank inside visible
  exact List.mem_reverse.2 (mem_dropWhile_isBlank (List.mem_reverse.2 left) visible)

theorem not_isBlank_of_isDigit {c : Char} (digit : c.isDigit = true) : isBlank c = false := by
  have range : 48 ≤ c.toNat ∧ c.toNat ≤ 57 := Char.isDigit_iff_toNat.1 digit
  simp [isBlank, blankRanges]
  omega

theorem trimChars_visible (visible : ∀ c ∈ text, isBlank c = false) : trimChars text = text := by
  obtain ⟨before, after, whole, blank, blanks⟩ := exists_trimChars text
  have none {part : List Char} (inside : part ⊆ text) (blank : ∀ c ∈ part, isBlank c = true) :
      part = [] :=
    List.eq_nil_iff_forall_not_mem.2 fun c member =>
      Bool.false_ne_true ((visible c (inside member)).symm.trans (blank c member))
  have first : before = [] := none (by rw [whole]; simp) blank
  have last : after = [] := none (by rw [whole]; simp) blanks
  rw [first, last, List.nil_append, List.append_nil] at whole
  exact whole.symm

/-! Words. -/

theorem words_append_cons {c : Char} (blank : isBlank c = true) (text later : List Char) :
    words (text ++ c :: later) = words text ++ words later := by
  rw [words, List.splitOnP_append_cons text later blank, List.filter_append]
  rfl

theorem words_blanks (blank : ∀ c ∈ text, isBlank c = true) : words text = [] := by
  induction text with
  | nil => rfl
  | cons c rest ih =>
    obtain ⟨first, others⟩ := List.forall_mem_cons.1 blank
    exact (words_append_cons first [] rest).trans (ih others)

theorem words_trimChars (text : List Char) : words (trimChars text) = words text := by
  obtain ⟨before, after, whole, blank, blanks⟩ := exists_trimChars text
  have left (later : List Char) : words (before ++ later) = words later := by
    clear whole
    induction before with
    | nil => rfl
    | cons c before ih =>
      obtain ⟨first, others⟩ := List.forall_mem_cons.1 blank
      exact (words_append_cons first [] (before ++ later)).trans (ih others)
  conv => rhs; rw [whole, List.append_assoc, left]
  cases after with
  | nil => rw [List.append_nil]
  | cons c after =>
    obtain ⟨first, others⟩ := List.forall_mem_cons.1 blanks
    rw [words_append_cons first, words_blanks others, List.append_nil]

theorem exists_word_of_mem {c : Char} (inside : c ∈ text) (visible : isBlank c = false) :
    ∃ word ∈ words text, c ∈ word := by
  have piece : ∃ word ∈ text.splitOnP isBlank, c ∈ word := by
    induction text with
    | nil => cases inside
    | cons first rest ih =>
      rw [List.splitOnP_cons_eq_if_modifyHead]
      split
      next blank =>
        rcases List.mem_cons.1 inside with rfl | later
        · rw [visible] at blank
          cases blank
        · obtain ⟨word, member, within⟩ := ih later
          exact ⟨word, List.mem_cons_of_mem _ member, within⟩
      next =>
        obtain ⟨head, tail, cut⟩ := List.exists_cons_of_ne_nil (List.splitOnP_ne_nil isBlank rest)
        rw [cut] at ih ⊢
        rw [List.modifyHead_cons]
        rcases List.mem_cons.1 inside with rfl | later
        · exact ⟨c :: head, List.mem_cons_self, List.mem_cons_self⟩
        · obtain ⟨word, member, within⟩ := ih later
          rcases List.mem_cons.1 member with rfl | other
          · exact ⟨first :: word, List.mem_cons_self, List.mem_cons_of_mem _ within⟩
          · exact ⟨word, List.mem_cons_of_mem _ other, within⟩
  obtain ⟨word, member, within⟩ := piece
  exact ⟨word, List.mem_filter.2 ⟨member, by simpa using List.ne_nil_of_mem within⟩, within⟩

theorem exists_first_visible {c : Char} (inside : c ∈ text) (visible : isBlank c = false) :
    ∃ blanks first rest, text = blanks ++ first :: rest ∧ (∀ c ∈ blanks, isBlank c = true) ∧
      isBlank first = false := by
  have kept : text.dropWhile isBlank ≠ [] := fun none => by
    have every := List.dropWhile_eq_nil_iff.1 none c inside
    rw [visible] at every
    cases every
  obtain ⟨first, rest, left⟩ := List.exists_cons_of_ne_nil kept
  refine ⟨text.takeWhile isBlank, first, rest, ?_, fun c inside => List.mem_takeWhile_imp inside,
    ?_⟩
  · rw [← left, List.takeWhile_append_dropWhile]
  · have stopped := List.head?_dropWhile_not isBlank text
    rw [left] at stopped
    simpa using stopped

end PolicyReview.Text
