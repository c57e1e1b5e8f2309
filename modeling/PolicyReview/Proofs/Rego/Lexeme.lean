import PolicyReview.Rego.Qualification
import Mathlib.Data.List.TakeDrop
import Mathlib.Data.List.TakeWhile

/-! Laws of lexemes. Every character of a text belongs to one lexeme, and where a lexeme ends
depends on what follows only through its first character, so that what follows can be exchanged. -/

namespace PolicyReview.Rego.Lexeme

variable {c : Char} {cs text rest rest' : List Char}

/-! The first lexeme, by the character that it begins with. -/

theorem next_comment (cs : List Char) : next '#' cs =
    (.comment ('#' :: (cs.span (· ≠ '\n')).1), (cs.span (· ≠ '\n')).2) := rfl

theorem next_quoted (cs : List Char) : next '\x22' cs =
    (.quoted ('\x22' :: (spanQuoted cs).1), (spanQuoted cs).2) := rfl

theorem next_raw (cs : List Char) : next '\x60' cs =
    (.raw ('\x60' :: (spanRaw cs).1), (spanRaw cs).2) := rfl

theorem next_word (start : isWordStart c = true) (cs : List Char) : next c cs =
    (.word (c :: (cs.span isWordChar).1), (cs.span isWordChar).2) := by
  have apart : ∀ mark : Char, isWordStart mark = false → c ≠ mark := by
    rintro mark unfit rfl
    rw [start] at unfit
    cases unfit
  rw [next, if_neg (apart '#' (by decide)), if_neg (apart '\x22' (by decide)),
    if_neg (apart '\x60' (by decide)), if_pos start]

structure IsSingle (c : Char) : Prop where
  not_comment : c ≠ '#'
  not_quoted : c ≠ '\x22'
  not_raw : c ≠ '\x60'
  not_word : isWordStart c = false

theorem next_single (single : IsSingle c) (cs : List Char) : next c cs = (.other c, cs) := by
  rw [next, if_neg single.not_comment, if_neg single.not_quoted, if_neg single.not_raw,
    if_neg (by simp [single.not_word])]

theorem kinds (c : Char) :
    c = '#' ∨ c = '\x22' ∨ c = '\x60' ∨ isWordStart c = true ∨ IsSingle c := by
  by_cases comment : c = '#'
  · exact .inl comment
  by_cases quoted : c = '\x22'
  · exact .inr (.inl quoted)
  by_cases raw : c = '\x60'
  · exact .inr (.inr (.inl raw))
  cases word : isWordStart c with
  | true => exact .inr (.inr (.inr (.inl rfl)))
  | false => exact .inr (.inr (.inr (.inr ⟨comment, quoted, raw, word⟩)))

/-! Nothing is lost. -/

theorem spanQuoted_append (cs : List Char) : (spanQuoted cs).1 ++ (spanQuoted cs).2 = cs := by
  fun_induction spanQuoted cs <;> simp_all

theorem spanRaw_eq (cs : List Char) : spanRaw cs =
    (cs.takeWhile (· ≠ '\x60') ++ (cs.dropWhile (· ≠ '\x60')).take 1,
      (cs.dropWhile (· ≠ '\x60')).drop 1) := by
  rw [spanRaw, List.span_eq_takeWhile_dropWhile]
  cases cs.dropWhile (· ≠ '\x60') with
  | nil => simp
  | cons stop rest => rfl

theorem spanRaw_append (cs : List Char) : (spanRaw cs).1 ++ (spanRaw cs).2 = cs := by
  rw [spanRaw_eq, List.append_assoc, List.take_append_drop, List.takeWhile_append_dropWhile]

theorem next_text (c : Char) (cs : List Char) : (next c cs).1.text ++ (next c cs).2 = c :: cs := by
  rcases kinds c with rfl | rfl | rfl | start | single
  · simp [next_comment, Lexeme.text, List.span_eq_takeWhile_dropWhile]
  · simp [next_quoted, Lexeme.text, spanQuoted_append]
  · simp [next_raw, Lexeme.text, spanRaw_append]
  · simp [next_word start, Lexeme.text, List.span_eq_takeWhile_dropWhile]
  · simp [next_single single, Lexeme.text]

/-- A lexeme begins with the character that it was read at. -/
theorem next_text_head (c : Char) (cs : List Char) : (next c cs).1.text.head? = some c := by
  rcases kinds c with rfl | rfl | rfl | start | single
  · rfl
  · rfl
  · rfl
  · rw [next_word start, Lexeme.text, List.head?_cons]
  · rw [next_single single, Lexeme.text, List.head?_cons]

theorem isWordStart_of_next {name : List Char} (word : (next c cs).1 = .word name) :
    isWordStart c = true := by
  rcases kinds c with rfl | rfl | rfl | start | single
  · cases word
  · cases word
  · cases word
  · exact start
  · rw [next_single single] at word
    cases word

theorem length_next (c : Char) (cs : List Char) : (next c cs).2.length ≤ cs.length := by
  have whole := congrArg List.length (next_text c cs)
  have filled : (next c cs).1.text ≠ [] := fun empty => by
    simpa [empty] using next_text_head c cs
  have positive := List.length_pos_iff.2 filled
  rw [List.length_append, List.length_cons] at whole
  omega

/-! The lexemes of a text, one after another. -/

theorem listFrom_eq {fuel more : Nat} (enough : cs.length ≤ fuel) (plenty : cs.length ≤ more) :
    listFrom fuel cs = listFrom more cs := by
  induction fuel generalizing more cs with
  | zero =>
    obtain rfl := List.length_eq_zero_iff.1 (Nat.le_zero.1 enough)
    cases more <;> rfl
  | succ fuel ih =>
    cases cs with
    | nil => cases more <;> rfl
    | cons c cs =>
      cases more with
      | zero => simp at plenty
      | succ more =>
        have shorter := length_next c cs
        rw [List.length_cons] at enough plenty
        have later : listFrom fuel (next c cs).2 = listFrom more (next c cs).2 :=
          ih (by omega) (by omega)
        exact congrArg ((next c cs).1 :: ·) later

theorem list_nil : list [] = [] := rfl

theorem list_cons (c : Char) (cs : List Char) :
    list (c :: cs) = (next c cs).1 :: list (next c cs).2 := by
  change (next c cs).1 :: listFrom cs.length (next c cs).2 = _
  exact congrArg ((next c cs).1 :: ·) (listFrom_eq (length_next c cs) (Nat.le_refl _))

theorem head?_of_list_point (point : (list text).head? = some (.other '.')) :
    text.head? = some '.' := by
  cases text with
  | nil => cases point
  | cons c cs =>
    have first := next_text_head c cs
    rw [list_cons, List.head?_cons] at point
    rw [Option.some.inj point] at first
    exact first.symm

/-- What holds of the empty text and is handed on from what follows a lexeme holds of all texts. -/
theorem list_induction {motive : List Char → Prop} (nil : motive [])
    (cons : ∀ c cs, motive (next c cs).2 → motive (c :: cs)) (cs : List Char) : motive cs :=
  match cs with
  | [] => nil
  | c :: cs =>
    have := length_next c cs
    cons c cs (list_induction nil cons (next c cs).2)
termination_by cs.length
decreasing_by simp only [List.length_cons]; omega

theorem flatMap_text_list (cs : List Char) : (list cs).flatMap Lexeme.text = cs := by
  induction cs using list_induction with
  | nil => rfl
  | cons c cs ih => rw [list_cons, List.flatMap_cons, ih, next_text]

/-! Exchange of what follows. -/

/-- The two begin with the same character, or both with a word. -/
def Alike (rest rest' : List Char) : Prop :=
  rest.head? = rest'.head? ∨
    ∃ c c', rest.head? = some c ∧ rest'.head? = some c' ∧
      isWordStart c = true ∧ isWordStart c' = true

theorem isWordChar_of_isWordStart (start : isWordStart c = true) : isWordChar c = true := by
  simp only [isWordStart, isWordChar, Char.isAlphanum, Bool.or_eq_true] at start ⊢
  exact start.imp_left .inl

theorem Alike.eq_nil (alike : Alike rest rest') (empty : rest = []) : rest' = [] := by
  subst empty
  rcases alike with same | ⟨_, _, none, _⟩
  · exact List.head?_eq_none_iff.1 same.symm
  · cases none

theorem Alike.head?_point (alike : Alike rest rest') (point : rest.head? = some '.') :
    rest'.head? = some '.' := by
  rcases alike with same | ⟨c, _, first, _, start, _⟩
  · exact same.symm.trans point
  · obtain rfl := Option.some.inj (first.symm.trans point)
    cases start

theorem span_run {p : Char → Bool} {run : List Char} (inside : ∀ d ∈ run, p d = true)
    (stops : ∀ d, rest.head? = some d → p d = false) : (run ++ rest).span p = (run, rest) := by
  rw [List.span_eq_takeWhile_dropWhile, List.takeWhile_append_of_pos inside,
    List.dropWhile_append_of_pos inside]
  cases rest with
  | nil => simp
  | cons d rest => simp [stops d rfl]

theorem span_exchange {p : Char → Bool} (stops : ∀ d, rest'.head? = some d → p d = false) :
    ((cs.span p).1 ++ rest').span p = ((cs.span p).1, rest') := by
  refine span_run (fun d member => ?_) stops
  rw [List.span_eq_takeWhile_dropWhile] at member
  exact List.mem_takeWhile_imp member

/-- What stops a run goes on doing so when it is exchanged, unless words stop the run. -/
theorem Alike.stops {p : Char → Bool} (alike : Alike (cs.span p).2 rest')
    (word : ∀ d, isWordStart d = true → p d = true) :
    ∀ d, rest'.head? = some d → p d = false := by
  intro d first
  rw [List.span_eq_takeWhile_dropWhile] at alike
  have stopped := List.head?_dropWhile_not p cs
  rcases alike with same | ⟨c, _, before, _, start, _⟩
  · simpa [same, first] using stopped
  · simp [before, word c start] at stopped

theorem spanQuoted_stop (stop : c = '\x22' ∨ c = '\n') : spanQuoted (c :: cs) = ([c], cs) := by
  rcases stop with rfl | rfl <;> rfl

theorem spanQuoted_plain (plain : c ≠ '\\') (inside : ¬(c = '\x22' ∨ c = '\n')) :
    spanQuoted (c :: cs) = (c :: (spanQuoted cs).1, (spanQuoted cs).2) := by
  rw [spanQuoted.eq_3 c cs (fun _ _ escape _ => plain escape), if_neg inside]

theorem spanQuoted_exchange (keeps : (spanQuoted cs).2 = [] → rest' = []) :
    spanQuoted ((spanQuoted cs).1 ++ rest') = ((spanQuoted cs).1, rest') := by
  fun_induction spanQuoted cs with
  | case1 => simp [keeps rfl, spanQuoted]
  | case2 c rest text left cut ih =>
    rw [cut] at ih
    rw [List.cons_append, List.cons_append, spanQuoted, ih keeps]
  | case3 c rest unescaped stop => exact spanQuoted_stop stop
  | case4 c rest unescaped inside text left cut ih =>
    rw [cut] at ih
    by_cases plain : c = '\\'
    · subst plain
      cases rest with
      | nil =>
        obtain ⟨rfl, rfl⟩ := Prod.mk.inj cut
        rw [keeps rfl]
        rfl
      | cons d rest => exact absurd rfl (unescaped d rest rfl)
    · rw [List.cons_append, spanQuoted_plain plain inside, ih keeps]

theorem spanRaw_exchange (keeps : (spanRaw cs).2 = [] → rest' = []) :
    spanRaw ((spanRaw cs).1 ++ rest') = ((spanRaw cs).1, rest') := by
  have stopped := List.head?_dropWhile_not (· ≠ '\x60') cs
  have inside : ∀ d ∈ cs.takeWhile (· ≠ '\x60'), decide (d ≠ '\x60') = true :=
    fun d member => List.mem_takeWhile_imp (p := (· ≠ '\x60')) member
  rw [spanRaw_eq cs] at keeps ⊢
  rw [spanRaw_eq, List.append_assoc, List.takeWhile_append_of_pos inside,
    List.dropWhile_append_of_pos inside]
  cases after : cs.dropWhile (· ≠ '\x60') with
  | nil =>
    rw [after] at keeps
    simp [keeps rfl]
  | cons stop rest =>
    rw [after] at stopped
    have closing : stop = '\x60' := by simpa using stopped
    simp [closing]

/-- What follows a lexeme can be exchanged for what begins alike. -/
theorem list_exchange (alike : Alike (next c cs).2 rest') :
    list ((next c cs).1.text ++ rest') = (next c cs).1 :: list rest' := by
  suffices read : ∃ tail, (next c cs).1.text ++ rest' = c :: tail ∧
      next c tail = ((next c cs).1, rest') by
    obtain ⟨tail, whole, first⟩ := read
    rw [whole, list_cons, first]
  rcases kinds c with rfl | rfl | rfl | start | single
  · have stops := alike.stops fun d start => by
      refine decide_eq_true fun same => ?_
      rw [same] at start
      cases start
    refine ⟨(cs.span (· ≠ '\n')).1 ++ rest', rfl, ?_⟩
    rw [next_comment, span_exchange stops, next_comment]
  · refine ⟨(spanQuoted cs).1 ++ rest', rfl, ?_⟩
    rw [next_quoted, spanQuoted_exchange alike.eq_nil, next_quoted]
  · refine ⟨(spanRaw cs).1 ++ rest', rfl, ?_⟩
    rw [next_raw, spanRaw_exchange alike.eq_nil, next_raw]
  · rw [next_word start] at alike ⊢
    refine ⟨(cs.span isWordChar).1 ++ rest', rfl, ?_⟩
    rw [next_word start, span_exchange (alike.stops fun _ => isWordChar_of_isWordStart)]
  · rw [next_single single]
    exact ⟨rest', rfl, next_single single rest'⟩

end PolicyReview.Rego.Lexeme
