import PolicyReview.Pattern.Reader
import Mathlib.Data.List.Basic

/-! Expressions that spell texts. Where an expression ends at places with different texts after them,
its continuation by a text ends behind each place at which that text comes next; no place is lost
to the rule that keeps one place for each text. -/

namespace PolicyReview.Pattern

variable {pattern : Pattern} {place : Place} {places : List Place} {c : Char} {text : List Char}

def Apart (places : List Place) : Prop :=
  places.Pairwise fun first second => first.rest.length ≠ second.rest.length

/-- The place behind a character, when it comes next. -/
def Place.pass? (c : Char) (place : Place) : Option Place :=
  match place.rest with
  | d :: rest => if d = c then some ⟨some d, rest⟩ else none
  | [] => none

def Place.passText? : List Char → Place → Option Place
  | [], place => some place
  | c :: text, place => (place.pass? c).bind (passText? text)

def spelled (first : Pattern) (text : List Char) : Pattern :=
  text.foldl (fun pattern c => .seq pattern (literal c)) first

namespace Place

theorem pass?_eq_some {next : Place} :
    place.pass? c = some next ↔ place.rest = c :: next.rest ∧ next.before = some c := by
  obtain ⟨before, rest⟩ := place
  obtain ⟨before', rest'⟩ := next
  cases rest with
  | nil => simp [pass?]
  | cons d rest =>
    by_cases same : d = c
    · subst same
      simp [pass?, and_comm, eq_comm]
    · simp [pass?, same]

theorem passText?_isSome : (passText? text place).isSome = true ↔ text <+: place.rest := by
  induction text generalizing place with
  | nil => simp [passText?]
  | cons c text ih =>
    obtain ⟨before, rest⟩ := place
    cases rest with
    | nil => simp [passText?, pass?]
    | cons d rest =>
      by_cases same : d = c
      · simp [passText?, pass?, same, ih]
      · simp [passText?, pass?, same, Ne.symm same]

theorem rest_passText? {next : Place} (passed : passText? text place = some next) :
    place.rest = text ++ next.rest := by
  induction text generalizing place with
  | nil => rw [Option.some.inj passed, List.nil_append]
  | cons c text ih =>
    obtain ⟨first, here, later⟩ := Option.bind_eq_some_iff.1 passed
    rw [(pass?_eq_some.1 here).1, ih later, List.cons_append]

end Place

theorem ends_literal : (literal c).ends place = (place.pass? c).toList := by
  obtain ⟨before, rest⟩ := place
  cases rest with
  | nil => rfl
  | cons d rest =>
    have own : CharClass.contains ⟨false, [(c, c)]⟩ d = true ↔ d = c := by
      simp only [CharClass.contains, List.any_cons, List.any_nil, Bool.or_false, Bool.false_bne,
        Bool.and_eq_true, decide_eq_true_eq]
      exact ⟨fun between => Char.le_antisymm between.2 between.1,
        fun same => same ▸ ⟨Char.le_refl d, Char.le_refl d⟩⟩
    by_cases same : d = c
    · subst same
      simp [literal, ends, Place.pass?, own.2 rfl]
    · simp [literal, ends, Place.pass?, own.not.2 same, same]

theorem distinct_of_apart (apart : Apart places) : distinct places = places := by
  suffices kept : ∀ kept, Apart (kept ++ places) →
      places.foldl (fun kept place =>
        if kept.any (fun other => other.rest.length == place.rest.length) then kept
        else kept ++ [place]) kept = kept ++ places from kept [] apart
  clear apart
  induction places with
  | nil => simp
  | cons place rest ih =>
    intro kept apart
    have new : kept.any (fun other => other.rest.length == place.rest.length) = false := by
      rw [List.any_eq_false]
      intro other inside
      simpa using (List.pairwise_append.1 apart).2.2 other inside place List.mem_cons_self
    rw [List.foldl_cons, new, if_neg Bool.false_ne_true, ih _ (by simpa using apart)]
    simp

theorem apart_pass (apart : Apart places) : Apart (places.filterMap (·.pass? c)) := by
  refine apart.filterMap _ fun first second different next passed next' passed' same => ?_
  obtain ⟨here, -⟩ := Place.pass?_eq_some.1 passed
  obtain ⟨there, -⟩ := Place.pass?_eq_some.1 passed'
  exact different (by rw [here, there, List.length_cons, List.length_cons, same])

theorem ends_seq_literal (apart : Apart (pattern.ends place)) :
    (Pattern.seq pattern (literal c)).ends place = (pattern.ends place).filterMap (·.pass? c) := by
  have each : (pattern.ends place).flatMap (literal c).ends =
      (pattern.ends place).filterMap (·.pass? c) := by
    rw [List.filterMap_eq_flatMap_toList]
    exact List.flatMap_congr fun _ _ => ends_literal
  rw [ends, each, distinct_of_apart (apart_pass apart)]

theorem ends_spelled (apart : Apart (pattern.ends place)) :
    (spelled pattern text).ends place = (pattern.ends place).filterMap (·.passText? text) := by
  induction text generalizing pattern with
  | nil => exact List.filterMap_some.symm
  | cons c text ih =>
    change (spelled (.seq pattern (literal c)) text).ends place = _
    rw [ih (by rw [ends_seq_literal apart]; exact apart_pass apart), ends_seq_literal apart,
      List.filterMap_filterMap]
    rfl

theorem ends_spelled_ne_nil (apart : Apart (pattern.ends place)) :
    (spelled pattern text).ends place ≠ [] ↔ ∃ here ∈ pattern.ends place, text <+: here.rest := by
  simp only [ends_spelled apart, ne_eq, List.filterMap_eq_nil_iff, not_forall,
    ← Place.passText?_isSome, Option.isSome_iff_ne_none, exists_prop]

theorem apart_optional : Apart (place :: (place.pass? c).toList) := by
  cases passed : place.pass? c with
  | none => exact List.pairwise_singleton _ _
  | some next => simp [Apart, (Place.pass?_eq_some.1 passed).1]

theorem ends_optional :
    (Pattern.times (literal c) 0 (some 1)).ends place = place :: (place.pass? c).toList := by
  have once : distinct (place.pass? c).toList = (place.pass? c).toList :=
    distinct_of_apart (List.pairwise_cons.1 apart_optional).2
  have last : upTo (literal c).ends 0 (place.pass? c).toList = (place.pass? c).toList := by
    cases place.pass? c <;> rfl
  cases rest : place.rest with
  | nil => simp [ends, rest, repeated, upTo, Place.pass?]
  | cons d later =>
    have most : min (1 - 0) place.rest.length = 1 := by simp [rest]
    simp only [ends, most, repeated]
    rw [upTo, List.flatMap_singleton, ends_literal, once, last]
    · exact distinct_of_apart apart_optional
    · simp

/-- Where an expression ends at one place at most, a character that may be left out after it leads
to that place, and to the one behind the character when it comes next. -/
theorem ends_seq_optional {only : Option Place} (single : pattern.ends place = only.toList) :
    (Pattern.seq pattern (.times (literal c) 0 (some 1))).ends place =
      only.toList.flatMap (fun here => here :: (here.pass? c).toList) ∧
    Apart (only.toList.flatMap fun here => here :: (here.pass? c).toList) := by
  have apart : Apart (only.toList.flatMap fun here => here :: (here.pass? c).toList) := by
    cases only with
    | none => exact List.Pairwise.nil
    | some here => simpa using apart_optional
  refine ⟨?_, apart⟩
  rw [ends, single, List.flatMap_congr fun _ _ => ends_optional, distinct_of_apart apart]

/-- An expression that matches at the start only matches there or nowhere. -/
theorem isIn_of_anchored (anchored : ∀ before rest, pattern.ends ⟨some before, rest⟩ = [])
    (text : String) : pattern.isIn text = true ↔ pattern.ends ⟨none, text.toList⟩ ≠ [] := by
  have nowhere : ∀ before rest, searchFrom pattern (some before) rest = false := by
    intro before rest
    induction rest generalizing before with
    | nil => simp [searchFrom, anchored]
    | cons c rest ih => simp [searchFrom, anchored, ih]
  unfold isIn
  cases text.toList <;> simp [searchFrom, nowhere]

end PolicyReview.Pattern
