import Mathlib.Order.Bounds.Basic
import PolicyReview.Proofs.Ancestry.Rendering

/-! Where a pattern goes wrong. Every state of the automaton can be left for one in which a pattern
may end, so that what was read before the first refused segment begins some accepted pattern, and
what was read with it begins none. A pattern is refused at that segment; if there is none, the
pattern breaks off after a name and is refused for that name. -/

namespace PolicyReview

namespace Glob

variable {state next : GlobState} {token : GlobToken} {raw : String} {raws rest : List String}
  {error : GlobError}

/-- The segments begin an accepted pattern. -/
def Begins (raws : List String) : Prop :=
  ∃ pattern glob, parse pattern = .ok glob ∧ raws <+: Ancestry.pieces pattern

/-- The places of a pattern up to which its segments begin no accepted one. -/
def broken (raws : List String) : Set Nat := {i | i < raws.length ∧ ¬Begins (raws.take (i + 1))}

def Viable (state : GlobState) (raws : List String) : Prop :=
  ∃ later, Expects state (raws ++ later)

theorem viable_nil (state : GlobState) : Viable state [] := by
  obtain ⟨next, moved, ended⟩ := exists_advance_wildcard .any rfl state
  exact ⟨["*"], expects_cons.2 ⟨.any, next, .any, moved, expects_nil.2 ended⟩⟩

theorem viable_cons (spelt : token.SpeltBy raw) (moved : state.advance token = .ok next) :
    Viable state (raw :: rest) ↔ Viable next rest := by
  simp only [Viable, List.cons_append, expects_cons]
  constructor
  · rintro ⟨later, other, after, spelt', moved', expected⟩
    obtain rfl := spelt.unique spelt'
    obtain rfl := Except.ok.inj (moved.symm.trans moved')
    exact ⟨later, expected⟩
  · rintro ⟨later, expected⟩
    exact ⟨later, token, next, spelt, moved, expected⟩

theorem Viable.of_prefix {before : List String} (viable : Viable state raws)
    (start : before <+: raws) : Viable state before := by
  obtain ⟨more, rfl⟩ := start
  obtain ⟨later, expected⟩ := viable
  exact ⟨more ++ later, by rwa [← List.append_assoc]⟩

theorem not_viable (stuck : ∀ token next, token.SpeltBy raw → state.advance token ≠ .ok next) :
    ¬Viable state [raw] := by
  rintro ⟨later, expected⟩
  obtain ⟨token, next, spelt, moved, -⟩ := expects_cons.1 expected
  exact stuck token next spelt moved

theorem parseFrom_cons_eq_error (refused : parseFrom state (raw :: rest) = .error error) :
    (error.token = raw ∧ ¬Viable state [raw]) ∨ ∃ token next, token.SpeltBy raw ∧
      state.advance token = .ok next ∧ parseFrom next rest = .error error := by
  rw [parseFrom] at refused
  cases read : Glob.classify raw with
  | error fault =>
    rw [read] at refused
    cases refused
    refine .inl ⟨rfl, not_viable fun token next spelt _ => ?_⟩
    rw [GlobToken.classify_eq_ok.2 spelt] at read
    cases read
  | ok token =>
    have spelt := GlobToken.classify_eq_ok.1 read
    simp only [read] at refused
    cases moved : state.advance token with
    | error fault =>
      rw [moved] at refused
      cases refused
      refine .inl ⟨rfl, not_viable fun other next spelt' moved' => ?_⟩
      rw [← spelt.unique spelt', moved] at moved'
      cases moved'
    | ok next =>
      simp only [moved, map_eq_error] at refused
      exact .inr ⟨token, next, spelt, moved, refused⟩

theorem parseFrom_nil_eq_error (refused : parseFrom state [] = .error error) :
    ∃ name, state = .expectId name ∧ error.token = name.text := by
  cases state with
  | expectId name =>
    cases refused
    exact ⟨name, rfl, rfl⟩
  | _ => cases refused

theorem eq_name_of_advance {name : SegmentName}
    (moved : state.advance token = .ok (.expectId name)) : token = .name name := by
  cases token with
  | name other =>
    cases eq_expectId_of_advance moved
    rfl
  | _ => cases state <;> simp [GlobState.advance, GlobToken.isWildcard] at moved

/-- The last thing read is a name: the last segment, or what led to the state if there is none. -/
def Dangles (name : SegmentName) (state : GlobState) (raws : List String) : Prop :=
  (raws = [] ∧ state = .expectId name) ∨ ∃ raw, raws.getLast? = some raw ∧ name.SpeltBy raw

theorem Dangles.cons {name : SegmentName} (dangles : Dangles name next rest)
    (spelt : token.SpeltBy raw) (moved : state.advance token = .ok next) :
    Dangles name state (raw :: rest) := by
  right
  rcases dangles with ⟨rfl, rfl⟩ | ⟨last, ends, named⟩
  · obtain rfl := eq_name_of_advance moved
    exact ⟨raw, rfl, GlobToken.speltBy_name.1 spelt⟩
  · exact ⟨last, by rw [List.getLast?_cons, ends]; rfl, named⟩

/-- What a refused pattern is refused for, read from a state: the first segment with which it is
no longer viable, or the name after which it breaks off. -/
inductive Blamed (state : GlobState) (raws : List String) : String → Prop where
  | segment {i : Nat} {raw : String} : raws[i]? = some raw → Viable state (raws.take i) →
      ¬Viable state (raws.take (i + 1)) → Blamed state raws raw
  | name {name : SegmentName} : Viable state raws → Dangles name state raws →
      Blamed state raws name.text

theorem Blamed.cons {culprit : String} (blamed : Blamed next rest culprit)
    (spelt : token.SpeltBy raw) (moved : state.advance token = .ok next) :
    Blamed state (raw :: rest) culprit := by
  cases blamed with
  | @segment i _ found viable dead =>
    apply Blamed.segment (i := i + 1)
    · rw [List.getElem?_cons_succ, found]
    · exact (viable_cons spelt moved).2 viable
    · exact mt (viable_cons spelt moved).1 dead
  | name viable dangles =>
    exact .name ((viable_cons spelt moved).2 viable) (dangles.cons spelt moved)

theorem parseFrom_blamed (refused : parseFrom state raws = .error error) :
    Blamed state raws error.token := by
  -- for all states at once, since every segment moves the automaton
  induction raws generalizing state with
  | nil =>
    obtain ⟨name, rfl, shown⟩ := parseFrom_nil_eq_error refused
    rw [shown]
    exact .name (viable_nil _) (.inl ⟨rfl, rfl⟩)
  | cons raw rest ih =>
    rcases parseFrom_cons_eq_error refused with
      ⟨shown, dead⟩ | ⟨token, next, spelt, moved, later⟩
    · rw [shown]
      exact .segment (i := 0) rfl (viable_nil _) dead
    · exact (ih later).cons spelt moved

theorem exists_pattern (filled : raws ≠ []) (expected : Expects .start raws) :
    ∃ pattern glob, parse pattern = .ok glob ∧ Ancestry.pieces pattern = raws := by
  obtain ⟨tokens, read⟩ := parseFrom_accepts.2 expected
  have each := isSegment_of_spelt (parseFrom_eq_ok.1 read).1
  have cut := Ancestry.pieces_join filled fun raw member => (each raw member).2
  exact ⟨Ancestry.join raws, ⟨tokens⟩, parse_eq_ok.2 (cut.symm ▸ read), cut⟩

theorem begins_iff_viable (filled : raws ≠ []) : Begins raws ↔ Viable .start raws := by
  constructor
  · rintro ⟨pattern, glob, parsed, later, whole⟩
    exact ⟨later, whole ▸ parseFrom_accepts.1 ⟨glob.tokens, parse_eq_ok.1 parsed⟩⟩
  · rintro ⟨later, expected⟩
    obtain ⟨pattern, glob, parsed, whole⟩ := exists_pattern (by simp [filled]) expected
    exact ⟨pattern, glob, parsed, later, whole.symm⟩

theorem mem_broken {i : Nat} :
    i ∈ broken raws ↔ i < raws.length ∧ ¬Viable .start (raws.take (i + 1)) := by
  refine and_congr_right fun within => not_congr (begins_iff_viable ?_)
  exact List.ne_nil_of_length_pos (by rw [List.length_take]; omega)

theorem parse_eq_error {pattern : String} (refused : parse pattern = .error error) :
    ∃ fault, parseFrom .start (Ancestry.pieces pattern) = .error ⟨error.token, fault⟩ := by
  unfold parse at refused
  split at refused
  next empty =>
    subst empty
    cases refused
    exact ⟨.emptySegment, rfl⟩
  next => exact ⟨error.fault, map_eq_error.1 refused⟩

/-- A refused pattern is refused for the first of its segments up to which it begins no accepted
pattern, or it breaks off after a name and is refused for that. -/
theorem parse_refuses_first {pattern : String} (refused : parse pattern = .error error) :
    (∃ i, IsLeast (broken (Ancestry.pieces pattern)) i ∧
      (Ancestry.pieces pattern)[i]? = some error.token) ∨
    (broken (Ancestry.pieces pattern) = ∅ ∧ ∃ (raw : String) (name : SegmentName),
      (Ancestry.pieces pattern).getLast? = some raw ∧ name.SpeltBy raw ∧
        error.token = name.text) := by
  obtain ⟨fault, read⟩ := parse_eq_error refused
  generalize Ancestry.pieces pattern = raws at read ⊢
  generalize shown : error.token = culprit at read ⊢
  cases parseFrom_blamed read with
  | @segment i _ found viable dead =>
    refine .inl ⟨i, ⟨mem_broken.2 ⟨(List.getElem?_eq_some_iff.1 found).1, dead⟩, ?_⟩, found⟩
    intro j later
    obtain ⟨-, dead⟩ := mem_broken.1 later
    by_contra earlier
    exact dead (viable.of_prefix (List.take_prefix_take_left (by omega)))
  | @name name viable dangles =>
    refine .inr ⟨Set.eq_empty_iff_forall_notMem.2 fun j inside => ?_, ?_⟩
    · exact (mem_broken.1 inside).2 (viable.of_prefix (List.take_prefix _ _))
    · rcases dangles with ⟨-, started⟩ | ⟨raw, ends, named⟩
      · cases started
      · exact ⟨raw, name, ends, named, rfl⟩

theorem parse_refuses_first_disordered :
    parse "Folder/1/**/7*/ORGS/x" = .error ⟨"ORGS", .outOfOrder⟩ ∧
      IsLeast (broken (Ancestry.pieces "Folder/1/**/7*/ORGS/x")) 4 := by
  have refused : parse "Folder/1/**/7*/ORGS/x" = .error ⟨"ORGS", .outOfOrder⟩ := rfl
  have cut : Ancestry.pieces "Folder/1/**/7*/ORGS/x" = ["Folder", "1", "**", "7*", "ORGS", "x"] :=
    rfl
  refine ⟨refused, ?_⟩
  rcases parse_refuses_first refused with ⟨i, least, found⟩ | ⟨-, raw, name, ends, named, -⟩
  · have same : (Ancestry.pieces "Folder/1/**/7*/ORGS/x")[4]? =
        (Ancestry.pieces "Folder/1/**/7*/ORGS/x")[i]? := found.symm
    rw [cut, List.getElem?_inj (by decide) (by decide)] at same
    exact same ▸ least
  · rw [cut] at ends
    obtain rfl : "x" = raw := Option.some.inj ends
    cases SegmentName.segmentName?_eq_some.2 named

end Glob

end PolicyReview
