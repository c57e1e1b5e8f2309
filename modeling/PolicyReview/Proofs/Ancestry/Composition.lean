import Mathlib.Algebra.Group.Nat.Even
import PolicyReview.Proofs.Ancestry.Canonical

/-! Paths joined from paths. The segments of a joined path are those of its parts, one part after
another. Where each part has as many names as ids, a name of a part is a name of the whole, so that
the whole is canonical when the parts are. -/

namespace PolicyReview.Ancestry

variable {first later : List String} {groups : List (List String)}

/-! Joining. -/

theorem join_singleton (part : String) : join [part] = part := by
  simp [join]

theorem join_cons (part : String) (filled : later ≠ []) :
    join (part :: later) = part ++ ("/" ++ join later) := by
  obtain ⟨next, rest, rfl⟩ := List.exists_cons_of_ne_nil filled
  apply String.toList_injective
  simp [join, List.intercalate]

theorem join_append (filled : first ≠ []) (more : later ≠ []) :
    join (first ++ later) = join first ++ ("/" ++ join later) := by
  induction first with
  | nil => exact absurd rfl filled
  | cons part rest ih =>
    by_cases last : rest = []
    · subst last
      rw [List.singleton_append, join_cons part more, join_singleton]
    · rw [List.cons_append, join_cons part (List.append_ne_nil_of_left_ne_nil last later),
        join_cons part last, ih last]
      simp only [String.append_assoc]

theorem join_eq_empty {parts : List String} (each : ∀ part ∈ parts, IsSegment part) :
    join parts = "" ↔ parts = [] := by
  constructor
  · intro empty
    have none : segments (join parts) = [] := by rw [empty]; rfl
    rwa [segments_join each] at none
  · rintro rfl
    rfl

theorem join_flatten (filled : ∀ group ∈ groups, group ≠ []) :
    join groups.flatten = join (groups.map join) := by
  induction groups with
  | nil => rfl
  | cons group rest ih =>
    obtain ⟨here, others⟩ := List.forall_mem_cons.1 filled
    cases rest with
    | nil => simp [join_singleton]
    | cons next rest =>
      have more : (next :: rest).flatten ≠ [] := by
        rw [List.flatten_cons]
        exact List.append_ne_nil_of_left_ne_nil (others next List.mem_cons_self) _
      rw [List.flatten_cons, join_append here more, ih others, List.map_cons]
      exact (join_cons (join group) (List.cons_ne_nil _ _)).symm

theorem join_flatten_filled (each : ∀ group ∈ groups, ∀ part ∈ group, IsSegment part) :
    join groups.flatten = join ((groups.map join).filter (· ≠ "")) := by
  have kept : (groups.map join).filter (· ≠ "") = (groups.filter (· ≠ [])).map join := by
    rw [List.filter_map]
    congr 1
    apply List.filter_congr
    intro group member
    simp [join_eq_empty (each group member)]
  have whole : groups.flatten = (groups.filter (· ≠ [])).flatten := by
    rw [← List.flatten_filter_ne_nil]
  rw [kept, whole]
  apply join_flatten
  intro group member
  simpa using (List.mem_filter.1 member).2

/-! Segments of joined paths. -/

theorem segments_append_slash (before after : String) :
    segments (before ++ ("/" ++ after)) = segments before ++ segments after := by
  rw [segments, pieces_append_slash, List.filter_append, segments, segments]

theorem segments_join_flatMap (parts : List String) :
    segments (join parts) = parts.flatMap segments := by
  induction parts with
  | nil => rfl
  | cons part rest ih =>
    by_cases last : rest = []
    · subst last
      simp [join_singleton]
    · rw [join_cons part last, segments_append_slash, ih, List.flatMap_cons]

theorem canonicalSegments_append (even : Even first.length) :
    canonicalSegments (first ++ later) = canonicalSegments first ++ canonicalSegments later := by
  induction first using canonicalSegments.induct with
  | case1 => rfl
  | case2 name => exact absurd even Nat.not_even_one
  | case3 name id rest ih =>
    have fewer : Even rest.length := by
      rw [List.length_cons, List.length_cons, Nat.even_add_one, Nat.even_add_one, not_not] at even
      exact even
    simp only [List.cons_append, canonicalSegments, ih fewer]

theorem canonicalSegments_flatMap {entries : List String}
    (even : ∀ entry ∈ entries, Even (segments entry).length) :
    canonicalSegments (entries.flatMap segments) =
      (entries.map fun entry => canonicalSegments (segments entry)).flatten := by
  induction entries with
  | nil => rfl
  | cons entry rest ih =>
    obtain ⟨here, others⟩ := List.forall_mem_cons.1 even
    rw [List.flatMap_cons, canonicalSegments_append here, ih others, List.map_cons,
      List.flatten_cons]

/-- An ancestor list of whole pairs of a name and an id gives its canonical entries, the outermost
first, without those that are empty. -/
theorem ofAncestors_reverse {entries : List String}
    (even : ∀ entry ∈ entries, Even (segments entry).length) :
    ofAncestors entries.reverse = join ((entries.map canonicalize).filter (· ≠ "")) := by
  have each : ∀ group ∈ entries.map fun entry => canonicalSegments (segments entry),
      ∀ part ∈ group, IsSegment part := by
    intro group member
    obtain ⟨entry, -, rfl⟩ := List.mem_map.1 member
    exact isSegment_of_mem_canonicalSegments fun _ => isSegment_of_mem_segments
  calc ofAncestors entries.reverse
      = join (canonicalSegments (segments (join entries))) := by
        rw [ofAncestors, List.reverse_reverse, canonicalize]
    _ = join (entries.map fun entry => canonicalSegments (segments entry)).flatten := by
        rw [segments_join_flatMap, canonicalSegments_flatMap even]
    _ = join ((entries.map canonicalize).filter (· ≠ "")) := by
        rw [join_flatten_filled each, List.map_map]
        rfl

/-- A part with an id to spare moves the names after it out of their places. -/
example : ofAncestors ["PROJECTS/1", "org"] = "organizations/PROJECTS/1" ∧
    join ((["org", "PROJECTS/1"].map canonicalize).filter (· ≠ "")) =
      "organizations/projects/1" := by
  decide +kernel

end PolicyReview.Ancestry
