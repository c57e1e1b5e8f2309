import PolicyReview.Proofs.Ancestry.Canonical
import PolicyReview.Proofs.Ancestry.Token

/-! Paths of one canonical form. A canonical name has no capital letter and is no alias, and it
stands for the segments that spell the same name or the same other word. Two paths have one
canonical form exactly when they agree place by place, in this sense at the even ones and to the
letter at the odd ones. -/

namespace PolicyReview.Ancestry

def SameName (first second : String) : Prop :=
  lower first = lower second ∨ ∃ name : SegmentName, name.SpeltBy first ∧ name.SpeltBy second

structure IsCanonicalName (segment : String) : Prop where
  uncapped : ∀ c ∈ segment.toList, c.isUpper = false
  unaliased : ∀ name : SegmentName, name.SpeltBy segment → segment = name.text

theorem canonicalName_of_speltBy {segment : String} {name : SegmentName}
    (spelt : name.SpeltBy segment) : canonicalName segment = name.text := by
  rw [canonicalName, SegmentName.segmentName?_eq_some.2 spelt]

theorem canonicalName_of_unnamed {segment : String}
    (unnamed : ∀ name : SegmentName, ¬name.SpeltBy segment) :
    canonicalName segment = lower segment := by
  have none : segmentName? segment = none := by
    rw [Option.eq_none_iff_forall_ne_some]
    exact fun name found => unnamed name (SegmentName.segmentName?_eq_some.1 found)
  rw [canonicalName, none]

theorem speltBy_canonicalName {segment : String} {name : SegmentName} :
    name.SpeltBy (canonicalName segment) ↔ name.SpeltBy segment := by
  simp only [← SegmentName.segmentName?_eq_some]
  cases found : segmentName? segment with
  | some other =>
    rw [canonicalName_of_speltBy (SegmentName.segmentName?_eq_some.1 found),
      SegmentName.segmentName?_eq_some.2 other.speltBy_text]
  | none =>
    have shown : canonicalName segment = lower segment := by rw [canonicalName, found]
    rw [shown, segmentName?_lower, found]

theorem isCanonicalName_canonicalName (segment : String) :
    IsCanonicalName (canonicalName segment) := by
  constructor
  · by_cases named : ∃ name : SegmentName, name.SpeltBy segment
    · obtain ⟨name, spelt⟩ := named
      rw [canonicalName_of_speltBy spelt]
      intro c inside
      apply Text.not_isUpper_of_isLower
      exact name.isLower_of_mem_spellings _ name.text_mem_spellings c inside
    · rw [canonicalName_of_unnamed (not_exists.1 named)]
      intro c inside
      rw [lower, String.toList_ofList, List.mem_map] at inside
      obtain ⟨d, -, rfl⟩ := inside
      exact Text.isUpper_toLower d
  · intro name spelt
    exact canonicalName_of_speltBy (speltBy_canonicalName.1 spelt)

theorem canonicalName_eq_iff {first second : String} :
    canonicalName first = canonicalName second ↔ SameName first second := by
  constructor
  · intro same
    by_cases named : ∃ name : SegmentName, name.SpeltBy first
    · obtain ⟨name, spelt⟩ := named
      exact .inr ⟨name, spelt, speltBy_canonicalName.1 (same ▸ speltBy_canonicalName.2 spelt)⟩
    · have unnamed := not_exists.1 named
      have unnamed' : ∀ name : SegmentName, ¬name.SpeltBy second := fun name spelt =>
        unnamed name (speltBy_canonicalName.1 (same ▸ speltBy_canonicalName.2 spelt))
      rw [canonicalName_of_unnamed unnamed, canonicalName_of_unnamed unnamed'] at same
      exact .inl same
  · rintro (same | ⟨name, spelt, spelt'⟩)
    · rw [canonicalName, canonicalName, ← segmentName?_lower first, ← segmentName?_lower second,
        same]
    · rw [canonicalName_of_speltBy spelt, canonicalName_of_speltBy spelt']

/-! Paths, place by place. -/

/-- A path in canonical form: no slash is doubled, first or last, and names stand as such at the
even places. -/
structure IsCanonical (path : String) : Prop where
  filled : path = "" ∨ "" ∉ pieces path
  named : ∀ i (within : i < (segments path).length), i % 2 = 0 →
    IsCanonicalName (segments path)[i]

/-- Segments that agree: as names at the even places, and to the letter at the odd ones. -/
structure SamePath (first second : List String) : Prop where
  length_eq : first.length = second.length
  names : ∀ i (h : i < first.length) (h' : i < second.length), i % 2 = 0 →
    SameName first[i] second[i]
  ids : ∀ i (h : i < first.length) (h' : i < second.length), i % 2 = 1 → first[i] = second[i]

theorem canonicalSegments_eq_mapIdx (parts : List String) :
    canonicalSegments parts =
      parts.mapIdx fun i part => if i % 2 = 0 then canonicalName part else part := by
  induction parts using canonicalSegments.induct with
  | case1 => rfl
  | case2 name => simp [canonicalSegments]
  | case3 name id rest ih => simp [canonicalSegments, ih, List.mapIdx_cons, Nat.add_assoc]

theorem canonicalSegments_eq_iff {first second : List String} :
    canonicalSegments first = canonicalSegments second ↔ SamePath first second := by
  rw [canonicalSegments_eq_mapIdx, canonicalSegments_eq_mapIdx, List.ext_getElem_iff]
  simp only [List.length_mapIdx, List.getElem_mapIdx]
  constructor
  · rintro ⟨length_eq, agree⟩
    refine ⟨length_eq, fun i h h' even => ?_, fun i h h' odd => ?_⟩
    · simpa [even, canonicalName_eq_iff] using agree i h h'
    · simpa [odd] using agree i h h'
  · intro same
    refine ⟨same.length_eq, fun i h h' => ?_⟩
    split
    next even => exact canonicalName_eq_iff.2 (same.names i h h' even)
    next odd => exact same.ids i h h' (Nat.mod_two_ne_zero.1 odd)

theorem isCanonical_canonicalize (path : String) : IsCanonical (canonicalize path) := by
  constructor
  · by_cases empty : canonicalSegments (segments path) = []
    · exact .inl (by rw [canonicalize, empty]; rfl)
    · have each : ∀ part ∈ canonicalSegments (segments path), IsSegment part :=
        isSegment_of_mem_canonicalSegments fun _ => isSegment_of_mem_segments
      rw [canonicalize, pieces_join empty fun part inside => (each part inside).2]
      exact .inr fun inside => (each "" inside).1 rfl
  · intro i within even
    simp only [segments_canonicalize, canonicalSegments_eq_mapIdx, List.getElem_mapIdx, if_pos even]
    exact isCanonicalName_canonicalName _

theorem canonicalize_eq_iff {path other : String} :
    canonicalize path = canonicalize other ↔
      segments (canonicalize path) = segments (canonicalize other) := by
  refine ⟨fun same => by rw [same], fun same => ?_⟩
  rw [segments_canonicalize, segments_canonicalize] at same
  rw [canonicalize, canonicalize, same]

/-- The canonical form of a path is canonical, is kept when it is taken again, and says which paths
are one. -/
theorem canonicalize_normalizes (path other : String) :
    canonicalize (canonicalize path) = canonicalize path ∧ IsCanonical (canonicalize path) ∧
      (canonicalize path = canonicalize other ↔ SamePath (segments path) (segments other)) := by
  refine ⟨canonicalize_canonicalize path, isCanonical_canonicalize path, ?_⟩
  rw [canonicalize_eq_iff, segments_canonicalize, segments_canonicalize, canonicalSegments_eq_iff]

example : canonicalize "ORG/1//Folder/A/bucket/" = "organizations/1/folders/A/bucket" := by
  decide +kernel

end PolicyReview.Ancestry
