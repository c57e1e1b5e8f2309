import PolicyReview.Ancestry
import PolicyReview.Proofs.Text.Letter
import PolicyReview.Proofs.Text.Split

/-! Canonical ancestry paths. The segments of a path that was joined are those it was joined from,
so that a canonical path has canonical segments, and canonicalizing it again changes nothing. -/

namespace PolicyReview.Ancestry

/-- What can stand between two slashes of a path and is not dropped. -/
def IsSegment (segment : String) : Prop := segment ≠ "" ∧ '/' ∉ segment.toList

theorem isSegment_of_mem_segments {path segment : String} (member : segment ∈ segments path) :
    IsSegment segment := by
  obtain ⟨piece, filled⟩ := List.mem_filter.1 member
  obtain ⟨chars, cut, rfl⟩ := List.mem_map.1 piece
  refine ⟨by simpa using filled, ?_⟩
  rw [String.toList_ofList]
  exact Text.notMem_of_mem_splitOn cut

theorem pieces_join {parts : List String} (filled : parts ≠ [])
    (each : ∀ part ∈ parts, '/' ∉ part.toList) : pieces (join parts) = parts := by
  have cut : (List.intercalate ['/'] (parts.map String.toList)).splitOn '/' =
      parts.map String.toList := by
    refine List.splitOn_intercalate '/' (fun chars member => ?_) (by simpa using filled)
    obtain ⟨part, inside, rfl⟩ := List.mem_map.1 member
    exact each part inside
  rw [pieces, join, String.toList_ofList, cut, List.map_map]
  simp [Function.comp_def]

theorem pieces_append_slash (before after : String) :
    pieces (before ++ ("/" ++ after)) = pieces before ++ pieces after := by
  have cut : (before.toList ++ '/' :: after.toList).splitOn '/' =
      before.toList.splitOn '/' ++ after.toList.splitOn '/' :=
    List.splitOnP_append_cons _ _ (by simp)
  rw [pieces, String.toList_append, String.toList_append]
  exact (congrArg (List.map String.ofList) cut).trans List.map_append

/-- Segments that are joined can be told apart again. -/
theorem segments_join {parts : List String} (each : ∀ part ∈ parts, IsSegment part) :
    segments (join parts) = parts := by
  by_cases empty : parts = []
  · subst empty
    rfl
  · rw [segments, pieces_join empty fun part inside => (each part inside).2, List.filter_eq_self]
    exact fun part inside => by simpa using (each part inside).1

/-! Names. -/

theorem lower_lower (segment : String) : lower (lower segment) = lower segment := by
  simp [lower, Function.comp_def, Text.toLower_of_not_isUpper (Text.isUpper_toLower _)]

theorem segmentName?_lower (segment : String) :
    segmentName? (lower segment) = segmentName? segment := by
  rw [segmentName?, lower_lower, segmentName?]

theorem canonicalName_canonicalName (segment : String) :
    canonicalName (canonicalName segment) = canonicalName segment := by
  cases found : segmentName? segment with
  | some name =>
    have shown : canonicalName segment = name.text := by rw [canonicalName, found]
    rw [shown]
    cases name <;> rfl
  | none =>
    have shown : canonicalName segment = lower segment := by rw [canonicalName, found]
    rw [shown, canonicalName, segmentName?_lower, found, lower_lower]

theorem isSegment_lower {segment : String} (whole : IsSegment segment) :
    IsSegment (lower segment) := by
  obtain ⟨filled, unbroken⟩ := whole
  constructor
  · simpa [lower] using filled
  · rw [lower, String.toList_ofList, List.mem_map]
    rintro ⟨c, member, slash⟩
    cases capital : c.isUpper with
    | true => exact absurd (slash ▸ Text.isLower_toLower capital) (by decide)
    | false =>
      rw [Text.toLower_of_not_isUpper capital] at slash
      exact unbroken (slash ▸ member)

theorem isSegment_canonicalName {segment : String} (whole : IsSegment segment) :
    IsSegment (canonicalName segment) := by
  rw [canonicalName]
  split
  next name _ => cases name <;> exact ⟨by decide, by decide⟩
  · exact isSegment_lower whole

/-! Paths. -/

theorem canonicalSegments_canonicalSegments (parts : List String) :
    canonicalSegments (canonicalSegments parts) = canonicalSegments parts := by
  induction parts using canonicalSegments.induct with
  | case1 => rfl
  | case2 name => simp only [canonicalSegments, canonicalName_canonicalName]
  | case3 name id rest ih => simp only [canonicalSegments, canonicalName_canonicalName, ih]

theorem isSegment_of_mem_canonicalSegments {parts : List String}
    (each : ∀ part ∈ parts, IsSegment part) :
    ∀ part ∈ canonicalSegments parts, IsSegment part := by
  induction parts using canonicalSegments.induct with
  | case1 => simp [canonicalSegments]
  | case2 name => simpa [canonicalSegments] using isSegment_canonicalName (each name (by simp))
  | case3 name id rest ih =>
    simp only [canonicalSegments, List.forall_mem_cons] at each ⊢
    exact ⟨isSegment_canonicalName each.1, each.2.1, ih each.2.2⟩

theorem segments_canonicalize (path : String) :
    segments (canonicalize path) = canonicalSegments (segments path) :=
  segments_join (isSegment_of_mem_canonicalSegments fun _ => isSegment_of_mem_segments)

theorem canonicalize_canonicalize (path : String) :
    canonicalize (canonicalize path) = canonicalize path := by
  rw [canonicalize, segments_canonicalize, canonicalSegments_canonicalSegments, canonicalize]

end PolicyReview.Ancestry
