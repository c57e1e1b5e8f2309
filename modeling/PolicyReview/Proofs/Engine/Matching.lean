import PolicyReview.Engine.Binding
import PolicyReview.Proofs.Engine.Registration
import Mathlib.Data.List.Sigma

/-! Match specifications. Their shape is always what a target asks for, since they are lists of
texts by construction; what can be wrong with one is a pattern that is no glob. -/

namespace PolicyReview

namespace MatchRule

def globFault (constraint field : String) (entry : String × Nat) : Option PolicyError :=
  match Glob.parse entry.1 with
  | .ok _ => none
  | .error error => some (.invalidGlob constraint field entry.2 error.token)

def fieldFaults (constraint field : String) (patterns : List String) : PolicyErrors :=
  patterns.zipIdx.filterMap (globFault constraint field)

/-- The globs of the rule are those that the patterns of the specification stand for. -/
structure Parses (rule : MatchRule) (spec : MatchSpec) : Prop where
  target : spec.target.map Glob.parse = rule.target.map .ok
  exclude : spec.exclude.map Glob.parse = rule.exclude.map .ok

end MatchRule

/-- The errors of a constraint's patterns, those that select before those that deselect. -/
def Constraint.globFaults (constraint : Constraint) : PolicyErrors :=
  MatchRule.fieldFaults constraint.qualifiedName "target" constraint.spec.matchSpec.target ++
    MatchRule.fieldFaults constraint.qualifiedName "exclude" constraint.spec.matchSpec.exclude

namespace MatchRule

variable {constraint field : String} {patterns : List String}

theorem globFault_eq_some {entry : String × Nat} {error : PolicyError} :
    globFault constraint field entry = some error ↔ ∃ fault, Glob.parse entry.1 = .error fault ∧
      error = .invalidGlob constraint field entry.2 fault.token := by
  unfold globFault
  cases Glob.parse entry.1 with
  | ok glob => simp
  | error fault => simp [eq_comm]

theorem mem_fieldFaults {error : PolicyError} :
    error ∈ fieldFaults constraint field patterns ↔ ∃ index pattern fault,
      patterns[index]? = some pattern ∧ Glob.parse pattern = .error fault ∧
      error = .invalidGlob constraint field index fault.token := by
  simp only [fieldFaults, List.mem_filterMap, List.mem_zipIdx_iff_getElem?, globFault_eq_some]
  constructor
  · rintro ⟨⟨pattern, index⟩, here, fault, refused, rfl⟩
    exact ⟨index, pattern, fault, here, refused, rfl⟩
  · rintro ⟨index, pattern, fault, here, refused, rfl⟩
    exact ⟨⟨pattern, index⟩, here, fault, refused, rfl⟩

theorem fieldFaults_eq_nil :
    fieldFaults constraint field patterns = [] ↔
      ∀ pattern ∈ patterns, ∃ glob, Glob.parse pattern = .ok glob := by
  rw [List.eq_nil_iff_forall_not_mem]
  simp only [mem_fieldFaults]
  constructor
  · intro clean pattern member
    obtain ⟨index, here⟩ := List.mem_iff_getElem?.1 member
    cases parsed : Glob.parse pattern with
    | ok glob => exact ⟨glob, rfl⟩
    | error fault => exact absurd ⟨index, pattern, fault, here, parsed, rfl⟩ (clean _)
  · rintro globs error ⟨index, pattern, fault, here, refused, rfl⟩
    obtain ⟨glob, parsed⟩ := globs pattern (List.mem_of_getElem? here)
    rw [refused] at parsed
    cases parsed

theorem fieldFaults_nodup : (fieldFaults constraint field patterns).Nodup := by
  have indices : patterns.zipIdx.Pairwise fun first second => first.2 ≠ second.2 :=
    List.pairwise_map.1 (List.nodup_zipIdx_map_snd patterns)
  refine indices.filterMap _ fun first second different one here two there same => ?_
  obtain ⟨_, _, rfl⟩ := globFault_eq_some.1 here
  obtain ⟨_, _, rfl⟩ := globFault_eq_some.1 there
  exact different (PolicyError.invalidGlob.inj same).2.2.1

theorem parseList_errors :
    (parseList constraint field patterns).2 = fieldFaults constraint field patterns := by
  simp only [parseList, fieldFaults, List.filterMap_map]
  rfl

theorem parseList_globs (constraint field : String)
    (globs : ∀ pattern ∈ patterns, ∃ glob, Glob.parse pattern = .ok glob) :
    patterns.map Glob.parse = (parseList constraint field patterns).1.map .ok := by
  -- Indices matter to the errors only, so the induction may start at any of them.
  suffices parsed : ∀ start, patterns.map Glob.parse = (((patterns.zipIdx start).map
      fun entry => (Glob.parse entry.1, entry.2)).filterMap
      fun result => result.1.toOption).map .ok from parsed 0
  induction patterns with
  | nil => simp
  | cons pattern rest ih =>
    intro start
    obtain ⟨glob, parsed⟩ := globs pattern (by simp)
    have later := ih (fun other member => globs other (by simp [member])) (start + 1)
    simp [parsed, Except.toOption, later]

end MatchRule

namespace Constraint

variable {constraint : Constraint} {rule : MatchRule} {errors : PolicyErrors}

theorem mem_globFaults {error : PolicyError} (member : error ∈ constraint.globFaults) :
    ∃ field index token, error = .invalidGlob constraint.qualifiedName field index token := by
  rcases List.mem_append.1 member with here | here
  · obtain ⟨index, _, fault, _, _, rfl⟩ := MatchRule.mem_fieldFaults.1 here
    exact ⟨_, index, fault.token, rfl⟩
  · obtain ⟨index, _, fault, _, _, rfl⟩ := MatchRule.mem_fieldFaults.1 here
    exact ⟨_, index, fault.token, rfl⟩

theorem globFaults_nodup : constraint.globFaults.Nodup := by
  refine List.nodup_append.2 ⟨MatchRule.fieldFaults_nodup, MatchRule.fieldFaults_nodup, ?_⟩
  intro first selecting second deselecting same
  obtain ⟨_, _, _, _, _, rfl⟩ := MatchRule.mem_fieldFaults.1 selecting
  obtain ⟨_, _, _, _, _, rfl⟩ := MatchRule.mem_fieldFaults.1 deselecting
  exact absurd (PolicyError.invalidGlob.inj same).2.1 (by decide)

/-- A constraint without errors in its patterns is one all of whose patterns are globs. -/
theorem globFaults_eq_nil : constraint.globFaults = [] ↔
    ∀ pattern ∈ constraint.spec.matchSpec.target ++ constraint.spec.matchSpec.exclude,
      ∃ glob, Glob.parse pattern = .ok glob := by
  rw [globFaults, List.append_eq_nil_iff, MatchRule.fieldFaults_eq_nil,
    MatchRule.fieldFaults_eq_nil, ← List.forall_mem_append]

end Constraint

namespace MatchRule

variable {constraint : Constraint} {rule : MatchRule} {errors : PolicyErrors}

theorem ofConstraint_eq_error :
    ofConstraint constraint = .error errors ↔ constraint.globFaults = errors ∧ errors ≠ [] := by
  simp only [ofConstraint, parseList_errors]
  exact PolicyErrors.orValue_eq_error

theorem parses_of_ofConstraint (parsed : ofConstraint constraint = .ok rule) :
    constraint.globFaults = [] ∧ rule.Parses constraint.spec.matchSpec := by
  simp only [ofConstraint, parseList_errors] at parsed
  obtain ⟨clean, rfl⟩ := PolicyErrors.orValue_eq_ok.1 parsed
  obtain ⟨selecting, deselecting⟩ := List.append_eq_nil_iff.1 clean
  exact ⟨clean, parseList_globs constraint.qualifiedName "target" (fieldFaults_eq_nil.1 selecting),
    parseList_globs constraint.qualifiedName "exclude" (fieldFaults_eq_nil.1 deselecting)⟩

theorem ofConstraint_of_clean (clean : constraint.globFaults = []) :
    ∃ rule, ofConstraint constraint = .ok rule := by
  cases parsed : ofConstraint constraint with
  | ok rule => exact ⟨rule, rfl⟩
  | error errors =>
    obtain ⟨rfl, faulty⟩ := ofConstraint_eq_error.1 parsed
    exact absurd clean faulty

end MatchRule

namespace Schema

theorem violations_strings (root : Json) (fuel : Nat) (texts : List String) :
    violations .twentyTwenty root (fuel + 2)
      (.object [("items", .object [("type", .string "string")]), ("type", .string "array")])
      (Json.strings texts) = [] := by
  change validateItems (violations .twentyTwenty root (fuel + 1))
    (.object [("type", .string "string")]) 0 (texts.map Json.string) ++ [] = []
  rw [List.append_nil, validateItems, List.flatMap_eq_nil_iff]
  rintro ⟨item, index⟩ member
  obtain ⟨text, _, rfl⟩ := List.mem_map.1 (List.fst_mem_of_mem_zipIdx member)
  rfl

end Schema

namespace Binding

theorem matchErrors_eq_nil (constraint : Constraint) : matchErrors constraint = [] := by
  have plenty : 3 ≤ Schema.enough Target.matchSchema constraint.spec.matchSpec.toJson :=
    Nat.le_trans (show 3 ≤ Target.matchSchema.size + 1 by decide)
      (Nat.le_mul_of_pos_right _ (Nat.succ_pos _))
  obtain ⟨fuel, enough⟩ := Nat.exists_eq_add_of_le' plenty
  have texts := Schema.violations_strings Target.matchSchema fuel
  have valid : Schema.validate .twentyTwenty Target.matchSchema
      constraint.spec.matchSpec.toJson = [] := by
    rw [Schema.validate, enough]
    change [] ++ (((Schema.violations .twentyTwenty _ (fuel + 2) _ (Json.strings _)).map
      (Schema.Violation.under "exclude") ++ ((Schema.violations .twentyTwenty _ (fuel + 2) _
      (Json.strings _)).map (Schema.Violation.under "target") ++ [])) ++ []) = []
    rw [texts, texts]
    rfl
  rw [matchErrors, valid]

end Binding

end PolicyReview
