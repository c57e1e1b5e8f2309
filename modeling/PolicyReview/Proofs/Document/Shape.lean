import PolicyReview.Document
import PolicyReview.Proofs.Schema.Description
import Mathlib.Data.Set.List

/-! Shapes of policy documents. Every schema of a document describes one: which members there may
be at each level, which have to be, and what they hold. -/

namespace PolicyReview.Document

def IsText (value : Json) : Prop := ∃ text, value = .string text

/-- A text that is not empty. -/
def IsName (value : Json) : Prop := ∃ text, text ≠ "" ∧ value = .string text

def IsTexts (value : Json) : Prop := ∃ texts, value = Json.strings texts

def IsTextMap (value : Json) : Prop := ∃ entries, value = ObjectMeta.mapJson entries

def IsObject (value : Json) : Prop := ∃ fields, value = .object fields

def IsVersion (versions : List String) (value : Json) : Prop :=
  ∃ version ∈ versions, value = .string version

def IsMetadata : Json → Prop :=
  Json.IsRecord [("annotations", IsTextMap), ("labels", IsTextMap), ("name", IsName)] ["name"]

/-! Templates. -/

def IsKindNames : Json → Prop :=
  Json.IsRecord [("kind", IsName), ("plural", IsText), ("shortNames", IsTexts)] ["kind"]

def IsValidation : Json → Prop :=
  Json.IsRecord [("openAPIV3Schema", IsObject)] ["openAPIV3Schema"]

def IsGeneratedSpec : Json → Prop :=
  Json.IsRecord [("names", IsKindNames), ("validation", IsValidation)] ["names", "validation"]

def IsGenerated : Json → Prop := Json.IsRecord [("spec", IsGeneratedSpec)] ["spec"]

def IsSource : Json → Prop := Json.IsRecord [("libs", IsTexts), ("rego", IsName)] ["rego"]

def IsNamedSource : Json → Prop :=
  Json.IsRecord [("libs", IsTexts), ("rego", IsName), ("target", IsName)] ["rego", "target"]

/-- Sources by the names of their targets, or sources that name their targets; at least one. -/
inductive AreTargets : Json → Prop
  | map {fields : Json.Fields} (some : fields ≠ []) (sources : ∀ field ∈ fields, IsSource field.2) :
      AreTargets (.object fields)
  | list {items : List Json} (some : items ≠ []) (sources : ∀ item ∈ items, IsNamedSource item) :
      AreTargets (.array items)

def IsTemplateSpec : Json → Prop :=
  Json.IsRecord [("crd", IsGenerated), ("targets", AreTargets)] ["crd", "targets"]

def IsTemplate : Json → Prop :=
  Json.IsRecord [
    ("apiVersion", IsVersion templateVersions),
    ("kind", (· = .string templateKind)),
    ("metadata", IsMetadata),
    ("spec", IsTemplateSpec)]
    Schema.documentFields

/-! Constraints. -/

def IsMatchSpec : Json → Prop := Json.IsRecord [("exclude", IsTexts), ("target", IsTexts)] []

def IsConstraintSpec : Json → Prop :=
  Json.IsRecord [("match", IsMatchSpec), ("parameters", IsObject), ("severity", IsText)] []

def IsConstraint : Json → Prop :=
  Json.IsRecord [
    ("apiVersion", IsVersion constraintVersions),
    ("kind", fun value => IsName value ∧ value ≠ .string templateKind),
    ("metadata", IsMetadata),
    ("spec", IsConstraintSpec)]
    Schema.documentFields

/-- What a document of a kind has to look like. -/
def Kind.Shape : Kind → Json → Prop
  | .template => IsTemplate
  | .constraint => IsConstraint

namespace Schema

open PolicyReview.Schema

variable {depth : Nat} {holds : Json → Prop} {fields properties : Json.Fields} {rules : List Rule}
  {required : List String}

theorem describes_text : Describes (ofType "string") 1 IsText :=
  .ofKeywords (by simp) fun _ _ _ _ => by
    rw [List.forall_mem_singleton, validate_type, hasType_string]
    rfl

theorem describes_object : Describes (ofType "object") 1 IsObject :=
  .ofKeywords (by simp) fun _ _ _ _ => by
    rw [List.forall_mem_singleton, validate_type, hasType_object]
    rfl

theorem describes_name : Describes nonEmptyText 1 IsName := by
  refine .ofKeywords (by simp) fun _ _ value _ => ?_
  rw [List.forall_mem_cons, List.forall_mem_singleton, validate_type, hasType_string]
  constructor
  · rintro ⟨long, text, rfl⟩
    exact ⟨text, validate_minLength.1 long, rfl⟩
  · rintro ⟨text, long, rfl⟩
    exact ⟨validate_minLength.2 long, text, rfl⟩

theorem describes_version (versions : List String) :
    Describes (.object [("enum", Json.strings versions)]) 1 (IsVersion versions) :=
  .ofKeywords (by simp) fun _ _ _ _ => by
    rw [List.forall_mem_singleton, validate_enum]
    rfl

theorem describes_const (text : String) :
    Describes (.object [("const", .string text)]) 1 (· = .string text) :=
  .ofKeywords (by simp) fun _ _ _ _ => by
    rw [List.forall_mem_singleton, validate_const]

theorem describes_listOf {items : Json.Fields} (inner : Describes (.object items) depth holds) :
    Describes (listOf (.object items)) (depth + 1) fun value =>
      ∃ members, value = .array members ∧ ∀ member ∈ members, holds member := by
  refine .ofKeywords (by simp) fun root fuel value enough => ?_
  rw [List.forall_mem_cons, List.forall_mem_singleton, validate_type, hasType_array]
  constructor
  · rintro ⟨each, members, rfl⟩
    exact ⟨members, rfl, fun member inside =>
      (inner root fuel member enough).1 (validate_items.1 each member inside)⟩
  · rintro ⟨members, rfl, each⟩
    exact ⟨validate_items.2 fun member inside =>
      (inner root fuel member enough).2 (each member inside), members, rfl⟩

theorem describes_texts : Describes texts 2 IsTexts := by
  intro root fuel value enough
  rw [texts, ofType, describes_listOf describes_text root fuel value enough]
  constructor
  · rintro ⟨members, rfl, each⟩
    obtain ⟨texts, rfl⟩ : members ∈ Set.range (List.map Json.string) := by
      rw [Set.range_list_map]
      exact fun member inside => (each member inside).imp fun _ same => same.symm
    exact ⟨texts, rfl⟩
  · rintro ⟨texts, rfl⟩
    refine ⟨_, rfl, fun member inside => ?_⟩
    obtain ⟨text, _, rfl⟩ := List.mem_map.1 inside
    exact ⟨text, rfl⟩

theorem describes_textMap : Describes textMap 2 IsTextMap := by
  refine .ofKeywords (by simp) fun root fuel value enough => ?_
  rw [List.forall_mem_cons, List.forall_mem_singleton, validate_type, hasType_object]
  have text := fun value => describes_text root fuel value enough
  constructor
  · rintro ⟨each, members, rfl⟩
    have texts := (validate_members (by rfl) (by rfl)).1 each
    obtain ⟨entries, rfl⟩ :
        members ∈ Set.range
          (List.map fun entry : String × String => (entry.1, .string entry.2)) := by
      rw [Set.range_list_map]
      rintro ⟨name, value⟩ inside
      obtain ⟨text, rfl⟩ := (text value).1 (texts _ inside)
      exact ⟨(name, text), rfl⟩
    exact ⟨entries, rfl⟩
  · rintro ⟨entries, rfl⟩
    refine ⟨(validate_members (by rfl) (by rfl)).2 fun member inside => ?_, _, rfl⟩
    obtain ⟨entry, _, rfl⟩ := List.mem_map.1 inside
    exact (text _).2 ⟨entry.2, rfl⟩

/-- A closed object is described by rules for its properties. -/
theorem describes_closed (described : DescribesAll properties depth rules)
    (required : List String) :
    Describes (closed properties required) (depth + 1) (Json.IsRecord rules required) := by
  cases required with
  | nil =>
    refine described.isRecord (by simp) (by rfl) (by rfl) fun validate value => ?_
    simp [validate_required_nil]
  | cons first rest =>
    refine described.isRecord (by simp) (by rfl) (by rfl) fun validate value => ?_
    simp

theorem describes_entitled (described : DescribesAll properties depth rules)
    (name title : String) (required : List String) :
    Describes (entitled name title properties required) (depth + 1)
      (Json.IsRecord rules required) := by
  refine described.isRecord (by simp) (by rfl) (by rfl) fun validate value => ?_
  simp [validate_annotating]

theorem describes_metadata : Describes metadata 3 IsMetadata :=
  describes_closed (.cons ⟨rfl, describes_textMap⟩ <| .cons ⟨rfl, describes_textMap⟩ <|
    .cons ⟨rfl, describes_name.mono (by decide)⟩ .nil) _

/-! Templates. -/

theorem describes_kindNames : Describes
    (closed [("kind", nonEmptyText), ("plural", ofType "string"), ("shortNames", texts)] ["kind"])
    3 IsKindNames :=
  describes_closed (.cons ⟨rfl, describes_name.mono (by decide)⟩ <|
    .cons ⟨rfl, describes_text.mono (by decide)⟩ <| .cons ⟨rfl, describes_texts⟩ .nil) _

theorem describes_validation : Describes
    (closed [("openAPIV3Schema", ofType "object")] ["openAPIV3Schema"]) 2 IsValidation :=
  describes_closed (.cons ⟨rfl, describes_object⟩ .nil) _

theorem describes_generated : Describes generated 5 IsGenerated :=
  describes_closed (.cons ⟨rfl, describes_closed (.cons ⟨rfl, describes_kindNames⟩ <|
    .cons ⟨rfl, describes_validation.mono (by decide)⟩ .nil) _⟩ .nil) _

theorem describes_source : Describes source 3 IsSource :=
  describes_closed (.cons ⟨rfl, describes_texts⟩ <|
    .cons ⟨rfl, describes_name.mono (by decide)⟩ .nil) _

theorem describes_namedSource : Describes namedSource 3 IsNamedSource :=
  describes_closed (.cons ⟨rfl, describes_texts⟩ <| .cons ⟨rfl, describes_name.mono (by decide)⟩ <|
    .cons ⟨rfl, describes_name.mono (by decide)⟩ .nil) _

/-- The schema of a map of sources. -/
theorem describes_sourceMap : Describes (.object [
      ("additionalProperties", source), ("minProperties", Json.int 1), ("type", .string "object")])
    4 fun value => ∃ fields, value = .object fields ∧ fields ≠ [] ∧
      ∀ field ∈ fields, IsSource field.2 := by
  refine .ofKeywords (by simp) fun root fuel value enough => ?_
  rw [List.forall_mem_cons, List.forall_mem_cons, List.forall_mem_singleton, validate_type,
    hasType_object]
  have each := fun value => describes_source root fuel value enough
  constructor
  · rintro ⟨sources, some, fields, rfl⟩
    have valid := (validate_members (by rfl) (by rfl)).1 sources
    exact ⟨fields, rfl, validate_minProperties.1 some, fun field inside =>
      (each field.2).1 (valid field inside)⟩
  · rintro ⟨fields, rfl, some, sources⟩
    exact ⟨(validate_members (by rfl) (by rfl)).2 fun field inside =>
      (each field.2).2 (sources field inside), validate_minProperties.2 some, fields, rfl⟩

theorem describes_sourceList : Describes (.object [
      ("items", namedSource), ("minItems", Json.int 1), ("type", .string "array")])
    4 fun value => ∃ items, value = .array items ∧ items ≠ [] ∧
      ∀ item ∈ items, IsNamedSource item := by
  refine .ofKeywords (by simp) fun root fuel value enough => ?_
  rw [List.forall_mem_cons, List.forall_mem_cons, List.forall_mem_singleton, validate_type,
    hasType_array]
  have each := fun value => describes_namedSource root fuel value enough
  constructor
  · rintro ⟨sources, some, items, rfl⟩
    exact ⟨items, rfl, validate_minItems.1 some, fun item inside =>
      (each item).1 (validate_items.1 sources item inside)⟩
  · rintro ⟨items, rfl, some, sources⟩
    exact ⟨validate_items.2 fun item inside => (each item).2 (sources item inside),
      validate_minItems.2 some, items, rfl⟩

/-- A map is no list, so that never both alternatives pass. -/
theorem describes_targets : Describes targets 5 AreTargets := by
  refine .ofKeywords (by simp) fun root fuel value enough => ?_
  have map := describes_sourceMap root fuel value enough
  have list := describes_sourceList root fuel value enough
  rw [List.forall_mem_singleton, validate_oneOf, map, list]
  · constructor
    · rintro (⟨fields, rfl, some, sources⟩ | ⟨items, rfl, some, sources⟩)
      · exact .map some sources
      · exact .list some sources
    · rintro (⟨some, sources⟩ | ⟨some, sources⟩)
      · exact .inl ⟨_, rfl, some, sources⟩
      · exact .inr ⟨_, rfl, some, sources⟩
  · rw [Ne, map, list]
    rintro ⟨fields, rfl, _⟩ ⟨items, same, _⟩
    cases same

theorem describes_templateSpec : Describes
    (closed [("crd", generated), ("targets", targets)] ["crd", "targets"]) 6 IsTemplateSpec :=
  describes_closed (.cons ⟨rfl, describes_generated⟩ <| .cons ⟨rfl, describes_targets⟩ .nil) _

theorem describes_template : Describes template 7 IsTemplate :=
  describes_entitled (.cons ⟨rfl, (describes_version _).mono (by decide)⟩ <|
    .cons ⟨rfl, (describes_const _).mono (by decide)⟩ <|
    .cons ⟨rfl, describes_metadata.mono (by decide)⟩ <|
    .cons ⟨rfl, describes_templateSpec⟩ .nil) _ _ _

/-! Constraints. -/

theorem describes_constraintKind : Describes (.object [
      ("minLength", Json.int 1),
      ("not", .object [("const", .string templateKind)]),
      ("type", .string "string")]) 2 fun value => IsName value ∧ value ≠ .string templateKind := by
  refine .ofKeywords (by simp) fun root fuel value enough => ?_
  have other := describes_const templateKind root fuel value enough
  rw [List.forall_mem_cons, List.forall_mem_cons, List.forall_mem_singleton, validate_type,
    hasType_string, validate_not, Ne, other]
  constructor
  · rintro ⟨long, other, text, rfl⟩
    exact ⟨⟨text, validate_minLength.1 long, rfl⟩, other⟩
  · rintro ⟨⟨text, long, rfl⟩, other⟩
    exact ⟨validate_minLength.2 long, other, text, rfl⟩

theorem describes_matchSpec : Describes matchSpec 3 IsMatchSpec :=
  describes_closed (.cons ⟨rfl, describes_texts⟩ <| .cons ⟨rfl, describes_texts⟩ .nil) _

theorem describes_constraintSpec : Describes
    (closed [("match", matchSpec), ("parameters", ofType "object"), ("severity", ofType "string")])
    4 IsConstraintSpec :=
  describes_closed (.cons ⟨rfl, describes_matchSpec⟩ <|
    .cons ⟨rfl, describes_object.mono (by decide)⟩ <|
    .cons ⟨rfl, describes_text.mono (by decide)⟩ .nil) _

theorem describes_constraint : Describes constraint 5 IsConstraint :=
  describes_entitled (.cons ⟨rfl, (describes_version _).mono (by decide)⟩ <|
    .cons ⟨rfl, describes_constraintKind.mono (by decide)⟩ <|
    .cons ⟨rfl, describes_metadata.mono (by decide)⟩ <|
    .cons ⟨rfl, describes_constraintSpec⟩ .nil) _ _ _

/-- The valid documents of a kind are those of its shape. -/
theorem validate_ofKind_eq_nil (kind : Kind) (document : Json) :
    validate .twentyTwenty (ofKind kind) document = [] ↔ kind.Shape document := by
  have plenty : ∀ schema : Json, 7 ≤ schema.size → 7 ≤ enough schema document := fun schema large =>
    Nat.le_trans (Nat.le_succ_of_le large) (Nat.le_mul_of_pos_right _ (Nat.succ_pos _))
  cases kind with
  | template => exact describes_template _ _ _ (plenty template (by decide))
  | constraint =>
    exact describes_constraint.mono (by decide) _ _ _ (plenty constraint (by decide))

end Schema

end PolicyReview.Document
