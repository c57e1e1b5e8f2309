import PolicyReview.Violation
import PolicyReview.Proofs.Fallible
import PolicyReview.Proofs.PolicyValue
import PolicyReview.Proofs.Rules

/-! The rules on results. A result stands for a violation when it has a message and its details are an
object, or null, without the reserved keys; the metadata of the violation are then the details
as they are, with the data of the constraint and the path of the asset under these keys. -/

namespace PolicyReview.ConstraintViolation

variable {raw : RawResult} {fields : Json.Fields} {key : String}

inductive Details : Json → Json.Fields → Prop where
  | null : Details .null []
  | object (fields : Json.Fields) : Details (.object fields) fields

theorem detailsMap?_of_details {details : Json} (detailed : Details details fields) :
    detailsMap? (.ofJson details) = some (PolicyValue.ofFields fields) := by
  cases detailed <;> rfl

theorem detailsMap?_none {details : Json} (other : ¬∃ fields, Details details fields) :
    detailsMap? (.ofJson details) = none := by
  cases details with
  | null => exact absurd ⟨_, .null⟩ other
  | object fields => exact absurd ⟨_, .object fields⟩ other
  | _ => rfl

theorem Details.unique {details : Json} {others : Json.Fields} (first : Details details fields)
    (second : Details details others) : fields = others := by
  cases first <;> cases second <;> rfl

/-- The rules on results. -/
inductive Rule where
  | message
  | details
  | free (key : String)

namespace Rule

/-- The order in which the rules are applied. -/
def order : List Rule := [.message, .details, .free "constraint", .free "ancestry_path"]

def Holds (raw : RawResult) : Rule → Prop
  | .message => raw.message ≠ ""
  | .details => ∃ fields, Details raw.details fields
  | .free key => ∀ fields, Details raw.details fields → key ∉ fields.map (·.1)

/-- What is reported of a result that breaks the rule and keeps the rules before it. -/
def error (asset : Asset) (bound : BoundConstraint) : Rule → ReviewError
  | .message => .malformedResult asset.name bound.constraint.qualifiedName .emptyMessage
  | .details => .malformedResult asset.name bound.constraint.qualifiedName .detailsNotObject
  | .free key => .reservedKeyCollision asset.name bound.constraint.qualifiedName key

end Rule

theorem holds_free (detailed : Details raw.details fields) :
    Rule.Holds raw (.free key) ↔ key ∉ fields.map (·.1) := by
  constructor
  · intro free
    exact free fields detailed
  · intro absent others again
    rw [← detailed.unique again]
    exact absent

def metadataOf (asset : Asset) (constraint : Constraint) (fields : Json.Fields) : PolicyMap :=
  PolicyMap.insert ancestryKey (.string asset.ancestry)
    (PolicyMap.insert constraintKey (provenance constraint) (PolicyValue.ofFields fields))

theorem isSome_lookup_ofFields (fields : Json.Fields) (key : String) :
    ((PolicyValue.ofFields fields).lookup key).isSome = true ↔ key ∈ fields.map (·.1) := by
  rw [← not_iff_not, Bool.not_eq_true, Option.isSome_eq_false_iff, Option.isNone_iff_eq_none,
    lookup_eq_none, PolicyValue.names_ofFields]

theorem ofRaw_eq (asset : Asset) (bound : BoundConstraint) (told : raw.message ≠ "")
    (detailed : Details raw.details fields) : ofRaw asset bound raw =
      if "constraint" ∈ fields.map (·.1) then .error (Rule.error asset bound (.free "constraint"))
      else if "ancestry_path" ∈ fields.map (·.1) then
        .error (Rule.error asset bound (.free "ancestry_path"))
      else .ok ⟨raw.message, metadataOf asset bound.constraint fields, bound.constraint⟩ := by
  rw [ofRaw, if_neg told, detailsMap?_of_details detailed]
  simp only [reservedKeys, constraintKey, ancestryKey, List.find?_cons, List.find?_nil]
  by_cases constraint : "constraint" ∈ fields.map (·.1)
  · rw [if_pos constraint, (isSome_lookup_ofFields fields _).2 constraint]
    rfl
  · rw [if_neg constraint, Bool.eq_false_iff.2 (mt (isSome_lookup_ofFields fields _).1 constraint)]
    by_cases ancestry : "ancestry_path" ∈ fields.map (·.1)
    · rw [if_pos ancestry, (isSome_lookup_ofFields fields _).2 ancestry]
      rfl
    · rw [if_neg ancestry, Bool.eq_false_iff.2 (mt (isSome_lookup_ofFields fields _).1 ancestry)]
      rfl

theorem ofRaw_enforces (asset : Asset) (bound : BoundConstraint) (raw : RawResult) :
    Enforces (ofRaw asset bound raw) Rule.order (Rule.Holds raw) (Rule.error asset bound) := by
  refine .cons (fun untold => ?_) fun told => ?_
  · rw [ofRaw, if_pos (not_not.1 untold)]
    rfl
  refine .cons (fun other => ?_) fun ⟨fields, detailed⟩ => ?_
  · rw [ofRaw, if_neg told, detailsMap?_none other]
    rfl
  have checked := ofRaw_eq asset bound told detailed
  refine .cons (fun taken => ?_) fun free => ?_
  · rw [holds_free detailed, not_not] at taken
    rw [checked, if_pos taken]
  rw [if_neg ((holds_free detailed).1 free)] at checked
  refine .cons (fun taken => ?_) fun free => ?_
  · rw [holds_free detailed, not_not] at taken
    rw [checked, if_pos taken]
  rw [if_neg ((holds_free detailed).1 free)] at checked
  exact .done checked

theorem ofRaw_accepts {asset : Asset} {bound : BoundConstraint} :
    (∃ violation, ofRaw asset bound raw = .ok violation) ↔ raw.message ≠ "" ∧ ∃ fields,
      Details raw.details fields ∧ "constraint" ∉ fields.map (·.1) ∧
        "ancestry_path" ∉ fields.map (·.1) := by
  rw [(ofRaw_enforces asset bound raw).accepts]
  simp only [Rule.order, List.forall_mem_cons, List.not_mem_nil, false_implies, implies_true,
    and_true]
  constructor
  · rintro ⟨told, ⟨fields, detailed⟩, own, path⟩
    exact ⟨told, fields, detailed, (holds_free detailed).1 own, (holds_free detailed).1 path⟩
  · rintro ⟨told, fields, detailed, own, path⟩
    exact ⟨told, ⟨fields, detailed⟩, (holds_free detailed).2 own, (holds_free detailed).2 path⟩

/-- The violation stands for the result: it has its message, and the metadata are its details, the
data of the constraint and the path of the asset, and nothing else. -/
structure StandsFor (asset : Asset) (bound : BoundConstraint) (raw : RawResult)
    (violation : ConstraintViolation) : Prop where
  message : violation.message = raw.message
  constraint : violation.constraint = bound.constraint
  metadata : ∃ fields, Details raw.details fields ∧
    (PolicyValue.mapToJson violation.metadata).Perm (fields ++ [
      ("constraint", .object [
        ("annotations", ObjectMeta.mapJson bound.constraint.metadata.annotations),
        ("labels", ObjectMeta.mapJson bound.constraint.metadata.labels),
        ("parameters", bound.constraint.spec.parameters)]),
      ("ancestry_path", .string asset.ancestry)])
  ascending : raw.details.Ordered → Ascending violation.metadata

theorem provenance_toJson (constraint : Constraint) : (provenance constraint).toJson = .object [
    ("annotations", ObjectMeta.mapJson constraint.metadata.annotations),
    ("labels", ObjectMeta.mapJson constraint.metadata.labels),
    ("parameters", constraint.spec.parameters)] := by
  simp only [provenance, PolicyValue.toJson, PolicyValue.mapToJson, PolicyValue.stringMap_toJson,
    PolicyValue.toJson_ofJson]
  rfl

theorem metadataOf_perm (asset : Asset) (constraint : Constraint)
    (own : "constraint" ∉ fields.map (·.1)) (path : "ancestry_path" ∉ fields.map (·.1)) :
    (PolicyValue.mapToJson (metadataOf asset constraint fields)).Perm (fields ++ [
      ("constraint", (provenance constraint).toJson), ("ancestry_path", .string asset.ancestry)]) := by
  have inner : (PolicyMap.insert constraintKey (provenance constraint)
      (PolicyValue.ofFields fields)).Perm
        ((constraintKey, provenance constraint) :: PolicyValue.ofFields fields) := by
    rw [PolicyMap.insert_eq]
    apply insertEntry_perm
    rwa [PolicyValue.names_ofFields]
  have outer : (metadataOf asset constraint fields).Perm
      ((ancestryKey, .string asset.ancestry) :: (constraintKey, provenance constraint) ::
        PolicyValue.ofFields fields) := by
    rw [metadataOf, PolicyMap.insert_eq]
    refine (insertEntry_perm ?_).trans (inner.cons _)
    rw [(inner.map (·.1)).mem_iff, List.map_cons, PolicyValue.names_ofFields, List.mem_cons, not_or]
    have apart : ancestryKey ≠ constraintKey := by decide
    exact ⟨apart, path⟩
  rw [PolicyValue.mapToJson_eq]
  calc List.Perm _ _ := outer.map _
    List.Perm _ ([("ancestry_path", Json.string asset.ancestry),
        ("constraint", (provenance constraint).toJson)] ++ fields) := by
      rw [List.map_cons, List.map_cons, ← PolicyValue.mapToJson_eq, PolicyValue.mapToJson_ofFields]
      rfl
    List.Perm _ (fields ++ [("ancestry_path", Json.string asset.ancestry),
        ("constraint", (provenance constraint).toJson)]) := List.perm_append_comm
    List.Perm _ _ := (List.Perm.swap _ _ _).append_left fields

theorem metadataOf_ascending (asset : Asset) (constraint : Constraint)
    (ascending : Ascending fields) : Ascending (metadataOf asset constraint fields) := by
  rw [metadataOf, PolicyMap.insert_eq, PolicyMap.insert_eq]
  apply Ascending.insertEntry
  apply Ascending.insertEntry
  rwa [← PolicyValue.ascending_mapToJson, PolicyValue.mapToJson_ofFields]

theorem standsFor_of_ofRaw {asset : Asset} {bound : BoundConstraint}
    {violation : ConstraintViolation} (kept : ofRaw asset bound raw = .ok violation) :
    StandsFor asset bound raw violation := by
  obtain ⟨told, fields, detailed, own, path⟩ := ofRaw_accepts.1 ⟨violation, kept⟩
  rw [ofRaw_eq asset bound told detailed, if_neg own, if_neg path, Except.ok.injEq] at kept
  subst kept
  refine ⟨rfl, rfl, ⟨fields, detailed, ?_⟩, fun ordered => ?_⟩
  · rw [← provenance_toJson]
    exact metadataOf_perm asset bound.constraint own path
  · apply metadataOf_ascending
    generalize raw.details = details at detailed ordered
    cases detailed with
    | null => exact List.Pairwise.nil
    | object => exact ordered.1

end PolicyReview.ConstraintViolation
