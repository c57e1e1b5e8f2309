import PolicyReview.Proofs.Json.Field
import PolicyReview.Proofs.Target.Review
import PolicyReview.Proofs.Text.Split

/-! Requests of the admission target. The target takes a resource that holds a cluster object when what
stands on the way to the ancestry annotation is an object or missing. Its request carries the object
of the resource, which only the annotation sets apart from it. -/

namespace PolicyReview

namespace Json

variable {fields : Fields} {name : String} {value after : Json} {before : Option Json}
  {path : List String}

theorem at?_insertField (fields : Fields) (name : String) (value : Json) (other : String)
    (path : List String) : (object (insertField name value fields)).at? (other :: path) =
      if other = name then value.at? path else (object fields).at? (other :: path) := by
  change ((insertField name value fields).lookup other).bind (·.at? path) = _
  rw [insertField_eq, lookup_insertEntry]
  split <;> rfl

theorem Ordered.insertField (ordered : (object fields).Ordered) (value_ordered : value.Ordered) :
    (object (insertField name value fields)).Ordered := by
  rw [insertField_eq]
  refine ⟨ordered.1.insertEntry name value, orderedFields_iff.2 fun field member => ?_⟩
  rcases mem_insertEntry member with rfl | there
  · exact value_ordered
  · exact orderedFields_iff.1 ordered.2 field there

/-- The value has been put at the end of the path. Nothing apart from the path has changed, and on the
way there are objects, made where nothing was. -/
structure PutAt (path : List String) (value : Json) (before : Option Json) (after : Json) :
    Prop where
  placed : after.at? path = some value
  apart : ∀ other, ¬other <+: path → ¬path <+: other →
    after.at? other = before.bind (·.at? other)
  made : ∀ way, way <+: path → way ≠ path → ∃ fields, after.at? way = some (.object fields)
  found : ∀ way, way <+: path → way ≠ path → ∀ old, before.bind (·.at? way) = some old →
    ∃ fields, old = .object fields

theorem PutAt.here (value : Json) (before : Option Json) : PutAt [] value before value where
  placed := rfl
  apart _ _ beyond := absurd List.nil_prefix beyond
  made _ within short := absurd (List.prefix_nil.1 within) short
  found _ within short := absurd (List.prefix_nil.1 within) short

def opened? (before : Option Json) : Option Fields :=
  match before with
  | some value => value.object?
  | none => some []

theorem at?_opened (opened : opened? before = some fields) (name : String) (path : List String) :
    before.bind (·.at? (name :: path)) = (fields.lookup name).bind (·.at? path) := by
  cases before with
  | none =>
    obtain rfl := Option.some.inj opened
    rfl
  | some value =>
    cases value with
    | object others =>
      obtain rfl := Option.some.inj opened
      rfl
    | _ => cases opened

theorem at?_opened_one (opened : opened? before = some fields) (name : String) :
    before.bind (·.at? [name]) = fields.lookup name := by
  rw [at?_opened opened]
  cases fields.lookup name <;> rfl

theorem exists_opened : (∃ fields, opened? before = some fields) ↔
    ∀ value, before = some value → ∃ fields, value = .object fields := by
  cases before with
  | none => exact iff_of_true ⟨[], rfl⟩ nofun
  | some value => simp [opened?, object?_eq_some]

theorem Ordered.opened (ordered : ∀ value, before = some value → value.Ordered)
    (opened : opened? before = some fields) : (object fields).Ordered := by
  cases before with
  | none =>
    obtain rfl := Option.some.inj opened
    exact ⟨List.Pairwise.nil, trivial⟩
  | some value => exact object?_eq_some.1 opened ▸ ordered value rfl

theorem PutAt.step (opened : opened? before = some fields)
    (inner : PutAt path value (fields.lookup name) after) :
    PutAt (name :: path) value before (object (insertField name after fields)) where
  placed := by
    rw [at?_insertField, if_pos rfl]
    exact inner.placed
  apart other short beyond := by
    cases other with
    | nil => exact absurd List.nil_prefix short
    | cons first rest =>
      rw [at?_insertField, at?_opened opened]
      split
      next same =>
        subst same
        rw [List.cons_prefix_cons] at short beyond
        exact inner.apart rest (fun within => short ⟨rfl, within⟩)
          fun within => beyond ⟨rfl, within⟩
      next => rfl
  made way within short := by
    cases way with
    | nil => exact ⟨_, rfl⟩
    | cons first rest =>
      obtain ⟨rfl, inside⟩ := List.cons_prefix_cons.1 within
      rw [at?_insertField, if_pos rfl]
      exact inner.made rest inside fun same => short (same ▸ rfl)
  found way within short old there := by
    cases way with
    | nil =>
      cases before with
      | none => cases there
      | some value =>
        obtain rfl := Option.some.inj there
        cases value with
        | object others => exact ⟨others, rfl⟩
        | _ => cases opened
    | cons first rest =>
      obtain ⟨rfl, inside⟩ := List.cons_prefix_cons.1 within
      rw [at?_opened opened] at there
      exact inner.found rest inside (fun same => short (same ▸ rfl)) old there

def textAt? (value : Json) (path : List String) : Option String :=
  (value.at? path).bind string?

end Json

namespace Target

variable {asset : Asset} {review : Json}

/-! Versions. -/

/-- A text in two parts: those before and after its last slash, or nothing and the whole text when it
has no slash. -/
inductive Parts : String → String → String → Prop where
  | whole {text : String} (unbroken : '/' ∉ text.toList) : Parts text "" text
  | cut {group version : String} (last : '/' ∉ version.toList) :
    Parts (group ++ "/" ++ version) group version

theorem intercalate_concat {mark piece : List Char} {pieces : List (List Char)}
    (some : pieces ≠ []) : mark.intercalate (pieces ++ [piece]) =
      mark.intercalate pieces ++ mark ++ piece := by
  induction pieces with
  | nil => exact absurd rfl some
  | cons first rest ih =>
    cases rest with
    | nil => rw [List.singleton_append, List.intercalate_cons_cons, List.intercalate_singleton,
        List.intercalate_singleton]
    | cons second others =>
      have later := ih (List.cons_ne_nil second others)
      rw [List.cons_append] at later
      rw [List.cons_append, List.cons_append, List.intercalate_cons_cons, later,
        List.intercalate_cons_cons]
      simp only [List.append_assoc]

theorem parts_groupVersion (text : String) :
    Parts text (groupVersion text).1 (groupVersion text).2 := by
  have joined : ['/'].intercalate (text.toList.splitOn '/') = text.toList :=
    List.intercalate_splitOn '/'
  have unbroken : ∀ piece ∈ text.toList.splitOn '/', '/' ∉ piece :=
    fun _ => Text.notMem_of_mem_splitOn
  unfold groupVersion
  dsimp only
  split
  next version second group reversed =>
    have pieces : text.toList.splitOn '/' = (second :: group).reverse ++ [version] := by
      rw [← List.reverse_cons, ← reversed, List.reverse_reverse]
    rw [pieces, intercalate_concat (by simp)] at joined
    have shown : text = String.ofList (['/'].intercalate (second :: group).reverse) ++ "/" ++
        String.ofList version := by
      apply String.toList_injective
      rw [← joined]
      simp
    rw [shown]
    apply Parts.cut
    rw [String.toList_ofList]
    exact unbroken version (by simp [pieces])
  next single =>
    apply Parts.whole
    obtain ⟨last, group, reversed⟩ : ∃ last group,
        (text.toList.splitOn '/').reverse = last :: group :=
      List.exists_cons_of_ne_nil (by simp)
    cases group with
    | nil =>
      have piece : text.toList.splitOn '/' = [last] := by
        rw [← List.reverse_reverse (text.toList.splitOn '/'), reversed, List.reverse_singleton]
      rw [piece, List.intercalate_singleton] at joined
      rw [← joined]
      exact unbroken last (by simp [piece])
    | cons second group => exact absurd reversed (single last second group)

/-! Requests. -/

structure Unwraps (asset : Asset) (object metadata annotations : Json.Fields)
    (apiVersion kind : String) : Prop where
  resource : asset.payloadKind = .resource
  foreign : isServiceType asset.assetType = false
  data : asset.payload.field? "data" = some (.object object)
  apiVersion : object.lookup "apiVersion" = some (.string apiVersion)
  kind : object.lookup "kind" = some (.string kind)
  described : Json.opened? (object.lookup "metadata") = some metadata
  noted : Json.opened? (metadata.lookup "annotations") = some annotations

def annotated (asset : Asset) (object metadata annotations : Json.Fields) : Json.Fields :=
  Json.insertField "metadata" (.object (Json.insertField "annotations" (.object
    (Json.insertField ancestryAnnotation (.string asset.ancestry) annotations)) metadata)) object

theorem subobject?_eq (name : String) (fields : Json.Fields) :
    subobject? name fields = Json.opened? (fields.lookup name) := by
  unfold subobject?
  cases fields.lookup name <;> rfl

theorem review?_admission : admission.review? asset = some review ↔
    ∃ object metadata annotations apiVersion kind,
      Unwraps asset object metadata annotations apiVersion kind ∧
      review = .object [
        ("kind", .object [
          ("group", .string (groupVersion apiVersion).1), ("kind", .string kind),
          ("version", .string (groupVersion apiVersion).2)]),
        ("name", .string (((metadata.lookup "name").bind Json.string?).getD asset.name)),
        ("namespace", .string (((metadata.lookup "namespace").bind Json.string?).getD "")),
        ("object", .object (annotated asset object metadata annotations)),
        ("operation", .string "CREATE")] := by
  rw [review?, admissionReview?]
  simp only [Option.bind_eq_bind, Option.bind_eq_some_iff, Option.guard_eq_some', subobject?_eq,
    Json.object?_eq_some, Json.string?_eq_some]
  constructor
  · rintro ⟨⟨⟩, ⟨resource, foreign⟩, object, ⟨_, data, rfl⟩, apiVersion, ⟨_, version, rfl⟩, kind,
      ⟨_, named, rfl⟩, metadata, described, annotations, noted, written⟩
    exact ⟨object, metadata, annotations, apiVersion, kind,
      ⟨resource, foreign, data, version, named, described, noted⟩, (Option.some.inj written).symm⟩
  · rintro ⟨object, metadata, annotations, apiVersion, kind,
      ⟨resource, foreign, data, version, named, described, noted⟩, rfl⟩
    exact ⟨(), ⟨resource, foreign⟩, object, ⟨_, data, rfl⟩, apiVersion, ⟨_, version, rfl⟩, kind,
      ⟨_, named, rfl⟩, metadata, described, annotations, noted, rfl⟩

/-- The admission target takes an asset exactly when its payload is a resource, its type names no API
service and its data is an object with a version and a kind, and what stands on the way to the
annotations of that object, as far as it is there, is an object. -/
theorem admission_takes_iff : (admission.review? asset).isSome = true ↔
    asset.payloadKind = .resource ∧ isServiceType asset.assetType = false ∧
    ∃ data, asset.payload.field? "data" = some data ∧
      (∃ fields, data = .object fields) ∧
      (∃ apiVersion, data.field? "apiVersion" = some (.string apiVersion)) ∧
      (∃ kind, data.field? "kind" = some (.string kind)) ∧
      ∀ way ∈ [["metadata"], ["metadata", "annotations"]], ∀ value, data.at? way = some value →
        ∃ fields, value = .object fields := by
  simp only [List.forall_mem_cons, List.not_mem_nil, false_implies, implies_true, and_true]
  rw [Option.isSome_iff_exists]
  simp only [review?_admission]
  constructor
  · rintro ⟨_, object, metadata, annotations, apiVersion, kind, unwraps, rfl⟩
    have whole : Json.opened? (some (.object object)) = some object := rfl
    refine ⟨unwraps.resource, unwraps.foreign, _, unwraps.data, ⟨object, rfl⟩,
      ⟨apiVersion, unwraps.apiVersion⟩, ⟨kind, unwraps.kind⟩, fun value there => ?_,
      fun value there => ?_⟩
    · apply Json.exists_opened.1 ⟨metadata, unwraps.described⟩ value
      exact (Json.at?_opened_one whole _).symm.trans there
    · apply Json.exists_opened.1 ⟨annotations, unwraps.noted⟩ value
      exact (Json.at?_opened_one unwraps.described _).symm.trans there
  · rintro ⟨resource, foreign, _, data, ⟨object, rfl⟩, ⟨apiVersion, version⟩, ⟨kind, named⟩,
      described, noted⟩
    have whole : Json.opened? (some (.object object)) = some object := rfl
    obtain ⟨metadata, described⟩ := Json.exists_opened.2 fun value there =>
      described value ((Json.at?_opened_one whole _).trans there)
    obtain ⟨annotations, noted⟩ := Json.exists_opened.2 fun value there =>
      noted value ((Json.at?_opened_one described _).trans there)
    exact ⟨_, object, metadata, annotations, apiVersion, kind,
      ⟨resource, foreign, data, version, named, described, noted⟩, rfl⟩

def deployment (metadata : Json) : Json := .object [
  ("ancestry_path", .string "organizations/1"),
  ("asset_type", .string "apps/Deployment"),
  ("name", .string "//k8s/x"),
  ("resource", .object [("data", .object [
    ("apiVersion", .string "apps/v1"), ("kind", .string "Deployment"),
    ("metadata", metadata)])])]

/-- The deployment is a cluster object of no API service, and the target does not take it. -/
def LeftOut (metadata : Json) : Prop :=
  ∃ asset data, Asset.ofJson (deployment metadata) = .ok asset ∧
    asset.payloadKind = .resource ∧ isServiceType asset.assetType = false ∧
    asset.payload.field? "data" = some (.object data) ∧
    data.lookup "apiVersion" = some (.string "apps/v1") ∧
    data.lookup "kind" = some (.string "Deployment") ∧
    admission.review? asset = none

/-- Metadata or annotations that are null keep the target from a cluster object. -/
theorem admission_refuses_null :
    LeftOut .null ∧ LeftOut (.object [("annotations", .null), ("name", .string "web")]) := by
  constructor
  · exact ⟨_, _, rfl, rfl, rfl, rfl, rfl, rfl, rfl⟩
  · exact ⟨_, _, rfl, rfl, rfl, rfl, rfl, rfl, rfl⟩

theorem annotated_putAt {object metadata annotations : Json.Fields} {apiVersion kind : String}
    (unwraps : Unwraps asset object metadata annotations apiVersion kind) :
    Json.PutAt ["metadata", "annotations", ancestryAnnotation] (.string asset.ancestry)
      (some (.object object)) (.object (annotated asset object metadata annotations)) := by
  have whole : Json.opened? (some (.object object)) = some object := rfl
  apply Json.PutAt.step whole
  apply Json.PutAt.step unwraps.described
  apply Json.PutAt.step unwraps.noted
  exact .here _ _

theorem annotated_ordered {object metadata annotations : Json.Fields} {apiVersion kind : String}
    (unwraps : Unwraps asset object metadata annotations apiVersion kind)
    (ordered : asset.payload.Ordered) :
    (Json.object (annotated asset object metadata annotations)).Ordered := by
  have held : (Json.object object).Ordered := by
    cases payload : asset.payload with
    | object fields =>
      rw [payload] at ordered
      have data := unwraps.data
      rw [payload] at data
      exact ordered.of_lookup data
    | _ =>
      have data := unwraps.data
      rw [payload] at data
      cases data
  have described : (Json.object metadata).Ordered :=
    Json.Ordered.opened (fun _ there => held.of_lookup there) unwraps.described
  have noted : (Json.object annotations).Ordered :=
    Json.Ordered.opened (fun _ there => described.of_lookup there) unwraps.noted
  exact held.insertField (described.insertField (noted.insertField trivial))

/-- The request has the kind, the name and the namespace of the object that the resource holds, and
the object itself with the path of the asset put among its annotations, whatever was there. -/
theorem admission_request (taken : admission.review? asset = some review) :
    ∃ data apiVersion kind group version object,
      asset.payload.field? "data" = some data ∧
      data.field? "apiVersion" = some (.string apiVersion) ∧
      data.field? "kind" = some (.string kind) ∧
      Parts apiVersion group version ∧
      Json.PutAt ["metadata", "annotations", ancestryAnnotation] (.string asset.ancestry)
        (some data) object ∧
      review = .object [
        ("kind", .object [
          ("group", .string group), ("kind", .string kind), ("version", .string version)]),
        ("name", .string ((data.textAt? ["metadata", "name"]).getD asset.name)),
        ("namespace", .string ((data.textAt? ["metadata", "namespace"]).getD "")),
        ("object", object),
        ("operation", .string "CREATE")] ∧
      (asset.payload.Ordered → object.Ordered) ∧
      ∀ value, Asset.ofJson value = .ok asset →
        Ancestry.canonicalize asset.ancestry = asset.ancestry := by
  obtain ⟨object, metadata, annotations, apiVersion, kind, unwraps, rfl⟩ := review?_admission.1 taken
  have field : ∀ name, (Json.object object).textAt? ["metadata", name] =
      (metadata.lookup name).bind Json.string? := by
    intro name
    rw [← Json.at?_opened_one unwraps.described]
    rfl
  refine ⟨.object object, apiVersion, kind, (groupVersion apiVersion).1,
    (groupVersion apiVersion).2, .object (annotated asset object metadata annotations),
    unwraps.data, unwraps.apiVersion, unwraps.kind, parts_groupVersion apiVersion,
    annotated_putAt unwraps, ?_, annotated_ordered unwraps, fun value read => ?_⟩
  · rw [field, field]
  · exact (Asset.canonical_of_deriveAncestry (Asset.ofJson_eq_ok.1 read).ancestry).1

def misplaced : Json := deployment (.object [
  ("annotations", .object [
    ("fleet-gate.io/ancestry-path", .string "organizations/2"), ("team", .string "web")]),
  ("namespace", .string "prod")])

theorem admission_request_misplaced : ∃ asset review object,
    Asset.ofJson misplaced = .ok asset ∧ admission.review? asset = some review ∧
    review.field? "object" = some object ∧
    misplaced.at? ["resource", "data", "metadata", "annotations", ancestryAnnotation] =
      some (.string "organizations/2") ∧
    object.at? ["metadata", "annotations", ancestryAnnotation] =
      some (.string "organizations/1") ∧
    object.at? ["metadata", "annotations", "team"] = some (.string "web") := by
  obtain ⟨asset, read, taken⟩ : ∃ asset, Asset.ofJson misplaced = .ok asset ∧
      (admission.review? asset).isSome = true := ⟨_, rfl, rfl⟩
  obtain ⟨review, taken⟩ := Option.isSome_iff_exists.1 taken
  obtain ⟨data, _, _, _, _, object, held, _, _, _, put, rfl, _, _⟩ := admission_request taken
  obtain rfl := Except.ok.inj read
  obtain rfl := Option.some.inj held
  refine ⟨_, _, object, read, taken, rfl, rfl, put.placed, ?_⟩
  rw [put.apart _ (by decide) (by decide)]
  rfl

end Target

end PolicyReview
