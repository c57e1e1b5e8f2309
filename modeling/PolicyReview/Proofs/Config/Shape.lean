import PolicyReview.Config.Schema
import PolicyReview.Proofs.Document.Shape
import PolicyReview.Proofs.Pattern.Spelling

/-! Shapes of configurations. The schema of configurations describes one: which settings there may be
in each section, which have to be, and the bounds of what they hold. -/

namespace PolicyReview

namespace Pattern

def webStart : Pattern :=
  spelled (.seq (spelled (.seq .empty .atStart) ['h', 't', 't', 'p'])
    (.times (literal 's') 0 (some 1))) [':', '/', '/']

theorem read?_webStart : read? "^https?://" = some webStart := by cbv

/-- The place behind the shorter scheme, which a text only has at its start. -/
def scheme? (place : Place) : Option Place :=
  if place.before.isNone then place.passText? ['h', 't', 't', 'p'] else none

theorem ends_scheme (place : Place) :
    (spelled (.seq .empty .atStart) ['h', 't', 't', 'p']).ends place = (scheme? place).toList := by
  obtain ⟨before, rest⟩ := place
  cases before with
  | none =>
    have start : (Pattern.seq .empty .atStart).ends ⟨none, rest⟩ = [⟨none, rest⟩] := rfl
    rw [ends_spelled (by rw [start]; exact List.pairwise_singleton _ _), start, List.filterMap_cons]
    cases passed : Place.passText? ['h', 't', 't', 'p'] ⟨none, rest⟩ <;> simp [scheme?, passed]
  | some before =>
    have never : (Pattern.seq .empty .atStart).ends ⟨some before, rest⟩ = [] := rfl
    rw [ends_spelled (by rw [never]; exact List.Pairwise.nil), never]
    rfl

theorem ends_webStart (place : Place) : webStart.ends place ≠ [] ↔
    ∃ here ∈ (scheme? place).toList.flatMap fun here => here :: (here.pass? 's').toList,
      [':', '/', '/'] <+: here.rest := by
  obtain ⟨optional, apart⟩ := ends_seq_optional (c := 's') (ends_scheme place)
  rw [webStart, ends_spelled_ne_nil (by rw [optional]; exact apart), optional]

theorem webStart_isIn (text : String) : webStart.isIn text = true ↔
    "https://".toList <+: text.toList ∨ "http://".toList <+: text.toList := by
  rw [isIn_of_anchored, ends_webStart]
  · change _ ↔ ['h', 't', 't', 'p'] ++ ['s', ':', '/', '/'] <+: _ ∨
        ['h', 't', 't', 'p'] ++ [':', '/', '/'] <+: _
    cases passed : scheme? ⟨none, text.toList⟩ with
    | none =>
      have scheme : (Place.passText? ['h', 't', 't', 'p'] ⟨none, text.toList⟩).isSome = true ↔
          ['h', 't', 't', 'p'] <+: text.toList := Place.passText?_isSome
      have other : ¬ ['h', 't', 't', 'p'] <+: text.toList := fun start =>
        Option.not_isSome_iff_eq_none.2 passed (scheme.2 start)
      simp only [Option.toList_none, List.flatMap_nil, List.not_mem_nil, false_and, exists_false,
        false_iff, not_or]
      exact ⟨fun whole => other ((List.prefix_append _ _).trans whole),
        fun whole => other ((List.prefix_append _ _).trans whole)⟩
    | some here =>
      have rest : text.toList = ['h', 't', 't', 'p'] ++ here.rest := Place.rest_passText? passed
      have secure : (Place.passText? ['s', ':', '/', '/'] here).isSome = true ↔
          ['s', ':', '/', '/'] <+: here.rest := Place.passText?_isSome
      rw [rest, List.prefix_append_right_inj, List.prefix_append_right_inj, ← secure,
        Place.passText?]
      cases next : here.pass? 's' with
      | none => simp [next]
      | some later => simp [next, Place.passText?_isSome, or_comm]
  · intro before rest
    by_contra some
    obtain ⟨here, inside, -⟩ := (ends_webStart _).1 some
    simp [scheme?] at inside

end Pattern

namespace Config

open PolicyReview.Document (IsName)

def IsNullOr (holds : Json → Prop) (value : Json) : Prop := value = .null ∨ holds value

def IsFlag (value : Json) : Prop := ∃ set, value = .bool set

/-- A whole number within the bounds, in whichever way it is written. -/
def IsWorkerCount (value : Json) : Prop :=
  ∃ number : Number, value = .number number ∧ number.isWhole = true ∧
    number.order (.int 1) ≠ .lt ∧ number.order (.int maxWorkerCount) ≠ .gt

def IsLocation (value : Json) : Prop :=
  ∃ text, value = .string text ∧ text ≠ "" ∧ text.length ≤ maxPathLength

def AreLocations (value : Json) : Prop :=
  ∃ items, value = .array items ∧ items ≠ [] ∧ items.length ≤ maxPaths ∧
    ∀ item ∈ items, IsLocation item

/-- Whether a text starts as a web address does. -/
def StartsAsWeb (text : String) : Prop :=
  "https://".toList <+: text.toList ∨ "http://".toList <+: text.toList

def IsEndpoint (value : Json) : Prop := ∃ text, value = .string text ∧ StartsAsWeb text

def IsEngine : Json → Prop := Json.IsRecord [("worker_count", IsNullOr IsWorkerCount)] []

def IsPolicy : Json → Prop :=
  Json.IsRecord [("library_path", IsNullOr IsLocation), ("paths", AreLocations)] ["paths"]

def IsObjectStore : Json → Prop :=
  Json.IsRecord [("allow_http", IsFlag), ("endpoint", IsNullOr IsEndpoint),
    ("force_path_style", IsFlag), ("region", IsNullOr IsName)] []

def Shape : Json → Prop :=
  Json.IsRecord [("engine", IsEngine), ("object_store", IsNullOr IsObjectStore),
    ("policy", IsPolicy)] ["policy"]

namespace Schema

open PolicyReview.Schema
open PolicyReview.Document.Schema (ofType nonEmptyText describes_closed describes_name)

variable {depth : Nat} {holds : Json → Prop} {schema : Json}

theorem describes_null : Describes (ofType "null") 1 (· = .null) :=
  .ofKeywords (by simp) fun _ _ _ _ => by
    rw [List.forall_mem_singleton, validate_type, hasType_null]

/-- A schema that does not describe the absent value describes what may be absent. -/
theorem validate_orNull {draft root fuel fields value}
    (described : Describes schema depth holds) (given : ¬ holds .null)
    (some : 1 ≤ depth) (enough : depth ≤ fuel) :
    validateKeyword draft (violations .twentyTwenty root fuel) fields "oneOf" (orNull schema)
      value = [] ↔ IsNullOr holds value := by
  rw [orNull, validate_oneOf, describes_null root fuel value (Nat.le_trans some enough),
    described root fuel value enough, IsNullOr]
  rw [Ne, describes_null root fuel value (Nat.le_trans some enough),
    described root fuel value enough]
  rintro rfl
  exact given

theorem describes_optional (described : Describes schema depth holds) (given : ¬ holds .null)
    (some : 1 ≤ depth) : Describes (optional schema) (depth + 1) (IsNullOr holds) := by
  refine .ofKeywords (by simp) fun root fuel value enough => ?_
  rw [List.forall_mem_cons, List.forall_mem_singleton,
    validate_orNull described given some enough]
  exact and_iff_right (validate_annotating (by simp))

theorem describes_flag : Describes flag 1 IsFlag :=
  .ofKeywords (by simp) fun _ _ _ _ => by
    rw [List.forall_mem_cons, List.forall_mem_singleton, validate_type, hasType_boolean]
    exact and_iff_right (validate_annotating (by simp))

theorem describes_workerCount : Describes (.object [
      ("maximum", Json.nat maxWorkerCount), ("minimum", Json.int 1), ("type", .string "integer")])
    1 IsWorkerCount := by
  refine .ofKeywords (by simp) fun root fuel value _ => ?_
  rw [List.forall_mem_cons, List.forall_mem_cons, List.forall_mem_singleton, validate_type,
    hasType_integer]
  constructor
  · rintro ⟨most, least, number, rfl, whole⟩
    exact ⟨number, rfl, whole, validate_minimum.1 least, validate_maximum.1 most⟩
  · rintro ⟨number, rfl, whole, least, most⟩
    exact ⟨validate_maximum.2 most, validate_minimum.2 least, number, rfl, whole⟩

theorem describes_location (description : String) :
    Describes (location description) 1 IsLocation := by
  refine .ofKeywords (by simp) fun root fuel value _ => ?_
  rw [List.forall_mem_cons, List.forall_mem_cons, List.forall_mem_cons, List.forall_mem_singleton,
    validate_type, hasType_string, and_iff_right (validate_annotating (by simp))]
  constructor
  · rintro ⟨short, long, text, rfl⟩
    exact ⟨text, rfl, validate_minLength.1 long, validate_maxLength.1 short⟩
  · rintro ⟨text, rfl, long, short⟩
    exact ⟨validate_maxLength.2 short, validate_minLength.2 long, text, rfl⟩

theorem describes_locations (description : String) : Describes (.object [
      ("items", location description), ("maxItems", Json.nat maxPaths), ("minItems", Json.int 1),
      ("type", .string "array")]) 2 AreLocations := by
  refine .ofKeywords (by simp) fun root fuel value enough => ?_
  rw [List.forall_mem_cons, List.forall_mem_cons, List.forall_mem_cons, List.forall_mem_singleton,
    validate_type, hasType_array]
  have each := fun value => describes_location description root fuel value enough
  constructor
  · rintro ⟨locations, few, some, items, rfl⟩
    exact ⟨items, rfl, validate_minItems.1 some, validate_maxItems.1 few, fun item inside =>
      (each item).1 (validate_items.1 locations item inside)⟩
  · rintro ⟨items, rfl, some, few, locations⟩
    exact ⟨validate_items.2 fun item inside => (each item).2 (locations item inside),
      validate_maxItems.2 few, validate_minItems.2 some, items, rfl⟩

theorem describes_endpoint : Describes (.object [
      ("pattern", .string "^https?://"), ("type", .string "string")]) 1 IsEndpoint := by
  refine .ofKeywords (by simp) fun root fuel value _ => ?_
  rw [List.forall_mem_cons, List.forall_mem_singleton, validate_type, hasType_string]
  constructor
  · rintro ⟨web, text, rfl⟩
    exact ⟨text, rfl, (Pattern.webStart_isIn text).1
      ((validate_pattern Pattern.read?_webStart).1 web)⟩
  · rintro ⟨text, rfl, web⟩
    exact ⟨(validate_pattern Pattern.read?_webStart).2 ((Pattern.webStart_isIn text).2 web),
      text, rfl⟩

theorem describes_engine : Describes engine 3 IsEngine := by
  refine describes_closed (.cons ⟨rfl, .ofKeywords (by simp) fun root fuel value enough => ?_⟩ .nil) _
  rw [List.forall_mem_cons, List.forall_mem_cons, List.forall_mem_singleton,
    and_iff_right (validate_annotating (by simp)), and_iff_right (validate_annotating (by simp)),
    validate_orNull describes_workerCount (by rintro ⟨_, ⟨⟩, _⟩) (Nat.le_refl 1) enough]

theorem describes_policy : Describes policy 3 IsPolicy :=
  describes_closed (.cons ⟨rfl, describes_optional (describes_location _) (by rintro ⟨_, ⟨⟩, _⟩)
    (Nat.le_refl 1)⟩ <| .cons ⟨rfl, describes_locations _⟩ .nil) _

theorem describes_objectStore : Describes objectStore 3 IsObjectStore :=
  describes_closed (.cons ⟨rfl, describes_flag.mono (by decide)⟩ <|
    .cons ⟨rfl, describes_optional describes_endpoint (by rintro ⟨_, ⟨⟩, _⟩) (Nat.le_refl 1)⟩ <|
    .cons ⟨rfl, describes_flag.mono (by decide)⟩ <|
    .cons ⟨rfl, describes_optional describes_name (by rintro ⟨_, _, ⟨⟩⟩) (Nat.le_refl 1)⟩ .nil) _

theorem describes_config : Describes config 5 Shape := by
  have described : DescribesAll
      [("engine", engine), ("object_store", optional objectStore), ("policy", policy)] 4
      [("engine", IsEngine), ("object_store", IsNullOr IsObjectStore), ("policy", IsPolicy)] :=
    .cons ⟨rfl, describes_engine.mono (by decide)⟩ <|
    .cons ⟨rfl, describes_optional describes_objectStore (by rintro ⟨_, ⟨⟩, _⟩) (by decide)⟩ <|
    .cons ⟨rfl, describes_policy.mono (by decide)⟩ .nil
  refine described.isRecord (by simp) (by rfl) (by rfl) fun validate value => ?_
  simp [validate_annotating]

/-- The valid documents are those of the shape. -/
theorem isValid_config (document : Json) : isValid .twentyTwenty config document = true ↔
    Shape document := by
  have plenty : 5 ≤ enough config document :=
    Nat.le_trans (by decide : 5 ≤ config.size + 1) (Nat.le_mul_of_pos_right _ (Nat.succ_pos _))
  rw [isValid, List.isEmpty_iff]
  exact describes_config _ _ _ plenty

end Schema

end Config

end PolicyReview
