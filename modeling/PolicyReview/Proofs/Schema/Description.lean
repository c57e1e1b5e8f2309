import PolicyReview.Schema
import PolicyReview.Proofs.Ascending
import Mathlib.Data.List.Forall2

/-! What a schema says of a value. A value is valid when every keyword of the schema passes it;
a schema that is put together from others describes what the others describe of the parts. -/

namespace PolicyReview

/-- The name of a member, and what has to hold of its value. -/
abbrev Rule := String × (Json → Prop)

/-- Members none of which is beside those that rules name; the required ones are there. -/
structure Record.Closed (rules : List Rule) (required : List String) (members : Json.Fields) :
    Prop where
  named : ∀ member ∈ members, member.1 ∈ rules.map (·.1)
  present : ∀ name ∈ required, ∃ value, members.lookup name = some value
  valid : ∀ rule ∈ rules, ∀ value, members.lookup rule.1 = some value → rule.2 value

def Json.IsRecord (rules : List Rule) (required : List String) (value : Json) : Prop :=
  ∃ members, value = .object members ∧ Record.Closed rules required members

theorem Json.isRecord_iff_closed {rules : List Rule} {required : List String}
    {members : Json.Fields} : IsRecord rules required (.object members) ↔
      Record.Closed rules required members := by
  constructor
  · intro shape
    obtain ⟨_, same, closed⟩ := shape
    obtain rfl := Json.object.inj same
    exact closed
  · intro closed
    exact ⟨members, rfl, closed⟩

namespace Schema

variable {draft : Draft} {root : Json} {fuel : Nat} {fields members : Json.Fields} {value : Json}

theorem check_eq_nil {holds : Bool} {fault : Fault} : check holds fault = [] ↔ holds = true := by
  cases holds <;> simp [check, here]

theorem mem_effective (plain : ∀ field ∈ fields, field.1 ≠ "$ref") {field : String × Json} :
    field ∈ effective draft fields ↔ field ∈ fields := by
  have unreferenced : fields.lookup "$ref" = none :=
    List.lookup_eq_none_iff.2 fun field member => bne_iff_ne.2 (plain field member).symm
  have all : effective draft fields = ordered fields := by
    cases draft <;> simp [effective, unreferenced]
  rw [all, ordered, List.mem_append, List.mem_filter, List.mem_filter, ← and_or_left]
  simp [ne_or_eq]

/-- A value is valid under a schema without references when every keyword passes it. -/
theorem violations_eq_nil (plain : ∀ field ∈ fields, field.1 ≠ "$ref") :
    violations draft root (fuel + 1) (.object fields) value = [] ↔
      ∀ field ∈ fields, validateKeyword draft (violations draft root fuel) fields
        field.1 field.2 value = [] := by
  simp only [violations, List.flatMap_eq_nil_iff, mem_effective plain]
  refine forall₂_congr fun field member => ?_
  split
  next reference => exact absurd reference (plain field member)
  · rfl

/-! Keywords. -/

section Keywords

variable {validate : Validator} {argument : Json}

theorem nat?_nat (n : Nat) : nat? (Json.nat n) = some n := by
  simp [nat?, Json.nat, Json.int, Number.ratio]

theorem validate_type {name : String} :
    validateKeyword draft validate fields "type" (.string name) value = [] ↔
      hasType draft name value = true := by
  change check ([name].any (hasType draft · value)) _ = [] ↔ _
  simp [check_eq_nil]

theorem hasType_string : hasType draft "string" value = true ↔ ∃ text, value = .string text := by
  cases value <;> simp [hasType]

theorem hasType_array : hasType draft "array" value = true ↔ ∃ items, value = .array items := by
  cases value <;> simp [hasType]

theorem hasType_object :
    hasType draft "object" value = true ↔ ∃ fields, value = .object fields := by
  cases value <;> simp [hasType]

theorem alike_string {text : String} :
    (Json.string text).alike value = true ↔ value = .string text := by
  cases value with
  | string other => simpa [Json.alike] using eq_comm
  | _ => simp [Json.alike]

theorem validate_const {text : String} :
    validateKeyword .twentyTwenty validate fields "const" (.string text) value = [] ↔
      value = .string text :=
  check_eq_nil.trans alike_string

theorem validate_enum {texts : List String} :
    validateKeyword draft validate fields "enum" (Json.strings texts) value = [] ↔
      ∃ text ∈ texts, value = .string text := by
  refine check_eq_nil.trans ?_
  simp [Json.strings, Json.array?, alike_string]

theorem hasType_null : hasType draft "null" value = true ↔ value = .null := by
  cases value <;> simp [hasType]

theorem hasType_boolean : hasType draft "boolean" value = true ↔ ∃ holds, value = .bool holds := by
  cases value <;> simp [hasType]

theorem hasType_integer : hasType .twentyTwenty "integer" value = true ↔
    ∃ number : Number, value = .number number ∧ number.isWhole = true := by
  cases value <;> simp [hasType]

theorem validate_minimum {limit number : Number} :
    validateKeyword .twentyTwenty validate fields "minimum" (.number limit) (.number number) = [] ↔
      number.order limit ≠ .lt := by
  change check (number.order limit != .lt) _ = [] ↔ _
  rw [check_eq_nil, bne_iff_ne]

theorem validate_maximum {limit number : Number} :
    validateKeyword .twentyTwenty validate fields "maximum" (.number limit) (.number number) = [] ↔
      number.order limit ≠ .gt := by
  change check (number.order limit != .gt) _ = [] ↔ _
  rw [check_eq_nil, bne_iff_ne]

theorem validate_minLength {text : String} :
    validateKeyword draft validate fields "minLength" (Json.int 1) (.string text) = [] ↔
      text ≠ "" := by
  change check (decide (1 ≤ text.length)) _ = [] ↔ _
  rw [check_eq_nil, decide_eq_true_eq, Nat.one_le_iff_ne_zero, Ne, String.length_eq_zero_iff]

theorem validate_maxLength {limit : Nat} {text : String} :
    validateKeyword draft validate fields "maxLength" (Json.nat limit) (.string text) = [] ↔
      text.length ≤ limit := by
  unfold validateKeyword
  rw [nat?_nat]
  exact check_eq_nil.trans decide_eq_true_iff

theorem validate_pattern {source text : String} {pattern : Pattern}
    (read : Pattern.read? source = some pattern) :
    validateKeyword draft validate fields "pattern" (.string source) (.string text) = [] ↔
      pattern.isIn text = true := by
  unfold validateKeyword
  rw [show (Json.string source).string? = some source from rfl, Option.bind_some, read]
  exact check_eq_nil

theorem validate_minItems {items : List Json} :
    validateKeyword draft validate fields "minItems" (Json.int 1) (.array items) = [] ↔
      items ≠ [] := by
  change check (decide (1 ≤ items.length)) _ = [] ↔ _
  rw [check_eq_nil, decide_eq_true_eq, Nat.one_le_iff_ne_zero, Ne, List.length_eq_zero_iff]

theorem validate_maxItems {limit : Nat} {items : List Json} :
    validateKeyword draft validate fields "maxItems" (Json.nat limit) (.array items) = [] ↔
      items.length ≤ limit := by
  unfold validateKeyword
  rw [nat?_nat]
  exact check_eq_nil.trans decide_eq_true_iff

theorem validate_minProperties :
    validateKeyword draft validate fields "minProperties" (Json.int 1) (.object members) = [] ↔
      members ≠ [] := by
  change check (decide (1 ≤ members.length)) _ = [] ↔ _
  rw [check_eq_nil, decide_eq_true_eq, Nat.one_le_iff_ne_zero, Ne, List.length_eq_zero_iff]

theorem validate_items {schema : Json.Fields} {items : List Json} :
    validateKeyword draft validate fields "items" (.object schema) (.array items) = [] ↔
      ∀ item ∈ items, validate (.object schema) item = [] := by
  change validateItems validate (.object schema) 0 items = [] ↔ _
  simp only [validateItems, List.flatMap_eq_nil_iff, List.map_eq_nil_iff]
  constructor
  · intro valid item member
    obtain ⟨index, place⟩ := List.mem_iff_getElem?.1 member
    exact valid (item, index) (List.mem_zipIdx_iff_getElem?.2 place)
  · rintro valid ⟨item, index⟩ member
    exact valid item (List.fst_mem_of_mem_zipIdx member)

theorem validate_properties {properties : Json.Fields} :
    validateKeyword draft validate fields "properties" (.object properties) (.object members) = [] ↔
      ∀ property ∈ properties, ∀ value, members.lookup property.1 = some value →
        validate property.2 value = [] := by
  change (properties.flatMap _) = [] ↔ _
  rw [List.flatMap_eq_nil_iff]
  refine forall₂_congr fun (name, schema) _ => ?_
  cases found : members.lookup name <;> simp [found]

theorem validate_required {names : List String} :
    validateKeyword draft validate fields "required" (Json.strings names) (.object members) = [] ↔
      ∀ name ∈ names, ∃ value, members.lookup name = some value := by
  change List.flatMap _ ((names.map Json.string).filterMap Json.string?) = [] ↔ _
  rw [List.filterMap_map, show Json.string? ∘ Json.string = some from rfl, List.filterMap_some,
    List.flatMap_eq_nil_iff]
  simp only [check_eq_nil, Option.isSome_iff_exists]

theorem validate_required_nil :
    validateKeyword draft validate fields "required" (Json.strings []) value = [] := by
  cases value <;> rfl

theorem validate_closed {properties : Json.Fields}
    (named : fields.lookup "properties" = some (.object properties))
    (unpatterned : fields.lookup "patternProperties" = none) :
    validateKeyword draft validate fields "additionalProperties" (.bool false) (.object members) =
      [] ↔ ∀ member ∈ members, member.1 ∈ properties.map (·.1) := by
  have others : uncovered fields members =
      members.filter fun member => (properties.lookup member.1).isNone := by
    simp [uncovered, named, unpatterned, Json.object?]
  have covered : (∀ member ∈ members, member.1 ∈ properties.map (·.1)) ↔
      uncovered fields members = [] := by
    rw [others, List.filter_eq_nil_iff]
    refine forall₂_congr fun member _ => ?_
    rw [Option.isNone_iff_eq_none, lookup_eq_none, not_not]
  rw [covered]
  change validateAdditional validate fields (.bool false) members = [] ↔ _
  simp only [validateAdditional, named]
  cases uncovered fields members <;> simp [here]

/-- A schema for all members, where no other keyword covers any. -/
theorem validate_members {schema : Json.Fields} (unnamed : fields.lookup "properties" = none)
    (unpatterned : fields.lookup "patternProperties" = none) :
    validateKeyword draft validate fields "additionalProperties" (.object schema)
      (.object members) = [] ↔ ∀ member ∈ members, validate (.object schema) member.2 = [] := by
  have others : uncovered fields members = members := by
    simp [uncovered, unnamed, unpatterned]
  change validateAdditional validate fields (.object schema) members = [] ↔ _
  simp [validateAdditional, others]

theorem validate_annotating {keyword : String}
    (annotates : keyword ∈ ["$id", "$schema", "default", "description", "title"]) :
    validateKeyword draft validate fields keyword argument value = [] := by
  simp only [List.mem_cons, List.not_mem_nil, or_false] at annotates
  rcases annotates with rfl | rfl | rfl | rfl | rfl <;> rfl

theorem validate_not :
    validateKeyword draft validate fields "not" argument value = [] ↔
      validate argument value ≠ [] := by
  refine check_eq_nil.trans ?_
  simp [accepts]

theorem validateKeyword_oneOf : validateKeyword draft validate fields "oneOf" argument value =
    match (argument.array?.getD []).filter (accepts validate · value) with
    | [] => here (.noChoice value)
    | [_] => []
    | _ => here (.severalChoices value) := rfl

theorem validate_oneOf {first second : Json}
    (apart : validate first value = [] → validate second value ≠ []) :
    validateKeyword draft validate fields "oneOf" (.array [first, second]) value = [] ↔
      validate first value = [] ∨ validate second value = [] := by
  rw [validateKeyword_oneOf]
  by_cases here₁ : validate first value = []
  · simp [accepts, Json.array?, here₁, apart here₁]
  · by_cases here₂ : validate second value = []
    · simp [accepts, Json.array?, here₁, here₂]
    · simp [accepts, Json.array?, here₁, here₂, here]

end Keywords

/-! Schemas of the newer draft. -/

/-- With `depth` fuel or more, the values that a schema passes are those that `holds` holds of. -/
def Describes (schema : Json) (depth : Nat) (holds : Json → Prop) : Prop :=
  ∀ root fuel value, depth ≤ fuel →
    (violations .twentyTwenty root fuel schema value = [] ↔ holds value)

namespace Describes

variable {schema : Json} {depth : Nat} {holds : Json → Prop}

theorem mono {deeper : Nat} (described : Describes schema depth holds) (more : depth ≤ deeper) :
    Describes schema deeper holds :=
  fun root fuel value enough => described root fuel value (Nat.le_trans more enough)

theorem ofKeywords (plain : ∀ field ∈ fields, field.1 ≠ "$ref")
    (keywords : ∀ root fuel value, depth ≤ fuel →
      ((∀ field ∈ fields, validateKeyword .twentyTwenty (violations .twentyTwenty root fuel) fields
        field.1 field.2 value = []) ↔ holds value)) :
    Describes (.object fields) (depth + 1) holds := by
  intro root fuel value enough
  obtain ⟨less, rfl⟩ := Nat.exists_eq_add_of_le' enough
  rw [← Nat.add_assoc, violations_eq_nil plain]
  exact keywords root (less + depth) value (Nat.le_add_left depth less)

end Describes

/-- Properties by name are described by rules of the same names. -/
def DescribesAll (properties : Json.Fields) (depth : Nat) (rules : List Rule) : Prop :=
  List.Forall₂ (fun property rule => property.1 = rule.1 ∧ Describes property.2 depth rule.2)
    properties rules

namespace DescribesAll

variable {properties : Json.Fields} {depth : Nat} {rules : List Rule} {required : List String}

theorem names (described : DescribesAll properties depth rules) :
    properties.map (·.1) = rules.map (·.1) := by
  induction described with
  | nil => rfl
  | cons first _ ih => rw [List.map_cons, List.map_cons, first.1, ih]

theorem valid_iff (described : DescribesAll properties depth rules) (enough : depth ≤ fuel) :
    (∀ property ∈ properties, ∀ value, members.lookup property.1 = some value →
      violations .twentyTwenty root fuel property.2 value = []) ↔
      ∀ rule ∈ rules, ∀ value, members.lookup rule.1 = some value → rule.2 value := by
  induction described with
  | nil => simp
  | cons first _ ih =>
    rw [List.forall_mem_cons, List.forall_mem_cons, ih, first.1]
    simp only [first.2 root fuel _ enough]

/-- A schema whose keywords refuse all members but those of its properties describes a record. -/
theorem isRecord (described : DescribesAll properties depth rules)
    (plain : ∀ field ∈ fields, field.1 ≠ "$ref")
    (named : fields.lookup "properties" = some (.object properties))
    (unpatterned : fields.lookup "patternProperties" = none)
    (keywords : ∀ validate value,
      (∀ field ∈ fields, validateKeyword .twentyTwenty validate fields field.1 field.2 value = []) ↔
      validateKeyword .twentyTwenty validate fields "additionalProperties" (.bool false) value = [] ∧
      validateKeyword .twentyTwenty validate fields "properties" (.object properties) value = [] ∧
      validateKeyword .twentyTwenty validate fields "required" (Json.strings required) value = [] ∧
      validateKeyword .twentyTwenty validate fields "type" (.string "object") value = []) :
    Describes (.object fields) (depth + 1) (Json.IsRecord rules required) := by
  refine .ofKeywords plain fun root fuel value enough => ?_
  rw [keywords]
  constructor
  · rintro ⟨additional, each, present, type⟩
    obtain ⟨members, rfl⟩ := hasType_object.1 (validate_type.1 type)
    exact ⟨members, rfl, described.names ▸ (validate_closed named unpatterned).1 additional,
      validate_required.1 present, (described.valid_iff enough).1 (validate_properties.1 each)⟩
  · rintro ⟨members, rfl, inside, present, each⟩
    exact ⟨(validate_closed named unpatterned).2 (described.names ▸ inside),
      validate_properties.2 ((described.valid_iff enough).2 each), validate_required.2 present,
      validate_type.2 rfl⟩

end DescribesAll

end Schema

end PolicyReview
