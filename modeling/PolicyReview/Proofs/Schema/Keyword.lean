import PolicyReview.Schema.Structural
import PolicyReview.Proofs.Schema.Description
import PolicyReview.Proofs.Json.Order

/-! Keywords and the schemas that they hold. What draft 4 asks by a keyword depends on these schemas
only through what they accept, so that acceptance can be handed on from one schema to another that
holds corresponding schemas. -/

namespace PolicyReview.Schema

/-- How the argument of a keyword holds the schemas that validation goes on to. -/
def reading (keyword : String) (argument : Json) : Holds :=
  match keyword, argument with
  | "properties", _ | "patternProperties", _ | "dependencies", _ => .named
  | "items", .array _ => .listed
  | "items", _ | "additionalItems", _ | "additionalProperties", _ | "not", _ => .one
  | "allOf", _ | "anyOf", _ | "oneOf", _ => .listed
  | _, _ => .none

inductive Sub : Holds → Json → Json → Prop
  | self {schema : Json} : Sub .one schema schema
  | item {items : List Json} {schema : Json} (inside : schema ∈ items) :
    Sub .listed (.array items) schema
  | member {named : Json.Fields} {name : String} {schema : Json} (inside : (name, schema) ∈ named) :
    Sub .named (.object named) schema

theorem sub_listed {argument schema : Json} (inside : schema ∈ argument.array?.getD []) :
    Sub .listed argument schema := by
  cases argument with
  | array items => exact .item inside
  | _ => cases inside

theorem sub_named {argument schema : Json} {name : String}
    (inside : (name, schema) ∈ argument.object?.getD []) : Sub .named argument schema := by
  cases argument with
  | object named => exact .member inside
  | _ => cases inside

def inPlace : List String := ["allOf", "anyOf", "dependencies", "not", "oneOf"]

inductive Member : Json → Json → Prop
  | item {items : List Json} {value : Json} (inside : value ∈ items) : Member (.array items) value
  | field {fields : Json.Fields} {name : String} {value : Json} (inside : (name, value) ∈ fields) :
    Member (.object fields) value

def Asked (keyword : String) (value part : Json) : Prop :=
  if keyword ∈ inPlace then part = value else Member value part

/-! Correspondence. -/

/-- Equal, or alike in what keywords make of an argument without following the schemas in it. -/
inductive Shape : Json → Json → Prop
  | same {schema : Json} : Shape schema schema
  | objects {fields fields' : Json.Fields} : Shape (.object fields) (.object fields')
  | arrays {items items' : List Json}
    (texts : items.filterMap Json.string? = items'.filterMap Json.string?) :
    Shape (.array items) (.array items')

theorem Shape.symm {schema schema' : Json} (shape : Shape schema schema') :
    Shape schema' schema := by
  cases shape with
  | same => exact .same
  | objects => exact .objects
  | arrays texts => exact .arrays texts.symm

/-- Each schema of the second map corresponds to one of the first under its name; what the first one
has beside these refuses everything. -/
structure Covers (R : Json → Json → Prop) (named named' : Json.Fields) : Prop where
  each : ∀ {name schema'}, (name, schema') ∈ named' →
    ∃ schema, (name, schema) ∈ named ∧ R schema schema'
  other : ∀ {name schema}, (name, schema) ∈ named → schema = .bool false ∨ name ∈ named'.map (·.1)

theorem Covers.nil {R : Json → Json → Prop} : Covers R [] [] where
  each inside := by cases inside
  other inside := by cases inside

/-- Two arguments that are read in the same way and hold corresponding schemas. -/
inductive Corresponds (R : Json → Json → Prop) : Holds → Json → Json → Prop
  | same {held : Holds} {argument : Json}
    (each : ∀ {schema}, Sub held argument schema → R schema schema) :
    Corresponds R held argument argument
  | arrays {items items' : List Json} (each : List.Forall₂ R items items') :
    Corresponds R .listed (.array items) (.array items')
  | objects {held : Holds} {fields fields' : Json.Fields}
    (one : held = .one → R (.object fields) (.object fields'))
    (named : held = .named → Covers R fields fields') :
    Corresponds R held (.object fields) (.object fields')

namespace Corresponds

variable {R : Json → Json → Prop} {held : Holds} {argument argument' : Json}

theorem one (corresponds : Corresponds R .one argument argument') : R argument argument' := by
  cases corresponds with
  | same each => exact each .self
  | objects one => exact one rfl

theorem listed (corresponds : Corresponds R .listed argument argument') :
    List.Forall₂ R (argument.array?.getD []) (argument'.array?.getD []) := by
  cases corresponds with
  | same each => exact List.forall₂_same.2 fun schema inside => each (sub_listed inside)
  | arrays each => exact each
  | objects => exact .nil

theorem named (corresponds : Corresponds R .named argument argument') :
    Covers R (argument.object?.getD []) (argument'.object?.getD []) := by
  cases corresponds with
  | same each => exact ⟨fun inside => ⟨_, inside, each (sub_named inside)⟩,
      fun inside => .inr (List.mem_map_of_mem inside)⟩
  | objects _ named => exact named rfl

/-- Unless they hold lists, corresponding arguments are equal or both objects. -/
theorem same_or_objects (corresponds : Corresponds R held argument argument')
    (unlisted : held ≠ .listed) : argument = argument' ∨
      ∃ fields fields', argument = .object fields ∧ argument' = .object fields' := by
  cases corresponds with
  | same => exact .inl rfl
  | arrays => exact absurd rfl unlisted
  | objects => exact .inr ⟨_, _, rfl, rfl⟩

end Corresponds

/-! What keywords ask. -/

section Keywords

variable {draft : Draft} {validate : Validator} {fields members : Json.Fields} {items : List Json}
  {argument value : Json}

theorem validate_allOf : validateKeyword draft validate fields "allOf" argument value = [] ↔
    ∀ schema ∈ argument.array?.getD [], validate schema value = [] :=
  List.flatMap_eq_nil_iff

theorem validate_anyOf : validateKeyword draft validate fields "anyOf" argument value = [] ↔
    ∃ schema ∈ argument.array?.getD [], validate schema value = [] := by
  refine check_eq_nil.trans ?_
  simp [accepts]

def accepting (validate : Validator) (schemas : List Json) (value : Json) : Nat :=
  schemas.countP (accepts validate · value)

theorem validate_oneOf_iff : validateKeyword draft validate fields "oneOf" argument value = [] ↔
    accepting validate (argument.array?.getD []) value = 1 := by
  rw [validateKeyword_oneOf, accepting, List.countP_eq_length_filter]
  cases (argument.array?.getD []).filter (accepts validate · value) with
  | nil => simp [here]
  | cons first rest => cases rest <;> simp [here]

theorem validate_named : validateKeyword draft validate fields "properties" argument
      (.object members) = [] ↔ ∀ name schema, (name, schema) ∈ argument.object?.getD [] →
        ∀ part, members.lookup name = some part → validate schema part = [] := by
  change (List.flatMap _ _) = [] ↔ _
  rw [List.flatMap_eq_nil_iff, Prod.forall]
  refine forall₃_congr fun name schema _ => ?_
  cases found : members.lookup name <;> simp [found]

theorem validate_patterns : validateKeyword draft validate fields "patternProperties" argument
      (.object members) = [] ↔ ∀ source schema, (source, schema) ∈ argument.object?.getD [] →
        ∀ pattern, Pattern.read? source = some pattern → ∀ name part, (name, part) ∈ members →
          pattern.isIn name = true → validate schema part = [] := by
  change (List.flatMap _ _) = [] ↔ _
  rw [List.flatMap_eq_nil_iff, Prod.forall]
  refine forall₃_congr fun source schema _ => ?_
  cases read : Pattern.read? source <;> simp [read]

/-- What a schema, or a verdict in place of one, says of a further item or property. -/
def Admits (validate : Validator) (argument part : Json) : Prop :=
  match argument with
  | .bool verdict => verdict = true
  | schema => validate schema part = []

theorem validate_additional : validateKeyword draft validate fields "additionalProperties" argument
      (.object members) = [] ↔
    ∀ name part, (name, part) ∈ uncovered fields members → Admits validate argument part := by
  change validateAdditional validate fields argument members = [] ↔ _
  unfold validateAdditional
  split
  · cases uncovered fields members with
    | nil => simp
    | cons first rest =>
      have refused : ¬∀ name part, (name, part) ∈ first :: rest →
          Admits validate (.bool false) part :=
        fun all => by cases all first.1 first.2 List.mem_cons_self
      simp only [refused, iff_false]
      split <;> simp [here]
  · simp [Admits]
  next other notFalse notTrue =>
    rw [List.flatMap_eq_nil_iff, Prod.forall]
    refine forall₃_congr fun name part _ => ?_
    cases argument with
    | bool verdict => cases verdict <;> simp_all
    | _ => simp [Admits]

/-- What a dependency asks of an object: other properties, or that a schema accepts it. -/
def Requires (validate : Validator) (members : Json.Fields) (argument value : Json) : Prop :=
  match argument with
  | .array names => ∀ needed ∈ names.filterMap Json.string?, (members.lookup needed).isSome = true
  | schema => validate schema value = []

theorem validate_dependencies : validateKeyword draft validate fields "dependencies" argument
      (.object members) = [] ↔ ∀ name schema, (name, schema) ∈ argument.object?.getD [] →
        (members.lookup name).isSome = true →
          Requires validate members schema (.object members) := by
  change (List.flatMap _ _) = [] ↔ _
  rw [List.flatMap_eq_nil_iff, Prod.forall]
  refine forall₃_congr fun name schema _ => ?_
  cases found : members.lookup name with
  | none => simp [validateDependency, found]
  | some part => cases schema <;> simp [validateDependency, Requires, found, check_eq_nil]

theorem validateItems_eq_nil {schema : Json} {start : Nat} :
    validateItems validate schema start items = [] ↔
      ∀ item ∈ items, validate schema item = [] := by
  simp only [validateItems, List.flatMap_eq_nil_iff, List.map_eq_nil_iff]
  constructor
  · intro valid item inside
    obtain ⟨index, place⟩ := List.mem_iff_getElem?.1 inside
    exact valid (item, start + index)
      (List.mem_zipIdx_iff_le_and_getElem?_sub.2 ⟨Nat.le_add_right _ _, by simpa using place⟩)
  · rintro valid ⟨item, index⟩ inside
    exact valid item (List.fst_mem_of_mem_zipIdx inside)

theorem validate_each (single : ∀ schemas, argument ≠ .array schemas) :
    validateKeyword draft validate fields "items" argument (.array items) = [] ↔
      ∀ item ∈ items, validate argument item = [] := by
  have read : validateKeyword draft validate fields "items" argument (.array items) =
      validateItems validate argument 0 items := by
    cases argument with
    | array schemas => exact absurd rfl (single schemas)
    | _ => rfl
  rw [read, validateItems_eq_nil]

theorem validate_tuple {schemas : List Json} :
    validateKeyword draft validate fields "items" (.array schemas) (.array items) = [] ↔
      ∀ pair ∈ schemas.zip items, validate pair.1 pair.2 = [] := by
  change List.flatMap _ _ = [] ↔ _
  simp only [List.flatMap_eq_nil_iff, List.map_eq_nil_iff]
  constructor
  · intro valid pair inside
    obtain ⟨index, place⟩ := List.mem_iff_getElem?.1 inside
    exact valid (pair, index) (List.mem_zipIdx_iff_getElem?.2 place)
  · rintro valid ⟨pair, index⟩ inside
    exact valid pair (List.fst_mem_of_mem_zipIdx inside)

def tupleLength? (fields : Json.Fields) : Option Nat :=
  ((fields.lookup "items").bind Json.array?).map List.length

theorem validate_additionalItems : validateKeyword .four validate fields "additionalItems" argument
      (.array items) = [] ↔ ∀ length, tupleLength? fields = some length →
        ∀ item ∈ items.drop length, Admits validate argument item := by
  unfold validateKeyword tupleLength?
  dsimp only
  cases fields.lookup "items" with
  | none => simp
  | some schemas =>
    cases schemas with
    | array schemas =>
      simp only [Option.bind_some, Json.array?, Option.map_some, Option.some.injEq, forall_eq']
      cases items.drop schemas.length with
      | nil => simp
      | cons first rest =>
        cases argument with
        | bool verdict =>
          have refused : ¬∀ item ∈ first :: rest, Admits validate (.bool false) item :=
            fun all => by cases all first List.mem_cons_self
          cases verdict
          · simp only [refused, iff_false]
            simp [here]
          · simp [Admits]
        | _ => simp only [Admits, validateItems_eq_nil]
    | _ => simp [Json.array?]

end Keywords

/-! Acceptance handed on. -/

section Transfer

variable {validate validate' : Validator} {fields fields' : Json.Fields} {keyword : String}
  {argument argument' value : Json}

/-- What the first of two schemas accepts of a value under a keyword is accepted by the second, and
the other way round where the keyword turns acceptance around. -/
structure Agree (validate validate' : Validator) (value : Json) (keyword : String)
    (schema schema' : Json) : Prop where
  shape : Shape schema schema'
  handed : keyword ≠ "not" → ∀ part, Asked keyword value part → validate schema part = [] →
    validate' schema' part = []
  back : keyword = "not" ∨ keyword = "oneOf" → ∀ part, Asked keyword value part →
    validate' schema' part = [] → validate schema part = []

/-- Keywords of two schemas with corresponding arguments; the first may be closed to properties that
the second admits. -/
structure Matches (R : String → Json → Json → Prop) (fields fields' : Json.Fields) : Prop where
  ascending : Ascending fields
  ascending' : Ascending fields'
  each : ∀ {keyword argument'}, fields'.lookup keyword = some argument' →
    ∃ argument, fields.lookup keyword = some argument ∧
      Corresponds (R keyword) (reading keyword argument') argument argument'
  absent : ∀ {keyword}, keyword ≠ "additionalProperties" → fields'.lookup keyword = none →
    fields.lookup keyword = none

theorem Matches.of_asked (ascending : Ascending fields)
    (asked : ∀ {keyword argument schema}, fields.lookup keyword = some argument →
      Sub (reading keyword argument) argument schema → ∀ part, Asked keyword value part →
        (validate schema part = [] ↔ validate' schema part = [])) :
    Matches (Agree validate validate' value) fields fields where
  ascending := ascending
  ascending' := ascending
  each found := ⟨_, found, .same fun sub =>
    ⟨.same, fun _ part here => (asked found sub part here).1,
      fun _ part here => (asked found sub part here).2⟩⟩
  absent _ none := none

def mapOf (keyword : String) (fields : Json.Fields) : Json.Fields :=
  ((fields.lookup keyword).bind Json.object?).getD []

theorem exists_of_mem_mapOf {name : String} {schema : Json}
    (inside : (name, schema) ∈ mapOf keyword fields) :
    ∃ argument, fields.lookup keyword = some argument ∧
      (name, schema) ∈ argument.object?.getD [] := by
  unfold mapOf at inside
  cases found : fields.lookup keyword with
  | none =>
    rw [found] at inside
    cases inside
  | some argument =>
    rw [found] at inside
    exact ⟨argument, rfl, inside⟩

theorem mem_uncovered {members : Json.Fields} {name : String} {part : Json} :
    (name, part) ∈ uncovered fields members ↔ (name, part) ∈ members ∧
      name ∉ (mapOf "properties" fields).map (·.1) ∧
      ∀ source schema, (source, schema) ∈ mapOf "patternProperties" fields →
        ∀ pattern, Pattern.read? source = some pattern → pattern.isIn name = false := by
  have unnamed : (mapOf "properties" fields).lookup name = none ↔
      name ∉ (mapOf "properties" fields).map (·.1) := lookup_eq_none
  have unmatched : (∀ pattern ∈ (mapOf "patternProperties" fields).filterMap
      fun entry => Pattern.read? entry.1, ¬pattern.isIn name = true) ↔
      ∀ source schema, (source, schema) ∈ mapOf "patternProperties" fields →
        ∀ pattern, Pattern.read? source = some pattern → pattern.isIn name = false := by
    simp only [List.mem_filterMap, Bool.not_eq_true]
    exact ⟨fun all source schema inside pattern read => all pattern ⟨_, inside, read⟩,
      fun all pattern ⟨entry, inside, read⟩ => all _ _ inside pattern read⟩
  rw [← unnamed, ← unmatched]
  change (name, part) ∈ members.filter (fun member =>
    ((mapOf "properties" fields).lookup member.1).isNone &&
      !((mapOf "patternProperties" fields).filterMap fun entry => Pattern.read? entry.1).any
        (·.isIn member.1)) ↔ _
  simp only [List.mem_filter, Bool.and_eq_true, Option.isNone_iff_eq_none, Bool.not_eq_true',
    List.any_eq_false]

namespace Matches

variable {R : String → Json → Json → Prop} (matched : Matches R fields fields')

include matched

theorem covers (held : ∀ argument, reading keyword argument = .named)
    (other : keyword ≠ "additionalProperties") :
    Covers (R keyword) (mapOf keyword fields) (mapOf keyword fields') := by
  cases found : fields'.lookup keyword with
  | none =>
    rw [mapOf, mapOf, found, matched.absent other found]
    exact .nil
  | some argument' =>
    obtain ⟨argument, here, corresponds⟩ := matched.each found
    rw [held] at corresponds
    rw [mapOf, mapOf, found, here]
    exact corresponds.named

theorem tupleLength_eq : tupleLength? fields = tupleLength? fields' := by
  unfold tupleLength?
  cases found : fields'.lookup "items" with
  | none => rw [matched.absent (by decide) found]
  | some argument' =>
    obtain ⟨argument, here, corresponds⟩ := matched.each found
    rw [here]
    generalize reading "items" argument' = held at corresponds
    cases corresponds with
    | same => rfl
    | arrays each => exact congrArg some each.length_eq
    | objects => rfl

theorem marked_eq {name : String} (plain : ∀ argument, reading name argument = .none)
    (other : name ≠ "additionalProperties") :
    marked .four name fields = marked .four name fields' := by
  unfold marked
  cases found : fields'.lookup name with
  | none => rw [matched.absent other found]
  | some argument' =>
    obtain ⟨argument, here, corresponds⟩ := matched.each found
    rw [plain] at corresponds
    rw [here]
    cases corresponds with
    | same => rfl
    | objects => rfl

end Matches

/-! Keyword by keyword. -/

theorem validateKeyword_plain (plain : reading keyword argument = .none)
    (marks : ∀ name ∈ ["exclusiveMinimum", "exclusiveMaximum"],
      marked .four name fields = marked .four name fields') :
    validateKeyword .four validate fields keyword argument value =
      validateKeyword .four validate' fields' keyword argument value := by
  rw [List.forall_mem_cons, List.forall_mem_singleton] at marks
  unfold validateKeyword
  split <;> first
    | rfl
    | (simp [reading] at plain; done)
    | simp only [marks]
    | (cases argument <;> simp [reading] at plain)

theorem validateKeyword_plain_objects {members members' : Json.Fields}
    (plain : reading keyword (.object members) = .none) :
    validateKeyword .four validate fields keyword (.object members) value =
      validateKeyword .four validate' fields' keyword (.object members') value := by
  unfold validateKeyword
  split <;> first | rfl | simp [reading] at plain

theorem allOf_handed {R : Json → Json → Prop} {schemas schemas' : List Json}
    (each : List.Forall₂ R schemas schemas')
    (handed : ∀ {schema schema'}, R schema schema' → validate schema value = [] →
      validate' schema' value = [])
    (accepted : ∀ schema ∈ schemas, validate schema value = []) :
    ∀ schema ∈ schemas', validate' schema value = [] := by
  induction each with
  | nil => exact fun _ inside => by cases inside
  | cons first _ ih =>
    obtain ⟨here, later⟩ := List.forall_mem_cons.1 accepted
    exact List.forall_mem_cons.2 ⟨handed first here, ih later⟩

theorem anyOf_handed {R : Json → Json → Prop} {schemas schemas' : List Json}
    (each : List.Forall₂ R schemas schemas')
    (handed : ∀ {schema schema'}, R schema schema' → validate schema value = [] →
      validate' schema' value = [])
    (accepted : ∃ schema ∈ schemas, validate schema value = []) :
    ∃ schema ∈ schemas', validate' schema value = [] := by
  induction each with
  | nil => obtain ⟨_, inside, _⟩ := accepted; cases inside
  | cons first _ ih =>
    rw [List.exists_mem_cons_iff] at accepted ⊢
    exact accepted.imp (handed first) ih

theorem accepting_eq {R : Json → Json → Prop} {schemas schemas' : List Json}
    (each : List.Forall₂ R schemas schemas')
    (same : ∀ {schema schema'}, R schema schema' →
      (validate schema value = [] ↔ validate' schema' value = [])) :
    accepting validate schemas value = accepting validate' schemas' value := by
  induction each with
  | nil => rfl
  | cons first _ ih =>
    have verdict : accepts validate _ value = accepts validate' _ value :=
      Bool.eq_iff_iff.2 (by simpa [accepts] using same first)
    rw [accepting, accepting, List.countP_cons, List.countP_cons, verdict]
    exact congrArg (· + _) ih

theorem asked_of_inPlace (among : keyword ∈ inPlace) : Asked keyword value value := by
  rw [Asked, if_pos among]

theorem asked_of_member {part : Json} (apart : keyword ∉ inPlace) (member : Member value part) :
    Asked keyword value part := by
  rwa [Asked, if_neg apart]

theorem properties_handed
    (covers : Covers (Agree validate validate' value "properties") (argument.object?.getD [])
      (argument'.object?.getD []))
    (accepted : validateKeyword .four validate fields "properties" argument value = []) :
    validateKeyword .four validate' fields' "properties" argument' value = [] := by
  cases value with
  | object members =>
    rw [validate_named] at accepted ⊢
    intro name schema' inside part found
    obtain ⟨schema, there, agree⟩ := covers.each inside
    exact agree.handed (by decide) part (asked_of_member (by decide) (.field (mem_of_lookup found)))
      (accepted name schema there part found)
  | _ => rfl

theorem patterns_handed
    (covers : Covers (Agree validate validate' value "patternProperties")
      (argument.object?.getD []) (argument'.object?.getD []))
    (accepted : validateKeyword .four validate fields "patternProperties" argument value = []) :
    validateKeyword .four validate' fields' "patternProperties" argument' value = [] := by
  cases value with
  | object members =>
    rw [validate_patterns] at accepted ⊢
    intro source schema' inside pattern read name part member fits
    obtain ⟨schema, there, agree⟩ := covers.each inside
    exact agree.handed (by decide) part (asked_of_member (by decide) (.field member))
      (accepted source schema there pattern read name part member fits)
  | _ => rfl

theorem dependencies_handed
    (covers : Covers (Agree validate validate' value "dependencies") (argument.object?.getD [])
      (argument'.object?.getD []))
    (accepted : validateKeyword .four validate fields "dependencies" argument value = []) :
    validateKeyword .four validate' fields' "dependencies" argument' value = [] := by
  cases value with
  | object members =>
    rw [validate_dependencies] at accepted ⊢
    intro name schema' inside present
    obtain ⟨schema, there, agree⟩ := covers.each inside
    have required := accepted name schema there present
    have handed := agree.handed (by decide) _ (asked_of_inPlace (by decide))
    cases agree.shape with
    | same => cases schema' <;> first | exact required | exact handed required
    | objects => exact handed required
    | arrays texts => simpa only [Requires, texts] using required
  | _ => rfl

theorem tuple_handed {R : Json → Json → Prop} {schemas schemas' items : List Json}
    (each : List.Forall₂ R schemas schemas')
    (handed : ∀ {schema schema'}, R schema schema' → ∀ item ∈ items, validate schema item = [] →
      validate' schema' item = [])
    (accepted : ∀ pair ∈ schemas.zip items, validate pair.1 pair.2 = []) :
    ∀ pair ∈ schemas'.zip items, validate' pair.1 pair.2 = [] := by
  induction each generalizing items with
  | nil => exact fun _ inside => by cases inside
  | cons first _ ih =>
    cases items with
    | nil => exact fun _ inside => by cases inside
    | cons item items =>
      rw [List.zip_cons_cons, List.forall_mem_cons] at accepted ⊢
      refine ⟨handed first item List.mem_cons_self accepted.1, ih ?_ accepted.2⟩
      exact fun related other inside => handed related other (List.mem_cons_of_mem item inside)

theorem items_handed (corresponds : Corresponds (Agree validate validate' value "items")
      (reading "items" argument') argument argument')
    (accepted : validateKeyword .four validate fields "items" argument value = []) :
    validateKeyword .four validate' fields' "items" argument' value = [] := by
  cases value with
  | array items =>
    have handed : ∀ {schema schema'},
        Agree validate validate' (.array items) "items" schema schema' → ∀ item ∈ items,
        validate schema item = [] → validate' schema' item = [] :=
      fun agree item inside =>
        agree.handed (by decide) item (asked_of_member (by decide) (.item inside))
    by_cases tuple : ∃ schemas', argument' = .array schemas'
    · obtain ⟨schemas', rfl⟩ := tuple
      have listed : Corresponds (Agree validate validate' (.array items) "items") .listed argument
        (.array schemas') := corresponds
      obtain ⟨schemas, rfl⟩ : ∃ schemas, argument = .array schemas := by
        cases listed <;> exact ⟨_, rfl⟩
      rw [validate_tuple] at accepted ⊢
      exact tuple_handed listed.listed handed accepted
    · have single' : ∀ schemas', argument' ≠ .array schemas' := not_exists.1 tuple
      have one : reading "items" argument' = .one := by
        cases argument' with
        | array schemas' => exact absurd rfl (single' schemas')
        | _ => rfl
      rw [one] at corresponds
      have single : ∀ schemas, argument ≠ .array schemas := by
        rintro schemas rfl
        cases corresponds with
        | same => exact single' schemas rfl
      rw [validate_each single] at accepted
      rw [validate_each single']
      exact fun item inside => handed corresponds.one item inside (accepted item inside)
  | _ => rfl

theorem Agree.admits {part : Json}
    (agree : Agree validate validate' value keyword argument argument')
    (direct : keyword ≠ "not") (asked : Asked keyword value part)
    (admits : Admits validate argument part) : Admits validate' argument' part := by
  have handed := agree.handed direct part asked
  cases agree.shape with
  | same => cases argument <;> first | exact admits | exact handed admits
  | objects => exact handed admits
  | arrays => exact handed admits

theorem additionalItems_handed
    (agree : Agree validate validate' value "additionalItems" argument argument')
    (lengths : tupleLength? fields = tupleLength? fields')
    (accepted : validateKeyword .four validate fields "additionalItems" argument value = []) :
    validateKeyword .four validate' fields' "additionalItems" argument' value = [] := by
  cases value with
  | array items =>
    rw [validate_additionalItems] at accepted ⊢
    intro length found item inside
    refine agree.admits (by decide) (asked_of_member (by decide) ?_)
      (accepted length (lengths.trans found) item inside)
    exact .item (List.mem_of_mem_drop inside)
  | _ => rfl

/-- A property that the second schema leaves to its further ones is either left to them by the first
as well, or refused by name or by pattern. -/
theorem additionalProperties_handed
    (agree : Agree validate validate' value "additionalProperties" argument argument')
    (matched : Matches (Agree validate validate' value) fields fields')
    (refuses : ∀ part, validate (.bool false) part ≠ [])
    (everywhere : ∀ field ∈ fields,
      validateKeyword .four validate fields field.1 field.2 value = [])
    (accepted : validateKeyword .four validate fields "additionalProperties" argument value = []) :
    validateKeyword .four validate' fields' "additionalProperties" argument' value = [] := by
  cases value with
  | object members =>
    rw [validate_additional] at accepted ⊢
    intro name part inside
    obtain ⟨member, unnamed, unmatched⟩ := mem_uncovered.1 inside
    refine agree.admits (by decide) (asked_of_member (by decide) (.field member))
      (accepted name part (mem_uncovered.2 ⟨member, fun named => ?_, ?_⟩))
    · obtain ⟨⟨_, schema⟩, there, rfl⟩ := List.mem_map.1 named
      rcases (matched.covers (fun _ => rfl) (by decide)).other there with rfl | known
      · obtain ⟨argument, found, inside⟩ := exists_of_mem_mapOf there
        obtain ⟨first, present⟩ := Option.isSome_iff_exists.1
          (List.lookup_isSome_iff.2 ⟨_, member, beq_self_eq_true _⟩)
        have refused := everywhere _ (matched.ascending.lookup_eq_some.1 found)
        exact refuses first (validate_named.1 refused _ _ inside first present)
      · exact unnamed known
    · intro source schema there pattern read
      rcases (matched.covers (fun _ => rfl) (by decide)).other there with rfl | known
      · obtain ⟨argument, found, inside⟩ := exists_of_mem_mapOf there
        have refused := everywhere _ (matched.ascending.lookup_eq_some.1 found)
        by_contra fits
        exact refuses part (validate_patterns.1 refused _ _ inside pattern read name part member
          (by simpa using fits))
      · obtain ⟨⟨_, schema'⟩, there', rfl⟩ := List.mem_map.1 known
        exact unmatched _ schema' there' pattern read
  | _ => rfl

theorem reading_cases (keyword : String) (argument : Json) : reading keyword argument = .none ∨
    keyword ∈ ["properties", "patternProperties", "dependencies", "items", "additionalItems",
      "additionalProperties", "not", "allOf", "anyOf", "oneOf"] := by
  unfold reading
  split <;> simp

theorem Matches.accepts (matched : Matches (Agree validate validate' value) fields fields')
    (refuses : ∀ part, validate (.bool false) part ≠ [])
    (accepted : ∀ field ∈ fields,
      validateKeyword .four validate fields field.1 field.2 value = []) :
    ∀ field ∈ fields', validateKeyword .four validate' fields' field.1 field.2 value = [] := by
  rintro ⟨keyword, argument'⟩ inside
  obtain ⟨argument, found, corresponds⟩ :=
    matched.each (matched.ascending'.lookup_eq_some.2 inside)
  have passed := accepted _ (matched.ascending.lookup_eq_some.1 found)
  simp only at passed ⊢
  rcases reading_cases keyword argument' with plain | among
  · have marks : ∀ name ∈ ["exclusiveMinimum", "exclusiveMaximum"],
        marked .four name fields = marked .four name fields' := by
      rw [List.forall_mem_cons, List.forall_mem_singleton]
      exact ⟨matched.marked_eq (fun _ => rfl) (by decide),
        matched.marked_eq (fun _ => rfl) (by decide)⟩
    rcases corresponds.same_or_objects (by simp [plain]) with rfl | ⟨_, _, rfl, rfl⟩
    · exact (validateKeyword_plain plain marks).symm.trans passed
    · exact (validateKeyword_plain_objects plain).trans passed
  · simp only [List.mem_cons, List.not_mem_nil, or_false] at among
    rcases among with rfl | rfl | rfl | rfl | rfl | rfl | rfl | rfl | rfl | rfl
    · exact properties_handed corresponds.named passed
    · exact patterns_handed corresponds.named passed
    · exact dependencies_handed corresponds.named passed
    · exact items_handed corresponds passed
    · exact additionalItems_handed corresponds.one matched.tupleLength_eq passed
    · exact additionalProperties_handed corresponds.one matched refuses accepted passed
    · rw [validate_not] at passed ⊢
      exact fun accepts => passed (corresponds.one.back (.inl rfl) value
        (asked_of_inPlace (by decide)) accepts)
    · rw [validate_allOf] at passed ⊢
      exact allOf_handed corresponds.listed (fun agree =>
        agree.handed (by decide) value (asked_of_inPlace (by decide))) passed
    · rw [validate_anyOf] at passed ⊢
      exact anyOf_handed corresponds.listed (fun agree =>
        agree.handed (by decide) value (asked_of_inPlace (by decide))) passed
    · rw [validate_oneOf_iff] at passed ⊢
      rw [← accepting_eq corresponds.listed fun agree => ?_]
      · exact passed
      · exact ⟨agree.handed (by decide) value (asked_of_inPlace (by decide)),
          agree.back (.inr rfl) value (asked_of_inPlace (by decide))⟩

end Transfer

end PolicyReview.Schema
