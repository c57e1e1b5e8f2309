import PolicyReview.Proofs.Json.Field
import PolicyReview.Proofs.Schema.Place

/-! What structural schemas have more than the schemas that they are made from: a refusal of further
properties in each object at the place of a schema that lists its properties and says nothing of
others. Whatever stands anywhere else, and all that stood there before, is as it was. -/

namespace PolicyReview.Schema

open Json (Place Step)

variable {schema value part : Json} {fields : Json.Fields} {held : Holds} {place : Place}
  {name keyword : String}

structure Unsettled (fields : Json.Fields) : Prop where
  lists : ∃ properties, fields.lookup "properties" = some (.object properties)
  unrefused : fields.lookup "additionalProperties" = none
  unmatched : fields.lookup "patternProperties" = none

/-- An object that is read as a schema, lists its properties and says nothing of others. -/
def UnsettledAt (schema : Json) (place : Place) : Prop :=
  IsPlace place ∧ ∃ fields, schema.part? place = some (.object fields) ∧ Unsettled fields

/-! Closing. -/

theorem object?_structuralArgument (held : Holds) (value : Json) :
    (structuralArgument held value).object?.isSome = value.object?.isSome := by
  cases value with
  | object fields =>
    rw [structuralArgument_object]
    rfl
  | array items =>
    by_cases listed : held = .listed
    · rw [listed, structuralArgument_listed]
      rfl
    · rw [structuralArgument_array listed]
  | _ => cases held <;> simp [structuralArgument, structural]

theorem unsettled_iff : Unsettled fields ↔
    (((fields.lookup "properties").bind Json.object?).isSome &&
      (fields.lookup "additionalProperties").isNone &&
      (fields.lookup "patternProperties").isNone) = true := by
  rw [Bool.and_eq_true, Bool.and_eq_true, Option.isNone_iff_eq_none, Option.isNone_iff_eq_none,
    Option.isSome_iff_exists]
  constructor
  · rintro ⟨⟨properties, lists⟩, unrefused, unmatched⟩
    exact ⟨⟨⟨properties, by rw [lists]; rfl⟩, unrefused⟩, unmatched⟩
  · rintro ⟨⟨⟨properties, lists⟩, unrefused⟩, unmatched⟩
    obtain ⟨argument, found, isObject⟩ := Option.bind_eq_some_iff.1 lists
    exact ⟨⟨properties, found.trans (congrArg some (Json.object?_eq_some.1 isObject))⟩,
      unrefused, unmatched⟩

theorem close_of_unsettled (unsettled : Unsettled fields) :
    close fields = insertEntry "additionalProperties" (.bool false) fields := by
  rw [close, if_pos (unsettled_iff.1 unsettled), Json.insertField_eq]

theorem close_of_settled (settled : ¬Unsettled fields) : close fields = fields := by
  rw [close, if_neg (mt unsettled_iff.2 settled)]

theorem close_close (fields : Json.Fields) : close (close fields) = close fields := by
  by_cases unsettled : Unsettled fields
  · apply close_of_settled
    intro again
    have refused := again.unrefused
    rw [close_of_unsettled unsettled, lookup_insertEntry, if_pos rfl] at refused
    cases refused
  · rw [close_of_settled unsettled, close_of_settled unsettled]

/-- Taking the arguments of keywords leaves them objects, or none, as they were. -/
theorem unsettled_rewritten : Unsettled (rewritten .one fields) ↔ Unsettled fields := by
  rw [unsettled_iff, unsettled_iff, lookup_rewritten, lookup_rewritten, lookup_rewritten,
    Option.isNone_map, Option.isNone_map]
  cases fields.lookup "properties" with
  | none => rfl
  | some argument =>
    rw [Option.map_some, Option.bind_some, Option.bind_some, object?_structuralArgument]

theorem rewritten_insertEntry (held : Holds) (name : String) (value : Json) (fields : Json.Fields) :
    rewritten held (insertEntry name value fields) =
      insertEntry name (structuralArgument (held.under name) value) (rewritten held fields) := by
  induction fields with
  | nil => rfl
  | cons first rest ih =>
    change rewritten held (insertEntry name value (first :: rest)) = insertEntry name _
      ((first.1, structuralArgument (held.under first.1) first.2) :: rewritten held rest)
    rw [insertEntry, insertEntry]
    split
    · rfl
    split
    next => rfl
    next => rw [← ih]; rfl

theorem rewritten_close (fields : Json.Fields) :
    rewritten .one (close fields) = close (rewritten .one fields) := by
  by_cases unsettled : Unsettled fields
  · have refusal : structuralArgument (Holds.one.under "additionalProperties") (.bool false) =
        .bool false := by
      simp [Holds.under, holds, structuralArgument, structural]
    rw [close_of_unsettled unsettled, close_of_unsettled (unsettled_rewritten.2 unsettled),
      rewritten_insertEntry, refusal]
  · rw [close_of_settled unsettled, close_of_settled (mt unsettled_rewritten.1 unsettled)]

/-! Making a schema structural twice. -/

mutual

theorem structuralArgument_idem (held : Holds) : ∀ value : Json,
    structuralArgument held (structuralArgument held value) = structuralArgument held value
  | .object fields => by
    rw [structuralArgument_object, structuralArgument_object]
    have twice := rewritten_idem held fields
    cases held with
    | one => rw [counterpartFields, counterpartFields, rewritten_close, twice, close_close]
    | _ => exact congrArg Json.object twice
  | .array items => by
    by_cases listed : held = .listed
    · rw [listed, structuralArgument_listed, structuralArgument_listed, structural_idem items]
    · rw [structuralArgument_array listed, structuralArgument_array listed]
  | .null | .bool _ | .number _ | .string _ => by
    cases held <;> simp [structuralArgument, structural]

theorem structural_idem : ∀ items : List Json,
    (items.map structural).map structural = items.map structural
  | [] => rfl
  | item :: rest => by
    have first := structuralArgument_idem .one item
    rw [structuralArgument_one, structuralArgument_one] at first
    rw [List.map_cons, List.map_cons, first, structural_idem rest]

theorem rewritten_idem (held : Holds) : ∀ fields : Json.Fields,
    rewritten held (rewritten held fields) = rewritten held fields
  | [] => rfl
  | (name, value) :: rest => congrArg₂ (fun value rest => (name, value) :: rest)
    (structuralArgument_idem (held.under name) value) (rewritten_idem held rest)

end

/-! What stands at a place afterwards. -/

theorem part?_structuralArgument (held : Holds) (found : value.part? place = some part) :
    (structuralArgument held value).part? place =
      some (structuralArgument (heldAt held place) part) := by
  induction place generalizing held value with
  | nil =>
    obtain rfl := Option.some.inj found
    rfl
  | cons step rest ih =>
    obtain ⟨inner, first, later⟩ := Option.bind_eq_some_iff.1 found
    cases step with
    | field name =>
      obtain ⟨fields, rfl, given⟩ := Json.inner?_field.1 first
      rw [structuralArgument_object, Json.part?, Json.inner?, lookup_counterpartFields held given]
      exact ih _ later
    | item index =>
      obtain ⟨items, rfl, given⟩ := Json.inner?_item.1 first
      by_cases listed : held = .listed
      · subst listed
        rw [structuralArgument_listed, Json.part?, Json.inner?, List.getElem?_map, given,
          Option.map_some, Option.bind_some, ← structuralArgument_one]
        exact ih _ later
      · rw [structuralArgument_array listed, heldAt_item listed, structuralArgument_none]
        exact found

theorem lookup_added (absent : fields.lookup name = none)
    (found : (counterpartFields held fields).lookup name = some part) :
    held = .one ∧ name = "additionalProperties" ∧ Unsettled fields ∧ part = .bool false := by
  have none : (rewritten held fields).lookup name = none := by
    rw [lookup_rewritten, absent, Option.map_none]
  cases held with
  | one =>
    rw [counterpartFields] at found
    by_cases unsettled : Unsettled (rewritten .one fields)
    · rw [close_of_unsettled unsettled, lookup_insertEntry, none] at found
      split at found
      next here =>
        exact ⟨rfl, here, unsettled_rewritten.1 unsettled, (Option.some.inj found).symm⟩
      next => cases found
    · rw [close_of_settled unsettled, none] at found
      cases found
  | _ => cases none.symm.trans found

theorem inner?_added (absent : value.inner? step = none)
    (found : (structuralArgument held value).inner? step = some part) :
    held = .one ∧ step = .field "additionalProperties" ∧ part = .bool false ∧
      ∃ fields, value = .object fields ∧ Unsettled fields := by
  cases value with
  | object fields =>
    rw [structuralArgument_object] at found
    cases step with
    | field name =>
      obtain ⟨rfl, rfl, unsettled, rfl⟩ := lookup_added absent found
      exact ⟨rfl, rfl, rfl, fields, rfl, unsettled⟩
    | item index => cases found
  | array items =>
    by_cases listed : held = .listed
    · rw [listed, structuralArgument_listed] at found
      cases step with
      | field name => cases found
      | item index =>
        rw [Json.inner?, List.getElem?_map, show items[index]? = none from absent] at found
        cases found
    · rw [structuralArgument_array listed, absent] at found
      cases found
  | _ => cases held <;> simp [structuralArgument, structural, Json.inner?] at found

/-- Whatever stands where nothing stood is a refusal that was added. -/
theorem part?_added (absent : value.part? place = none)
    (found : (structuralArgument held value).part? place = some part) :
    ∃ inside fields, place = inside ++ [.field "additionalProperties"] ∧
      heldAt held inside = .one ∧ value.part? inside = some (.object fields) ∧ Unsettled fields ∧
      part = .bool false := by
  induction place generalizing held value with
  | nil => cases absent
  | cons step rest ih =>
    cases here : value.inner? step with
    | some inner =>
      have led : value.part? [step] = some inner := (Json.part?_singleton step value).trans here
      have led' := part?_structuralArgument held led
      rw [Json.part?, here, Option.bind_some] at absent
      rw [Json.part?, ← Json.part?_singleton, led', Option.bind_some] at found
      obtain ⟨inside, fields, rfl, taken, there, unsettled, added⟩ := ih absent found
      refine ⟨step :: inside, fields, rfl, ?_, ?_, unsettled, added⟩
      · cases step with
        | field name => exact taken
        | item index => cases held <;> exact taken
      · rw [Json.part?, here]
        exact there
    | none =>
      obtain ⟨inner, first, later⟩ := Option.bind_eq_some_iff.1 found
      obtain ⟨rfl, rfl, rfl, fields, rfl, unsettled⟩ := inner?_added here first
      cases rest with
      | nil => exact ⟨[], fields, rfl, rfl, rfl, unsettled, (Option.some.inj later).symm⟩
      | cons next others => cases next <;> cases later

theorem node_structuralArgument
    (settled : ¬(held = .one ∧ ∃ fields, value = .object fields ∧ Unsettled fields)) :
    (structuralArgument held value).node = value.node := by
  cases value with
  | object fields =>
    have names := names_rewritten held fields
    rw [structuralArgument_object]
    cases held with
    | one =>
      have settled' : ¬Unsettled (rewritten .one fields) := fun unsettled =>
        settled ⟨rfl, fields, rfl, unsettled_rewritten.1 unsettled⟩
      rw [counterpartFields, close_of_settled settled']
      exact congrArg Json.Node.object names
    | _ => exact congrArg Json.Node.object names
  | array items =>
    by_cases listed : held = .listed
    · rw [listed, structuralArgument_listed, Json.node, List.length_map]
      rfl
    · rw [structuralArgument_array listed]
  | _ => cases held <;> simp [structuralArgument, structural]

theorem names_counterpartFields (unsettled : Unsettled fields) :
    ((counterpartFields .one fields).map (·.1)).Perm
      ("additionalProperties" :: fields.map (·.1)) := by
  have absent : "additionalProperties" ∉ (rewritten .one fields).map (·.1) := by
    rw [names_rewritten, ← lookup_eq_none]
    exact unsettled.unrefused
  rw [counterpartFields, close_of_unsettled (unsettled_rewritten.2 unsettled),
    ← names_rewritten .one fields]
  exact (insertEntry_perm absent).map (·.1)

theorem part?_structural_of_none (absent : schema.part? place = none) :
    (structural schema).part? place = some part ↔ ∃ inside, UnsettledAt schema inside ∧
      place = inside ++ [.field "additionalProperties"] ∧ part = .bool false := by
  rw [← structuralArgument_one]
  constructor
  · intro found
    obtain ⟨inside, fields, rfl, taken, there, unsettled, rfl⟩ := part?_added absent found
    exact ⟨inside, ⟨isPlace_iff.2 taken, fields, there, unsettled⟩, rfl, rfl⟩
  · rintro ⟨inside, ⟨isPlace, fields, there, unsettled⟩, rfl, rfl⟩
    have refused : (counterpartFields .one fields).lookup "additionalProperties" =
        some (.bool false) := by
      rw [counterpartFields, close_of_unsettled (unsettled_rewritten.2 unsettled),
        lookup_insertEntry, if_pos rfl]
    rw [Json.part?_append, part?_structuralArgument .one there, isPlace_iff.1 isPlace,
      Option.bind_some, structuralArgument_object, Json.part?_singleton]
    exact refused

theorem part?_structural_of_bare (bare : ∀ below, ¬IsPlace (place ++ below)) :
    (structural schema).part? place = schema.part? place := by
  cases found : schema.part? place with
  | some part =>
    rw [← structuralArgument_one, part?_structuralArgument .one found, heldAt_of_bare bare,
      structuralArgument_none]
  | none =>
    rw [Option.eq_none_iff_forall_ne_some]
    intro part added
    obtain ⟨inside, ⟨isPlace, -⟩, rfl, -⟩ := (part?_structural_of_none found).1 added
    apply bare []
    rw [List.append_nil, isPlace_iff, heldAt_append, isPlace_iff.1 isPlace]
    rfl

/-- Making a schema structural twice is making it so once. Everything stays in its place, an object
with the same names; all that is there besides is one refusal of further properties in each object
that is read as a schema, lists its properties and says nothing of others. Where no schema stands,
nothing changes, and neither does the argument of any other keyword; under the keywords that hold
schemas by name, each name is one of a schema and never a keyword. -/
theorem structural_adds (schema : Json) :
    structural (structural schema) = structural schema ∧
    (∀ place value, schema.part? place = some value → ∃ value',
      (structural schema).part? place = some value' ∧
      (¬UnsettledAt schema place → value'.node = value.node) ∧
      (UnsettledAt schema place → ∃ fields fields', value = .object fields ∧
        value' = .object fields' ∧
        (fields'.map (·.1)).Perm ("additionalProperties" :: fields.map (·.1)))) ∧
    (∀ place value, schema.part? place = none → ((structural schema).part? place = some value ↔
      ∃ inside, UnsettledAt schema inside ∧ place = inside ++ [.field "additionalProperties"] ∧
        value = .bool false)) ∧
    (∀ place, (∀ below, ¬IsPlace (place ++ below)) →
      (structural schema).part? place = schema.part? place) ∧
    (∀ place keyword, IsPlace place →
      keyword ∉ namedKeywords ++ singleKeywords ++ listedKeywords →
      (structural schema).part? (place ++ [.field keyword]) =
        schema.part? (place ++ [.field keyword])) ∧
    ∀ place keyword parameters, IsPlace place → keyword ∈ namedKeywords →
      schema.part? (place ++ [.field keyword]) = some (.object parameters) →
      (structural schema).part? (place ++ [.field keyword]) =
        some (.object (parameters.map fun entry => (entry.1, structural entry.2))) := by
  refine ⟨?_, fun place value found => ?_, fun place value => part?_structural_of_none,
    fun place => part?_structural_of_bare, fun place keyword isPlace other => ?_,
    fun place keyword parameters isPlace known found => ?_⟩
  · have twice := structuralArgument_idem .one schema
    rwa [structuralArgument_one, structuralArgument_one] at twice
  · have found' := part?_structuralArgument .one found
    rw [structuralArgument_one] at found'
    refine ⟨_, found', fun settled => node_structuralArgument ?_, ?_⟩
    · rintro ⟨taken, fields, rfl, unsettled⟩
      exact settled ⟨isPlace_iff.2 taken, fields, found, unsettled⟩
    · rintro ⟨isPlace, fields, there, unsettled⟩
      obtain rfl := Option.some.inj (found.symm.trans there)
      rw [isPlace_iff.1 isPlace, structuralArgument_object]
      exact ⟨fields, _, rfl, rfl, names_counterpartFields unsettled⟩
  · exact part?_structural_of_bare (bare_of_keyword isPlace other)
  · rw [← structuralArgument_one, part?_structuralArgument .one found, heldAt_append,
      isPlace_iff.1 isPlace]
    have taken : heldAt .one [.field keyword] = .named := holds_named.2 known
    rw [taken, structuralArgument_object, counterpartFields]
    simp only [rewritten, Holds.under, structuralArgument_one]
    intro same
    cases same

end PolicyReview.Schema
