import PolicyReview.Proofs.Json.Part
import PolicyReview.Proofs.Schema.Keyword

/-! Structural schemas and what they are made from. Every part of a schema has its counterpart in
the structural one, under the same names and pointers; all that an object can gain is a refusal of
further properties. -/

namespace PolicyReview.Schema

variable {fields : Json.Fields} {held : Holds} {name : String} {schema schema' argument : Json}

/-- How what stands under a name is taken, in something that is taken in a way itself. -/
def Holds.under : Holds → String → Holds
  | .one, keyword => holds keyword
  | .named, _ => .one
  | _, _ => .none

/-- The fields under which each value has been taken on its own. -/
def rewritten (held : Holds) (fields : Json.Fields) : Json.Fields :=
  fields.map fun field => (field.1, structuralArgument (held.under field.1) field.2)

theorem structuralArgument_none (argument : Json) :
    structuralArgument .none argument = argument := by
  cases argument <;> simp [structuralArgument]

theorem structuralArgument_one (schema : Json) :
    structuralArgument .one schema = structural schema := by
  cases schema <;> simp [structuralArgument]

theorem rewritten_none (fields : Json.Fields) : rewritten .none fields = fields := by
  simp [rewritten, Holds.under, structuralArgument_none]

theorem structuralKeywords_eq (fields : Json.Fields) :
    structuralKeywords fields = rewritten .one fields := by
  induction fields with
  | nil => rw [structuralKeywords]; rfl
  | cons field rest ih => rw [structuralKeywords, ih]; rfl

theorem structuralNamed_eq (fields : Json.Fields) :
    structuralNamed fields = rewritten .named fields := by
  induction fields with
  | nil => rw [structuralNamed]; rfl
  | cons field rest ih =>
    rw [structuralNamed, ih, ← structuralArgument_one]
    rfl

theorem structuralItems_eq (items : List Json) : structuralItems items = items.map structural := by
  induction items with
  | nil => rw [structuralItems]; rfl
  | cons item rest ih => rw [structuralItems, ih]; rfl

def counterpartFields (held : Holds) (fields : Json.Fields) : Json.Fields :=
  match held with
  | .one => close (rewritten .one fields)
  | held => rewritten held fields

theorem structuralArgument_object : structuralArgument held (.object fields) =
    .object (counterpartFields held fields) := by
  cases held with
  | named => simp [structuralArgument, counterpartFields, structuralNamed_eq]
  | one => simp [structuralArgument, structural, counterpartFields, structuralKeywords_eq]
  | listed =>
    simp [structuralArgument, counterpartFields, rewritten, Holds.under, structuralArgument_none]
  | none => rw [structuralArgument_none, counterpartFields, rewritten_none]; simp

theorem structuralArgument_listed (items : List Json) :
    structuralArgument .listed (.array items) = .array (items.map structural) := by
  simp [structuralArgument, structuralItems_eq]

theorem structuralArgument_array (unlisted : held ≠ .listed) (items : List Json) :
    structuralArgument held (.array items) = .array items := by
  cases held with
  | listed => exact absurd rfl unlisted
  | one => simp [structuralArgument, structural]
  | named | none => simp [structuralArgument]

/-! Fields of counterparts. -/

theorem lookup_rewritten : (rewritten held fields).lookup name =
    (fields.lookup name).map (structuralArgument (held.under name)) := by
  induction fields with
  | nil => rfl
  | cons field rest ih =>
    rw [rewritten, List.map_cons, ← rewritten, lookup_cons_eq_ite, lookup_cons_eq_ite, ih]
    split
    next same => rw [same, Option.map_some]
    next => rfl

theorem names_rewritten (held : Holds) (fields : Json.Fields) :
    (rewritten held fields).map (·.1) = fields.map (·.1) := by
  simp [rewritten]

theorem rewritten_ascending (ascending : Ascending fields) : Ascending (rewritten held fields) :=
  List.pairwise_map.2 ascending

theorem close_ascending (ascending : Ascending fields) : Ascending (close fields) := by
  unfold close
  split
  · rw [Json.insertField_eq]
    exact ascending.insertEntry _ _
  · exact ascending

theorem counterpartFields_ascending (held : Holds) (ascending : Ascending fields) :
    Ascending (counterpartFields held fields) := by
  cases held with
  | one => exact close_ascending (rewritten_ascending ascending)
  | _ => exact rewritten_ascending ascending

/-- Closing leaves what is there and adds at most a refusal of further properties. -/
theorem lookup_close (fields : Json.Fields) (name : String) :
    (close fields).lookup name = fields.lookup name ∨
      fields.lookup name = none ∧ name = "additionalProperties" ∧
        (close fields).lookup name = some (.bool false) := by
  unfold close
  split
  next closes =>
    rw [Json.insertField_eq, lookup_insertEntry]
    by_cases here : name = "additionalProperties"
    · subst here
      simp only [Bool.and_eq_true, Option.isNone_iff_eq_none] at closes
      exact .inr ⟨closes.1.2, rfl, if_pos rfl⟩
    · exact .inl (if_neg here)
  · exact .inl rfl

theorem lookup_counterpartFields (held : Holds) (found : fields.lookup name = some argument) :
    (counterpartFields held fields).lookup name =
      some (structuralArgument (held.under name) argument) := by
  have taken : (rewritten held fields).lookup name =
      some (structuralArgument (held.under name) argument) := by
    rw [lookup_rewritten, found, Option.map_some]
  cases held with
  | one =>
    rcases lookup_close (rewritten .one fields) name with same | ⟨none, -⟩
    · exact same.trans taken
    · rw [none] at taken
      cases taken
  | _ => exact taken

theorem lookup_counterpartFields_none (held : Holds) (absent : fields.lookup name = none) :
    (counterpartFields held fields).lookup name = none ∨ name = "additionalProperties" ∧
      (counterpartFields held fields).lookup name = some (.bool false) := by
  have none : (rewritten held fields).lookup name = none := by
    rw [lookup_rewritten, absent, Option.map_none]
  cases held with
  | one =>
    rcases lookup_close (rewritten .one fields) name with same | ⟨-, added⟩
    · exact .inl (same.trans none)
    · exact .inr added
  | _ => exact .inl none

/-! Counterparts. -/

def Counterpart (schema schema' : Json) : Prop := ∃ held, schema' = structuralArgument held schema

namespace Counterpart

theorem root (schema : Json) : Counterpart schema (structural schema) :=
  ⟨.one, (structuralArgument_one schema).symm⟩

theorem shape (counterpart : Counterpart schema schema') : Shape schema' schema := by
  obtain ⟨held, rfl⟩ := counterpart
  cases schema with
  | object fields => rw [structuralArgument_object]; exact .objects
  | array items =>
    by_cases listed : held = .listed
    · subst listed
      rw [structuralArgument_listed]
      refine .arrays ?_
      rw [List.filterMap_map]
      refine List.filterMap_congr fun item _ => ?_
      cases item <;> simp [structural, Json.string?]
    · rw [structuralArgument_array listed]
      exact .same
  | _ => cases held <;> simp [structuralArgument, structural, Shape.same]

theorem step? {step : List Char} {value value' part : Json} (counterpart : Counterpart value value')
    (led : value.step? step = some part) :
    ∃ part', value'.step? step = some part' ∧ Counterpart part part' := by
  obtain ⟨held, rfl⟩ := counterpart
  unfold Json.step? at led
  split at led
  next fields =>
    rw [structuralArgument_object]
    exact ⟨_, lookup_counterpartFields held led, _, rfl⟩
  next items =>
    obtain ⟨index, spelt, found⟩ := Option.bind_eq_some_iff.1 led
    by_cases listed : held = .listed
    · subst listed
      refine ⟨structural part, ?_, .root part⟩
      rw [structuralArgument_listed, Json.step?, spelt, Option.bind_some, List.getElem?_map, found]
      rfl
    · refine ⟨part, ?_, .none, (structuralArgument_none part).symm⟩
      rw [structuralArgument_array listed]
      exact led
  · cases led

theorem pointer? {pointer : String} {value value' part : Json}
    (counterpart : Counterpart value value') (led : value.pointer? pointer = some part) :
    ∃ part', value'.pointer? pointer = some part' ∧ Counterpart part part' := by
  unfold Json.pointer? at led ⊢
  split at led
  next =>
    obtain rfl := Option.some.inj led
    exact ⟨value', rfl, counterpart⟩
  next rest _ =>
    generalize rest.splitOn '/' = steps at led ⊢
    induction steps generalizing value value' with
    | nil =>
      obtain rfl := Option.some.inj led
      exact ⟨value', rfl, counterpart⟩
    | cons step steps ih =>
      obtain ⟨next, first, later⟩ := Option.bind_eq_some_iff.1 led
      obtain ⟨next', first', counterpart⟩ := counterpart.step? first
      rw [List.foldlM_cons, first']
      exact ih counterpart later
  · cases led

theorem resolve? {reference : String} {root root' part : Json}
    (counterpart : Counterpart root root') (resolved : resolve? root reference = some part) :
    ∃ part', Schema.resolve? root' reference = some part' ∧ Counterpart part part' := by
  obtain ⟨pointer, spelt, led⟩ := Option.bind_eq_some_iff.1 resolved
  obtain ⟨part', led', counterpart⟩ := counterpart.pointer? led
  exact ⟨part', by rw [Schema.resolve?, spelt, Option.bind_some, led'], counterpart⟩

end Counterpart

/-! Sizes. -/

theorem sizeFields_le_close (fields : Json.Fields) :
    Json.sizeFields fields ≤ Json.sizeFields (close fields) := by
  unfold close
  split
  next closes =>
    simp only [Bool.and_eq_true, Option.isNone_iff_eq_none] at closes
    have absent := closes.1.2
    clear closes
    induction fields with
    | nil => exact Nat.zero_le _
    | cons field rest ih =>
      rw [lookup_cons_eq_ite] at absent
      split at absent
      · cases absent
      next different =>
        rw [Json.insertField, if_neg different]
        split
        · exact Nat.le_add_left _ _
        · exact Nat.add_le_add_left (ih absent) _
  · exact Nat.le_refl _

mutual

theorem size_le_structuralArgument (held : Holds) :
    ∀ schema : Json, schema.size ≤ (structuralArgument held schema).size
  | .object fields => by
    rw [structuralArgument_object, Json.size, Json.size]
    refine Nat.add_le_add_left ?_ 1
    cases held with
    | one => exact Nat.le_trans (sizeFields_le_rewritten .one fields) (sizeFields_le_close _)
    | named => exact sizeFields_le_rewritten .named fields
    | listed => exact sizeFields_le_rewritten .listed fields
    | none => exact sizeFields_le_rewritten .none fields
  | .array items => by
    by_cases listed : held = .listed
    · subst listed
      rw [structuralArgument_listed]
      exact Nat.add_le_add_left (sizeItems_le_map items) 1
    · rw [structuralArgument_array listed]
  | .null | .bool _ | .number _ | .string _ => by
    cases held <;> simp [structuralArgument, structural]

theorem sizeItems_le_map :
    ∀ items : List Json, Json.sizeItems items ≤ Json.sizeItems (items.map structural)
  | [] => Nat.le_refl _
  | item :: rest => by
    rw [List.map_cons, Json.sizeItems, Json.sizeItems, ← structuralArgument_one]
    exact Nat.add_le_add (size_le_structuralArgument .one item) (sizeItems_le_map rest)

theorem sizeFields_le_rewritten (held : Holds) :
    ∀ fields : Json.Fields, Json.sizeFields fields ≤ Json.sizeFields (rewritten held fields)
  | [] => Nat.le_refl _
  | (name, argument) :: rest => Nat.add_le_add
    (size_le_structuralArgument (held.under name) argument) (sizeFields_le_rewritten held rest)

end

/-! Schemas in counterparts. -/

/-- Schemas at the same place in two arguments that are read in the same way. -/
inductive Pair : Holds → Json → Json → Json → Json → Prop
  | self {schema schema' : Json} : Pair .one schema schema' schema schema'
  | item {items items' : List Json} {index : Nat} {schema schema' : Json}
    (found : items[index]? = some schema) (found' : items'[index]? = some schema') :
    Pair .listed (.array items) (.array items') schema schema'
  | member {named named' : Json.Fields} {name : String} {schema schema' : Json}
    (found : named.lookup name = some schema) (found' : named'.lookup name = some schema') :
    Pair .named (.object named) (.object named') schema schema'

theorem Pair.of_sub (ascending : ∀ named, argument = .object named → Ascending named)
    (sub : Sub held argument schema) : Pair held argument argument schema schema := by
  cases sub with
  | self => exact .self
  | item inside =>
    obtain ⟨index, found⟩ := List.mem_iff_getElem?.1 inside
    exact .item found found
  | member inside =>
    have found := (ascending _ rfl).lookup_eq_some.2 inside
    exact .member found found

theorem Pair.counterpart {argument' : Json} (counterpart : Counterpart argument argument')
    (pair : Pair held argument argument' schema schema') : Counterpart schema schema' := by
  cases pair with
  | self => exact counterpart
  | @item items items' index _ _ found found' =>
    obtain ⟨taken, same⟩ := counterpart
    by_cases listed : taken = .listed
    · subst listed
      rw [structuralArgument_listed] at same
      obtain rfl := Json.array.inj same
      rw [List.getElem?_map, found] at found'
      obtain rfl := Option.some.inj found'
      exact .root schema
    · rw [structuralArgument_array listed] at same
      obtain rfl := Json.array.inj same
      obtain rfl := Option.some.inj (found.symm.trans found')
      exact ⟨.none, (structuralArgument_none _).symm⟩
  | member found found' =>
    obtain ⟨taken, same⟩ := counterpart
    rw [structuralArgument_object] at same
    obtain rfl := Json.object.inj same
    rw [lookup_counterpartFields taken found] at found'
    exact ⟨_, (Option.some.inj found').symm⟩

theorem Pair.mem_parts {argument' : Json} (pair : Pair held argument argument' schema schema') :
    schema ∈ argument.parts := by
  cases pair with
  | self => exact schema.self_mem_parts
  | item found => exact Json.mem_parts_of_item (List.mem_of_getElem? found)
  | member found => exact Json.mem_parts_of_field (mem_of_lookup found)

/-! Arguments and their counterparts correspond. -/

inductive Taken (keyword : String) : Json → Json → Prop
  | same {argument : Json} : Taken keyword argument argument
  | listed {items : List Json} (lists : holds keyword = .listed) :
    Taken keyword (.array items) (.array (items.map structural))
  | object {held : Holds} {fields : Json.Fields} :
    Taken keyword (.object fields) (.object (counterpartFields held fields))

theorem taken (held : Holds) (keyword : String) (argument : Json) :
    Taken keyword argument (structuralArgument (held.under keyword) argument) := by
  cases argument with
  | object fields =>
    rw [structuralArgument_object]
    exact .object
  | array items =>
    by_cases listed : held.under keyword = .listed
    · rw [listed, structuralArgument_listed]
      refine .listed ?_
      cases held with
      | one => exact listed
      | _ => cases listed
    · rw [structuralArgument_array listed]
      exact .same
  | _ => cases held.under keyword <;> simp [structuralArgument, structural, Taken.same]

theorem reading_of_holds {keyword : String} (lists : holds keyword = .listed) (argument : Json) :
    reading keyword argument = .listed := by
  unfold holds at lists
  split at lists <;> first | rfl | cases lists

theorem reading_object (keyword : String) (fields fields' : Json.Fields) :
    reading keyword (.object fields) = reading keyword (.object fields') := by
  unfold reading
  split <;> first | rfl | simp_all

/-- Under every name of the second map there is something in the first one. -/
def SameNames (named named' : Json.Fields) : Prop :=
  ∀ name, named.lookup name = none → named'.lookup name = none

section Correspondence

variable {R : Json → Json → Prop} {keyword : String} {argument' : Json} {named named' : Json.Fields}

theorem covers_back (ascending : Ascending named)
    (subs : ∀ {name schema schema'}, named.lookup name = some schema →
      (counterpartFields held named).lookup name = some schema' → R schema' schema) :
    Covers R (counterpartFields held named) named where
  each inside := by
    have found := ascending.lookup_eq_some.2 inside
    have found' := lookup_counterpartFields held found
    exact ⟨_, mem_of_lookup found', subs found found'⟩
  other := by
    intro name schema' inside
    have found' := (counterpartFields_ascending held ascending).lookup_eq_some.2 inside
    cases found : named.lookup name with
    | some schema => exact .inr (List.mem_map_of_mem (mem_of_lookup found))
    | none =>
      rcases lookup_counterpartFields_none held found with none | ⟨-, added⟩
      · rw [none] at found'
        cases found'
      · exact .inl (Option.some.inj (found'.symm.trans added))

theorem covers_forth (ascending : Ascending named)
    (names : SameNames named (counterpartFields held named))
    (subs : ∀ {name schema schema'}, named.lookup name = some schema →
      (counterpartFields held named).lookup name = some schema' → R schema schema') :
    Covers R named (counterpartFields held named) where
  each := by
    intro name schema' inside
    have found' := (counterpartFields_ascending held ascending).lookup_eq_some.2 inside
    cases found : named.lookup name with
    | some schema => exact ⟨schema, mem_of_lookup found, subs found found'⟩
    | none =>
      rw [names name found] at found'
      cases found'
  other inside :=
    .inr (List.mem_map_of_mem
      (mem_of_lookup (lookup_counterpartFields held (ascending.lookup_eq_some.2 inside))))

/-- From the counterpart of an argument back to the argument. -/
theorem Taken.corresponds_back (taken : Taken keyword argument argument')
    (ordered : argument.Ordered)
    (subs : ∀ {schema schema'}, Pair (reading keyword argument) argument argument' schema schema' →
      R schema' schema) : Corresponds R (reading keyword argument) argument' argument := by
  cases taken with
  | same => exact .same fun sub => subs (.of_sub (by rintro _ rfl; exact ordered.1) sub)
  | @listed items lists =>
    rw [reading_of_holds lists] at subs ⊢
    refine .arrays (List.forall₂_map_left_iff.2 (List.forall₂_same.2 fun schema inside => ?_))
    obtain ⟨index, found⟩ := List.mem_iff_getElem?.1 inside
    exact subs (.item found (by rw [List.getElem?_map, found]; rfl))
  | object =>
    generalize reading keyword _ = way at subs
    refine .objects ?_ ?_
    · rintro rfl
      exact subs .self
    · rintro rfl
      exact covers_back ordered.1 fun found found' => subs (.member found found')

/-- From an argument to its counterpart, when this one has no name more. -/
theorem Taken.corresponds_forth (taken : Taken keyword argument argument')
    (ordered : argument.Ordered)
    (names : ∀ {named named'}, argument = .object named → argument' = .object named' →
      reading keyword argument = .named → SameNames named named')
    (subs : ∀ {schema schema'}, Pair (reading keyword argument) argument argument' schema schema' →
      R schema schema') : Corresponds R (reading keyword argument') argument argument' := by
  cases taken with
  | same => exact .same fun sub => subs (.of_sub (by rintro _ rfl; exact ordered.1) sub)
  | @listed items lists =>
    rw [reading_of_holds lists] at subs ⊢
    refine .arrays (List.forall₂_map_right_iff.2 (List.forall₂_same.2 fun schema inside => ?_))
    obtain ⟨index, found⟩ := List.mem_iff_getElem?.1 inside
    exact subs (.item found (by rw [List.getElem?_map, found]; rfl))
  | @object held fields =>
    rw [reading_object keyword _ fields]
    generalize reading keyword (.object fields) = way at names subs
    refine .objects ?_ ?_
    · rintro rfl
      exact subs .self
    · rintro rfl
      exact covers_forth ordered.1 (names rfl rfl rfl) fun found found' =>
        subs (.member found found')

end Correspondence

end PolicyReview.Schema
