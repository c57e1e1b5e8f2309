import PolicyReview.Json.Pointer
import PolicyReview.Proofs.Json.Order
import Mathlib.Data.List.Basic

/-! Parts of JSON values. There are as many as the size says, and a pointer leads to one of them. -/

namespace PolicyReview.Json

mutual

/-- A value and all values within it. -/
def parts : Json → List Json
  | .array items => .array items :: partsOfItems items
  | .object fields => .object fields :: partsOfFields fields
  | value => [value]

def partsOfItems : List Json → List Json
  | [] => []
  | item :: rest => item.parts ++ partsOfItems rest

def partsOfFields : Fields → List Json
  | [] => []
  | (_, value) :: rest => value.parts ++ partsOfFields rest

end

mutual

theorem length_parts : ∀ value : Json, value.parts.length = value.size
  | .array items => by
    rw [parts, size, List.length_cons, length_partsOfItems items, Nat.add_comm]
  | .object fields => by
    rw [parts, size, List.length_cons, length_partsOfFields fields, Nat.add_comm]
  | .null | .bool _ | .number _ | .string _ => rfl

theorem length_partsOfItems : ∀ items : List Json, (partsOfItems items).length = sizeItems items
  | [] => rfl
  | item :: rest => by
    rw [partsOfItems, sizeItems, List.length_append, length_parts item, length_partsOfItems rest]

theorem length_partsOfFields : ∀ fields : Fields, (partsOfFields fields).length = sizeFields fields
  | [] => rfl
  | (_, value) :: rest => by
    rw [partsOfFields, sizeFields, List.length_append, length_parts value,
      length_partsOfFields rest]

end

variable {value part inner : Json} {items : List Json} {fields : Fields} {name : String}

theorem partsOfItems_eq (items : List Json) : partsOfItems items = items.flatMap parts := by
  induction items with
  | nil => rfl
  | cons item rest ih => rw [partsOfItems, List.flatMap_cons, ih]

theorem partsOfFields_eq (fields : Fields) :
    partsOfFields fields = fields.flatMap fun field => field.2.parts := by
  induction fields with
  | nil => rfl
  | cons field rest ih => rw [partsOfFields, List.flatMap_cons, ih]

theorem self_mem_parts (value : Json) : value ∈ value.parts := by
  cases value <;> simp [parts]

mutual

theorem mem_parts_trans (within : inner ∈ part.parts) :
    ∀ value : Json, part ∈ value.parts → inner ∈ value.parts
  | .array items, inside => by
    rw [parts, List.mem_cons] at inside ⊢
    rcases inside with rfl | inside
    · rwa [parts, List.mem_cons] at within
    · exact .inr (mem_partsOfItems_trans within items inside)
  | .object fields, inside => by
    rw [parts, List.mem_cons] at inside ⊢
    rcases inside with rfl | inside
    · rwa [parts, List.mem_cons] at within
    · exact .inr (mem_partsOfFields_trans within fields inside)
  | .null, inside | .bool _, inside | .number _, inside | .string _, inside => by
    obtain rfl := List.mem_singleton.1 inside
    exact within

theorem mem_partsOfItems_trans (within : inner ∈ part.parts) :
    ∀ items : List Json, part ∈ partsOfItems items → inner ∈ partsOfItems items
  | [], inside => by cases inside
  | item :: rest, inside => by
    rw [partsOfItems, List.mem_append] at inside ⊢
    exact inside.imp (mem_parts_trans within item) (mem_partsOfItems_trans within rest)

theorem mem_partsOfFields_trans (within : inner ∈ part.parts) :
    ∀ fields : Fields, part ∈ partsOfFields fields → inner ∈ partsOfFields fields
  | [], inside => by cases inside
  | (_, value) :: rest, inside => by
    rw [partsOfFields, List.mem_append] at inside ⊢
    exact inside.imp (mem_parts_trans within value) (mem_partsOfFields_trans within rest)

end

theorem mem_parts_of_item (inside : part ∈ items) : part ∈ (array items).parts := by
  rw [parts, partsOfItems_eq]
  exact List.mem_cons_of_mem _ (List.mem_flatMap.2 ⟨part, inside, part.self_mem_parts⟩)

theorem mem_parts_of_field (inside : (name, part) ∈ fields) : part ∈ (object fields).parts := by
  rw [parts, partsOfFields_eq]
  exact List.mem_cons_of_mem _ (List.mem_flatMap.2 ⟨(name, part), inside, part.self_mem_parts⟩)

theorem size_lt_of_item (inside : part ∈ items) : part.size < (array items).size := by
  rw [size, Nat.add_comm, Nat.lt_succ_iff]
  induction items with
  | nil => cases inside
  | cons first rest ih =>
    rw [sizeItems]
    rcases List.mem_cons.1 inside with rfl | later
    · exact Nat.le_add_right _ _
    · exact Nat.le_add_left_of_le (ih later)

theorem size_lt_of_field (inside : (name, part) ∈ fields) : part.size < (object fields).size := by
  rw [size, Nat.add_comm, Nat.lt_succ_iff]
  induction fields with
  | nil => cases inside
  | cons first rest ih =>
    rw [sizeFields]
    rcases List.mem_cons.1 inside with rfl | later
    · exact Nat.le_add_right _ _
    · exact Nat.le_add_left_of_le (ih later)

theorem mem_parts_of_step? {step : List Char} (led : value.step? step = some part) :
    part ∈ value.parts := by
  unfold step? at led
  split at led
  · exact mem_parts_of_field (mem_of_lookup led)
  · obtain ⟨index, -, found⟩ := Option.bind_eq_some_iff.1 led
    exact mem_parts_of_item (List.mem_of_getElem? found)
  · cases led

theorem mem_parts_of_pointer? {pointer : String} (led : value.pointer? pointer = some part) :
    part ∈ value.parts := by
  unfold pointer? at led
  split at led
  · obtain rfl := Option.some.inj led
    exact self_mem_parts _
  next rest _ =>
    generalize rest.splitOn '/' = steps at led
    induction steps generalizing value with
    | nil =>
      obtain rfl := Option.some.inj led
      exact self_mem_parts _
    | cons step steps ih =>
      obtain ⟨next, first, later⟩ := Option.bind_eq_some_iff.1 led
      exact mem_parts_trans (ih later) value (mem_parts_of_step? first)
  · cases led

mutual

theorem Ordered.of_mem_parts :
    ∀ {value : Json}, value.Ordered → part ∈ value.parts → part.Ordered
  | .array _, ordered, inside => by
    rcases List.mem_cons.1 inside with rfl | inside
    · exact ordered
    · exact OrderedItems.of_mem_parts ordered inside
  | .object _, ordered, inside => by
    rcases List.mem_cons.1 inside with rfl | inside
    · exact ordered
    · exact OrderedFields.of_mem_parts ordered.2 inside
  | .null, _, inside | .bool _, _, inside | .number _, _, inside | .string _, _, inside => by
    obtain rfl := List.mem_singleton.1 inside
    trivial

theorem OrderedItems.of_mem_parts :
    ∀ {items : List Json}, OrderedItems items → part ∈ partsOfItems items → part.Ordered
  | [], _, inside => by cases inside
  | _ :: _, ordered, inside => (List.mem_append.1 inside).elim
    (Ordered.of_mem_parts ordered.1) (OrderedItems.of_mem_parts ordered.2)

theorem OrderedFields.of_mem_parts :
    ∀ {fields : Fields}, OrderedFields fields → part ∈ partsOfFields fields → part.Ordered
  | [], _, inside => by cases inside
  | (_, _) :: _, ordered, inside => (List.mem_append.1 inside).elim
    (Ordered.of_mem_parts ordered.1) (OrderedFields.of_mem_parts ordered.2)

end

end PolicyReview.Json
