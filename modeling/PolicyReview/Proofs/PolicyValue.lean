import PolicyReview.PolicyValue
import PolicyReview.Proofs.Json.Order

/-! Conversion of policy values. What is made of a JSON value gives that value back, and the other way
round; the maps of the one ascend where the objects of the other do. An entry that is put into a map
is put into the fields of its JSON. -/

namespace PolicyReview

namespace PolicyValue

mutual

theorem toJson_ofJson : ∀ value : Json, (ofJson value).toJson = value
  | .array items => by rw [ofJson, toJson, itemsToJson_ofItems items]
  | .object fields => by rw [ofJson, toJson, mapToJson_ofFields fields]
  | .null | .bool _ | .number _ | .string _ => rfl

theorem itemsToJson_ofItems : ∀ items : List Json, itemsToJson (ofItems items) = items
  | [] => rfl
  | item :: rest => by
    rw [ofItems, itemsToJson, toJson_ofJson item, itemsToJson_ofItems rest]

theorem mapToJson_ofFields : ∀ fields : Json.Fields, mapToJson (ofFields fields) = fields
  | [] => rfl
  | (name, value) :: rest => by
    rw [ofFields, mapToJson, toJson_ofJson value, mapToJson_ofFields rest]

end

mutual

theorem ofJson_toJson : ∀ value : PolicyValue, ofJson value.toJson = value
  | .list items => by rw [toJson, ofJson, ofItems_itemsToJson items]
  | .map entries => by rw [toJson, ofJson, ofFields_mapToJson entries]
  | .null | .bool _ | .number _ | .string _ => rfl

theorem ofItems_itemsToJson : ∀ items : List PolicyValue, ofItems (itemsToJson items) = items
  | [] => rfl
  | item :: rest => by
    rw [itemsToJson, ofItems, ofJson_toJson item, ofItems_itemsToJson rest]

theorem ofFields_mapToJson : ∀ entries : PolicyMap, ofFields (mapToJson entries) = entries
  | [] => rfl
  | (key, value) :: rest => by
    rw [mapToJson, ofFields, ofJson_toJson value, ofFields_mapToJson rest]

end

/-- What holds of a value when it holds of all that the value holds. -/
theorem inductionOn {motive : PolicyValue → Prop} (value : PolicyValue) (null : motive .null)
    (bool : ∀ value, motive (.bool value)) (number : ∀ value, motive (.number value))
    (string : ∀ value, motive (.string value))
    (list : ∀ items, (∀ item ∈ items, motive item) → motive (.list items))
    (map : ∀ entries, (∀ entry ∈ entries, motive entry.2) → motive (.map entries)) :
    motive value :=
  @PolicyValue.rec motive (fun items => ∀ item ∈ items, motive item)
    (fun entries => ∀ entry ∈ entries, motive entry.2) (fun entry => motive entry.2)
    null bool number string list map
    (List.forall_mem_nil _) (fun _ _ here later => List.forall_mem_cons.2 ⟨here, later⟩)
    (List.forall_mem_nil _) (fun _ _ here later => List.forall_mem_cons.2 ⟨here, later⟩)
    (fun _ _ held => held) value

variable {entries : PolicyMap}

theorem mapToJson_eq (entries : PolicyMap) :
    mapToJson entries = entries.map fun entry => (entry.1, entry.2.toJson) := by
  induction entries with
  | nil => rfl
  | cons entry rest ih => rw [mapToJson, ih, List.map_cons]

theorem stringMap_toJson (entries : List (String × String)) :
    (stringMap entries).toJson = .object (entries.map fun entry => (entry.1, .string entry.2)) := by
  rw [stringMap, toJson, mapToJson_eq, List.map_map]
  rfl

theorem ofFields_eq (fields : Json.Fields) :
    ofFields fields = fields.map fun field => (field.1, ofJson field.2) := by
  induction fields with
  | nil => rfl
  | cons field rest ih => rw [ofFields, ih, List.map_cons]

theorem names_ofFields (fields : Json.Fields) : (ofFields fields).map (·.1) = fields.map (·.1) := by
  rw [ofFields_eq, List.map_map]
  rfl

theorem ascending_mapToJson : Ascending (mapToJson entries) ↔ Ascending entries := by
  rw [mapToJson_eq, Ascending, List.pairwise_map]
  rfl

/-! Order. -/

mutual

/-- The keys of all maps ascend. -/
def Ordered : PolicyValue → Prop
  | .list items => OrderedItems items
  | .map entries => Ascending entries ∧ OrderedEntries entries
  | _ => True

def OrderedItems : List PolicyValue → Prop
  | [] => True
  | item :: rest => item.Ordered ∧ OrderedItems rest

def OrderedEntries : PolicyMap → Prop
  | [] => True
  | (_, value) :: rest => value.Ordered ∧ OrderedEntries rest

end

theorem orderedItems_iff {items : List PolicyValue} :
    OrderedItems items ↔ ∀ item ∈ items, item.Ordered := by
  induction items with
  | nil => simp [OrderedItems]
  | cons item rest ih => simp [OrderedItems, ih]

theorem orderedEntries_iff : OrderedEntries entries ↔ ∀ entry ∈ entries, entry.2.Ordered := by
  induction entries with
  | nil => simp [OrderedEntries]
  | cons entry rest ih => simp [OrderedEntries, ih]

theorem itemsToJson_eq (items : List PolicyValue) : itemsToJson items = items.map toJson := by
  induction items with
  | nil => rfl
  | cons item rest ih => rw [itemsToJson, ih, List.map_cons]

theorem ordered_toJson (value : PolicyValue) : value.toJson.Ordered ↔ value.Ordered := by
  induction value using inductionOn with
  | null | bool | number | string => exact Iff.rfl
  | list items each =>
    rw [toJson, Json.Ordered, Json.orderedItems_iff, itemsToJson_eq, List.forall_mem_map, Ordered,
      orderedItems_iff]
    exact forall₂_congr each
  | map entries each =>
    rw [toJson, Json.Ordered, ascending_mapToJson, Json.orderedFields_iff, mapToJson_eq,
      List.forall_mem_map, Ordered, orderedEntries_iff]
    exact and_congr_right' (forall₂_congr each)

theorem ordered_ofJson (value : Json) : (ofJson value).Ordered ↔ value.Ordered := by
  rw [← ordered_toJson, toJson_ofJson]

end PolicyValue

theorem PolicyMap.insert_eq {key : String} {value : PolicyValue} {entries : PolicyMap} :
    PolicyMap.insert key value entries = insertEntry key value entries := by
  induction entries with
  | nil => rfl
  | cons first rest ih => rw [insert, insertEntry, ih]

end PolicyReview
