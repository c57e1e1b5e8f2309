import PolicyReview.Proofs.PolicyValue.Text

/-! Policy values and JSON values correspond to each other. -/

namespace PolicyReview.PolicyValue

/-- The compact text of a value: its parts are separated by commas, the keys of a map ascend, and a
number has neither a point nor an exponent exactly when it is an integer. -/
inductive Written : PolicyValue → List Char → Prop where
  | null : Written .null ['n', 'u', 'l', 'l']
  | true : Written (.bool true) ['t', 'r', 'u', 'e']
  | false : Written (.bool false) ['f', 'a', 'l', 's', 'e']
  | number {number : Number}
    (apart : number.isInt = Bool.true ↔ '.' ∉ number.text ∧ 'e' ∉ number.text) :
    Written (.number number) number.text
  | string (text : String) : Written (.string text) (Json.quote text)
  | list {items : List PolicyValue} {text : PolicyValue → List Char}
    (each : ∀ item ∈ items, Written item (text item)) :
    Written (.list items) ('[' :: [','].intercalate (items.map text) ++ [']'])
  | map {entries : PolicyMap} {text : String × PolicyValue → List Char}
    (ascending : Ascending entries) (each : ∀ entry ∈ entries, Written entry.2 (text entry)) :
    Written (.map entries) ('{' ::
      [','].intercalate (entries.map fun entry => Json.quote entry.1 ++ ':' :: text entry) ++ ['}'])

theorem written_chars (value : PolicyValue) (ordered : value.Ordered) :
    Written value value.chars := by
  induction value using inductionOn with
  | null => exact .null
  | bool b =>
    cases b with
    | false => exact .false
    | true => exact .true
  | number n => exact .number n.isInt_iff
  | string text => exact .string text
  | list items each =>
    rw [chars, itemChars_eq]
    exact .list fun item member => each item member (orderedItems_iff.1 ordered item member)
  | map entries each =>
    rw [chars, entryChars_eq]
    exact .map ordered.1 fun entry member =>
      each entry member (orderedEntries_iff.1 ordered.2 entry member)

/-- JSON values and policy values correspond to each other. A JSON value is converted without loss and
is decoded as what it is converted to, whichever kind is tried first, since it fits no other. A
policy value is converted without loss too. It is written as its JSON is, with all keys in order,
and its text keeps it apart from every other value, but for binary numbers that have one text. -/
theorem corresponds_json :
    (∀ json : Json, json.Ordered →
      (ofJson json).Ordered ∧ (ofJson json).toJson = json ∧
      decode? json = some (ofJson json) ∧
      decode? json = (Kind.all.findSome? fun kind => kind.read? json) ∧
      ∀ kind : Kind, kind.read? json =
        if kind = (ofJson json).kind then some (ofJson json) else none) ∧
    ∀ value : PolicyValue, value.Ordered →
      value.toJson.Ordered ∧ ofJson value.toJson = value ∧
      value.render = value.toJson.render ∧ Written value value.render.toList ∧
      ∀ other : PolicyValue, value.render = other.render → Alike value other := by
  refine ⟨fun json ordered => ?_, fun value ordered => ?_⟩
  · have decoded := decode?_eq json ordered
    refine ⟨(ordered_ofJson json).2 ordered, toJson_ofJson json, decoded, decode?_eq_findSome? json,
      fun kind => ?_⟩
    rw [kind.read?_eq, decoded]
  · refine ⟨(ordered_toJson value).2 ordered, ofJson_toJson value, (render_toJson value).symm, ?_,
      fun other => alike_of_render⟩
    rw [render, String.toList_ofList]
    exact written_chars value ordered

def nested : Json := .object [
  ("items", .array [.number (.int 1), .number (.float ⟨0x3FF0000000000000⟩), .string "x\n"]),
  ("map", .object [("a", .null), ("b", .bool true)])]

theorem corresponds_json_nested :
    nested.Ordered ∧ decode? nested = some (ofJson nested) ∧ (ofJson nested).toJson = nested ∧
    (ofJson nested).render = nested.render ∧ Alike (ofJson nested) (ofJson nested) ∧
    nested.render = "\x7b\"items\":[1,1.0,\"x\\n\"],\"map\":\x7b\"a\":null,\"b\":true\x7d\x7d" := by
  have ordered : nested.Ordered := by
    simp only [nested, Json.Ordered, Json.OrderedItems, Json.OrderedFields, Ascending]
    decide
  obtain ⟨sorted, restored, decoded, -⟩ := corresponds_json.1 nested ordered
  obtain ⟨-, -, written, -, told⟩ := corresponds_json.2 (ofJson nested) sorted
  refine ⟨ordered, decoded, restored, restored ▸ written, told _ rfl, ?_⟩
  decide +kernel

end PolicyReview.PolicyValue
