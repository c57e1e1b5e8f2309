import PolicyReview.Proofs.PolicyValue

/-! Decoding of policy values. A value fits one kind, whichever is tried first, and what it is read as
is what the conversion makes of it. -/

namespace PolicyReview.PolicyValue

theorem mapOf_eq {entries : PolicyMap} (ascending : Ascending entries) :
    mapOf entries = .map entries := by
  simp only [mapOf, PolicyMap.insert_eq]
  exact congrArg map ascending.foldl_insertEntry

mutual

theorem decode?_eq : ∀ value : Json, value.Ordered → decode? value = some (ofJson value)
  | .array items, ordered => by
    rw [decode?, decodeItems?_eq items ordered, ofJson]
    rfl
  | .object fields, ordered => by
    have ascending : Ascending (ofFields fields) := by
      rw [← ascending_mapToJson, mapToJson_ofFields]
      exact ordered.1
    rw [decode?, decodeFields?_eq fields ordered.2, ofJson, Option.map_some, mapOf_eq ascending]
  | .null, _ | .bool _, _ | .number _, _ | .string _, _ => rfl

theorem decodeItems?_eq :
    ∀ items : List Json, Json.OrderedItems items → decodeItems? items = some (ofItems items)
  | [], _ => rfl
  | item :: rest, ⟨here, later⟩ => by
    rw [decodeItems?, decode?_eq item here, decodeItems?_eq rest later, ofItems]

theorem decodeFields?_eq :
    ∀ fields : Json.Fields, Json.OrderedFields fields → decodeFields? fields = some (ofFields fields)
  | [], _ => rfl
  | (name, value) :: rest, ⟨here, later⟩ => by
    rw [decodeFields?, decode?_eq value here, decodeFields?_eq rest later, ofFields]

end

/-! Kinds. -/

/-- The kinds of values, in the order in which they are tried. -/
inductive Kind where
  | null
  | bool
  | number
  | string
  | list
  | map
  deriving DecidableEq, Repr

def kind : PolicyValue → Kind
  | .null => .null
  | .bool _ => .bool
  | .number _ => .number
  | .string _ => .string
  | .list _ => .list
  | .map _ => .map

namespace Kind

def all : List Kind := [.null, .bool, .number, .string, .list, .map]

/-- What a value is read as when it is taken for one of the kind. What a list or a map holds is
decoded in its turn. -/
def read? : Kind → Json → Option PolicyValue
  | .null, .null => some .null
  | .bool, .bool value => some (.bool value)
  | .number, .number value => some (.number value)
  | .string, .string value => some (.string value)
  | .list, .array items => (items.mapM decode?).map .list
  | .map, .object fields =>
    (fields.mapM fun field => (decode? field.2).map (field.1, ·)).map mapOf
  | _, _ => none

end Kind

theorem decodeItems?_eq_mapM (items : List Json) : decodeItems? items = items.mapM decode? := by
  induction items with
  | nil => rfl
  | cons item rest ih =>
    rw [decodeItems?, List.mapM_cons, ← ih]
    cases decode? item <;> cases decodeItems? rest <;> rfl

theorem decodeFields?_eq_mapM (fields : Json.Fields) :
    decodeFields? fields = fields.mapM fun field => (decode? field.2).map (field.1, ·) := by
  induction fields with
  | nil => rfl
  | cons field rest ih =>
    rw [decodeFields?, List.mapM_cons, ← ih]
    cases decode? field.2 <;> cases decodeFields? rest <;> rfl

theorem Kind.read?_eq (kind : Kind) (value : Json) :
    kind.read? value = if kind = (ofJson value).kind then decode? value else none := by
  cases value with
  | null | bool | number | string => cases kind <;> rfl
  | array items =>
    cases kind with
    | list =>
      rw [read?, decode?, decodeItems?_eq_mapM]
      rfl
    | _ => rfl
  | object fields =>
    cases kind with
    | map =>
      rw [read?, decode?, decodeFields?_eq_mapM]
      rfl
    | _ => rfl

theorem decode?_eq_findSome? (value : Json) :
    decode? value = Kind.all.findSome? fun kind => kind.read? value := by
  simp only [Kind.read?_eq]
  generalize (ofJson value).kind = own
  generalize decode? value = read
  cases own <;> cases read <;> rfl

end PolicyReview.PolicyValue
