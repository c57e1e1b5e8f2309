import PolicyReview.Json.Text

/-! Values of violation metadata: a closed tree with key-sorted maps, converted from and to
JSON without loss. -/

namespace PolicyReview

inductive PolicyValue where
  | null
  | bool (value : Bool)
  | number (value : Number)
  | string (value : String)
  | list (items : List PolicyValue)
  | map (entries : List (String × PolicyValue))
  deriving Repr, Inhabited

/-- Entries in ascending order of their keys, each key once. -/
abbrev PolicyMap := List (String × PolicyValue)

namespace PolicyMap

def insert (key : String) (value : PolicyValue) : PolicyMap → PolicyMap
  | [] => [(key, value)]
  | (other, old) :: rest =>
    if key < other then (key, value) :: (other, old) :: rest
    else if key = other then (key, value) :: rest
    else (other, old) :: insert key value rest

end PolicyMap

namespace PolicyValue

mutual

def ofJson : Json → PolicyValue
  | .null => .null
  | .bool value => .bool value
  | .number value => .number value
  | .string value => .string value
  | .array items => .list (ofItems items)
  | .object fields => .map (ofFields fields)

def ofItems : List Json → List PolicyValue
  | [] => []
  | item :: rest => ofJson item :: ofItems rest

def ofFields : Json.Fields → PolicyMap
  | [] => []
  | (name, value) :: rest => (name, ofJson value) :: ofFields rest

end

mutual

def toJson : PolicyValue → Json
  | .null => .null
  | .bool value => .bool value
  | .number value => .number value
  | .string value => .string value
  | .list items => .array (itemsToJson items)
  | .map entries => .object (mapToJson entries)

def itemsToJson : List PolicyValue → List Json
  | [] => []
  | item :: rest => toJson item :: itemsToJson rest

def mapToJson : PolicyMap → Json.Fields
  | [] => []
  | (key, value) :: rest => (key, toJson value) :: mapToJson rest

end

/-- The entries of a map in order of insertion, sorted and each key kept once. -/
def mapOf (entries : List (String × PolicyValue)) : PolicyValue :=
  .map (entries.foldl (fun sorted (key, value) => PolicyMap.insert key value sorted) [])

mutual

/-- Decodes a value whose kind is not announced: the first kind that fits is taken, in the order
of the constructors. A list or a map fits when all that it holds decodes. -/
def decode? : Json → Option PolicyValue
  | .null => some .null
  | .bool value => some (.bool value)
  | .number value => some (.number value)
  | .string value => some (.string value)
  | .array items => (decodeItems? items).map .list
  | .object fields => (decodeFields? fields).map mapOf

def decodeItems? : List Json → Option (List PolicyValue)
  | [] => some []
  | item :: rest =>
    match decode? item, decodeItems? rest with
    | some item, some rest => some (item :: rest)
    | _, _ => none

def decodeFields? : Json.Fields → Option (List (String × PolicyValue))
  | [] => some []
  | (name, value) :: rest =>
    match decode? value, decodeFields? rest with
    | some value, some rest => some ((name, value) :: rest)
    | _, _ => none

end

mutual

def same : PolicyValue → PolicyValue → Bool
  | .null, .null => true
  | .bool a, .bool b => a == b
  | .number a, .number b => a.same b
  | .string a, .string b => a == b
  | .list a, .list b => sameItems a b
  | .map a, .map b => sameEntries a b
  | _, _ => false

def sameItems : List PolicyValue → List PolicyValue → Bool
  | [], [] => true
  | a :: as, b :: bs => same a b && sameItems as bs
  | _, _ => false

def sameEntries : PolicyMap → PolicyMap → Bool
  | [], [] => true
  | (k, a) :: as, (l, b) :: bs => k == l && same a b && sameEntries as bs
  | _, _ => false

end

mutual

/-- The text of a value, written from the tree itself. -/
def chars : PolicyValue → List Char
  | .null => ['n', 'u', 'l', 'l']
  | .bool true => ['t', 'r', 'u', 'e']
  | .bool false => ['f', 'a', 'l', 's', 'e']
  | .number value => value.text
  | .string value => Json.quote value
  | .list items => '[' :: itemChars items ++ [']']
  | .map entries => '{' :: entryChars entries ++ ['}']

def itemChars : List PolicyValue → List Char
  | [] => []
  | [item] => chars item
  | item :: rest => chars item ++ ',' :: itemChars rest

def entryChars : PolicyMap → List Char
  | [] => []
  | [(key, value)] => Json.quote key ++ ':' :: chars value
  | (key, value) :: rest => Json.quote key ++ ':' :: chars value ++ ',' :: entryChars rest

end

def render (value : PolicyValue) : String := String.ofList value.chars

def map? : PolicyValue → Option PolicyMap
  | .map entries => some entries
  | _ => none

def string? : PolicyValue → Option String
  | .string text => some text
  | _ => none

def stringMap (entries : List (String × String)) : PolicyValue :=
  .map (entries.map fun (key, value) => (key, .string value))

end PolicyValue

end PolicyReview
