import PolicyReview.Number

/-! JSON values. An object is a list of fields in ascending order of their names, each name
once; `insertField` keeps that order and replaces a field that is already there, so the last
of several fields of one name wins. -/

namespace PolicyReview

inductive Json where
  | null
  | bool (value : Bool)
  | number (value : Number)
  | string (value : String)
  | array (items : List Json)
  | object (fields : List (String × Json))
  deriving Repr, Inhabited

namespace Json

abbrev Fields := List (String × Json)

def insertField (name : String) (value : Json) : Fields → Fields
  | [] => [(name, value)]
  | (other, old) :: rest =>
    if name < other then (name, value) :: (other, old) :: rest
    else if name = other then (name, value) :: rest
    else (other, old) :: insertField name value rest

/-- The fields of a list of entries, later entries replacing earlier ones. -/
def fieldsOf (entries : List (String × Json)) : Fields :=
  entries.foldl (fun fields (name, value) => insertField name value fields) []

def ofEntries (entries : List (String × Json)) : Json := .object (fieldsOf entries)

def int (n : Int) : Json := .number (.int n)

def nat (n : Nat) : Json := int n

def strings (texts : List String) : Json := .array (texts.map .string)

def field? (name : String) : Json → Option Json
  | .object fields => fields.lookup name
  | _ => none

def string? : Json → Option String
  | .string text => some text
  | _ => none

def array? : Json → Option (List Json)
  | .array items => some items
  | _ => none

def object? : Json → Option Fields
  | .object fields => some fields
  | _ => none

def isNull : Json → Bool
  | .null => true
  | _ => false

/-- A field that holds a string, empty when there is none. -/
def textField (name : String) (value : Json) : String :=
  ((value.field? name).bind string?).getD ""

def stringFields? (fields : Fields) : Option (List (String × String)) :=
  fields.mapM fun (name, value) => value.string?.map (name, ·)

mutual

/-- Equality that keeps integers and binary numbers apart. -/
def same : Json → Json → Bool
  | .null, .null => true
  | .bool a, .bool b => a == b
  | .number a, .number b => a.same b
  | .string a, .string b => a == b
  | .array a, .array b => sameItems a b
  | .object a, .object b => sameFields a b
  | _, _ => false

def sameItems : List Json → List Json → Bool
  | [], [] => true
  | a :: as, b :: bs => same a b && sameItems as bs
  | _, _ => false

def sameFields : Fields → Fields → Bool
  | [], [] => true
  | (m, a) :: as, (n, b) :: bs => m == n && same a b && sameFields as bs
  | _, _ => false

end

mutual

def alike : Json → Json → Bool
  | .null, .null => true
  | .bool a, .bool b => a == b
  | .number a, .number b => a.order b == .eq
  | .string a, .string b => a == b
  | .array a, .array b => alikeItems a b
  | .object a, .object b => alikeFields a b
  | _, _ => false

def alikeItems : List Json → List Json → Bool
  | [], [] => true
  | a :: as, b :: bs => alike a b && alikeItems as bs
  | _, _ => false

def alikeFields : Fields → Fields → Bool
  | [], [] => true
  | (m, a) :: as, (n, b) :: bs => m == n && alike a b && alikeFields as bs
  | _, _ => false

end

mutual

/-- The number of values in a tree. -/
def size : Json → Nat
  | .array items => 1 + sizeItems items
  | .object fields => 1 + sizeFields fields
  | _ => 1

def sizeItems : List Json → Nat
  | [] => 0
  | item :: rest => size item + sizeItems rest

def sizeFields : Fields → Nat
  | [] => 0
  | (_, value) :: rest => size value + sizeFields rest

end

end Json

end PolicyReview
