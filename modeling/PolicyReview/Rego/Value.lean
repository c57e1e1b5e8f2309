import PolicyReview.Json.Text

/-! Values of policies: those of JSON, and sets. A set holds its items and an object its keys in
ascending order, each once. The order of values is null, booleans, numbers, texts, arrays,
sets, objects; within a kind it is the order of the contents, from the first on. -/

namespace PolicyReview.Rego

inductive Value where
  | null
  | bool (value : Bool)
  | number (value : Number)
  | string (value : String)
  | array (items : List Value)
  | set (items : List Value)
  | object (entries : List (Value × Value))
  deriving Repr, Inhabited

namespace Value

def rank : Value → Nat
  | .null => 0
  | .bool _ => 1
  | .number _ => 2
  | .string _ => 3
  | .array _ => 4
  | .set _ => 5
  | .object _ => 6

mutual

def order : Value → Value → Ordering
  | .bool a, .bool b => compare a b
  | .number a, .number b => a.order b
  | .string a, .string b => compare a b
  | .array a, .array b => orderItems a b
  | .set a, .set b => orderItems a b
  | .object a, .object b => orderEntries a b
  | a, b => compare a.rank b.rank

def orderItems : List Value → List Value → Ordering
  | [], [] => .eq
  | [], _ :: _ => .lt
  | _ :: _, [] => .gt
  | a :: as, b :: bs => (order a b).then (orderItems as bs)

def orderEntries : List (Value × Value) → List (Value × Value) → Ordering
  | [], [] => .eq
  | [], _ :: _ => .lt
  | _ :: _, [] => .gt
  | (m, a) :: as, (n, b) :: bs => (order m n).then ((order a b).then (orderEntries as bs))

end

def same (a b : Value) : Bool := a.order b == .eq

/-- Puts an item into an ascending list that does not hold it yet. -/
def insertItem (item : Value) : List Value → List Value
  | [] => [item]
  | other :: rest =>
    match item.order other with
    | .lt => item :: other :: rest
    | .eq => other :: rest
    | .gt => other :: insertItem item rest

/-- Puts an entry into an ascending list, in place of one that has its key. -/
def insertEntry (key value : Value) : List (Value × Value) → List (Value × Value)
  | [] => [(key, value)]
  | (other, old) :: rest =>
    match key.order other with
    | .lt => (key, value) :: (other, old) :: rest
    | .eq => (key, value) :: rest
    | .gt => (other, old) :: insertEntry key value rest

def ofItems (items : List Value) : Value :=
  .set (items.foldl (fun items item => insertItem item items) [])

def ofEntries (entries : List (Value × Value)) : Value :=
  .object (entries.foldl (fun entries (key, value) => insertEntry key value entries) [])

/-- The items of a list, each once, in the order in which they come first. -/
def distinct (items : List Value) : List Value :=
  items.foldl (fun kept item => if kept.any (item.same ·) then kept else kept ++ [item]) []

def nat (n : Nat) : Value := .number (.int n)

def ofNumber (n : Number) : Value :=
  let (numerator, denominator) := n.ratio
  if n.isWhole ∧ Number.fitsWord (numerator / denominator) then
    .number (.int (numerator / denominator))
  else .number n

def isTrue (value : Value) : Bool :=
  match value with
  | .bool value => value
  | _ => false

def holds (value : Value) : Bool :=
  match value with
  | .bool value => value
  | _ => true

/-- The keys of a collection with their values; the items of a set are their own keys. -/
def elements? : Value → Option (List (Value × Value))
  | .array items => some (items.zipIdx.map fun (item, index) => (nat index, item))
  | .set items => some (items.map fun item => (item, item))
  | .object entries => some entries
  | _ => none

def index? (collection key : Value) : Option Value :=
  (collection.elements?.getD []).findSome? fun (other, value) =>
    if other.same key then some value else none

def contains (collection item : Value) : Bool :=
  (collection.elements?.getD []).any fun (_, value) => value.same item

/-! Texts. -/

def numberText : Number → List Char
  | .int n => Number.intText n
  | .float x =>
    if x.isZero then ['0']
    else
      let (significand, exponent) := x.shortest
      let digits := Nat.toDigits 10 significand
      let sign := if x.isNegative then ['-'] else []
      if 0 ≤ exponent then sign ++ digits ++ List.replicate exponent.toNat '0'
      else
        let places := (-exponent).toNat
        let padded := List.replicate (places + 1 - digits.length) '0' ++ digits
        sign ++ padded.take (padded.length - places) ++ ['.'] ++
          padded.drop (padded.length - places)

def enclosed (first last : Char) (text : List Char) : List Char := first :: text ++ [last]

mutual

def innerText : Value → List Char
  | .null => "null".toList
  | .bool value => (toString value).toList
  | .number n => numberText n
  | .string text => (Json.quoted text).toList
  | .array items => enclosed '[' ']' (itemsText items)
  | .set items => enclosed '{' '}' (itemsText items)
  | .object entries => enclosed '{' '}' (entriesText entries)

def itemsText : List Value → List Char
  | [] => []
  | [item] => innerText item
  | item :: rest => innerText item ++ [',', ' '] ++ itemsText rest

def entriesText : List (Value × Value) → List Char
  | [] => []
  | [(key, value)] => innerText key ++ [':', ' '] ++ innerText value
  | (key, value) :: rest =>
    innerText key ++ [':', ' '] ++ innerText value ++ [',', ' '] ++ entriesText rest

end

def text (value : Value) : List Char :=
  match value with
  | .string text => text.toList
  | value => value.innerText

/-! JSON. -/

mutual

def ofJson : Json → Value
  | .null => .null
  | .bool value => .bool value
  | .number n => ofNumber n
  | .string text => .string text
  | .array items => .array (ofJsonItems items)
  | .object fields => .object (ofJsonFields fields)

def ofJsonItems : List Json → List Value
  | [] => []
  | item :: rest => ofJson item :: ofJsonItems rest

def ofJsonFields : Json.Fields → List (Value × Value)
  | [] => []
  | (name, value) :: rest => (.string name, ofJson value) :: ofJsonFields rest

end

mutual

/-- Sets become arrays, and keys that are no texts become the texts of their JSON. -/
def toJson : Value → Json
  | .null => .null
  | .bool value => .bool value
  | .number n => .number n
  | .string text => .string text
  | .array items => .array (toJsonItems items)
  | .set items => .array (toJsonItems items)
  | .object entries => Json.ofEntries (toJsonEntries entries)

def toJsonItems : List Value → List Json
  | [] => []
  | item :: rest => toJson item :: toJsonItems rest

def toJsonEntries : List (Value × Value) → List (String × Json)
  | [] => []
  | (key, value) :: rest =>
    let name := match toJson key with
      | .string name => name
      | other => other.render
    (name, toJson value) :: toJsonEntries rest

end

end Value

end PolicyReview.Rego
