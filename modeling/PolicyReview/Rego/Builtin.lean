import PolicyReview.Rego.Value

/-! Built-in functions. An argument of a kind that a function does not take is a fault, and so is
a format that does not fit its arguments; the tests of a kind take every argument. -/

namespace PolicyReview.Rego

inductive Fault where
  | badArgument (function : String)
  | unknownFunction (function : String)
  | conflict (path : List String)
  | recursion (path : List String)
  | notCollection
  | unsafeName
  deriving DecidableEq, Repr

inductive Builtin where
  | count
  | concat
  | sprintf
  | startsWith
  | endsWith
  | isString
  | isObject
  deriving DecidableEq, Repr

namespace Builtin

def all : List Builtin := [count, concat, sprintf, startsWith, endsWith, isString, isObject]

def name : Builtin → String
  | count => "count"
  | concat => "concat"
  | sprintf => "sprintf"
  | startsWith => "startswith"
  | endsWith => "endswith"
  | isString => "is_string"
  | isObject => "is_object"

def ofName? (name : String) : Option Builtin := all.find? (·.name = name)

def text? : Value → Option (List Char)
  | .string text => some text.toList
  | _ => none

def size? : Value → Option Nat
  | .string text => some text.length
  | value => value.elements?.map List.length

def texts? : Value → Option (List (List Char))
  | .array items => items.mapM text?
  | .set items => items.mapM text?
  | _ => none

/-- What a verb makes of an argument: `v` takes every value, `s` texts and `d` integers. -/
def formatted? (verb : Char) (argument : Value) : Option (List Char) :=
  match verb, argument with
  | 'v', value => some value.text
  | 's', .string text => some text.toList
  | 'd', .number (.int n) => some (Number.intText n)
  | _, _ => none

/-- Fills the verbs of a format; each takes the next argument and none is left over. -/
def format? : List Char → List Value → Option (List Char)
  | [], [] => some []
  | [], _ :: _ => none
  | '%' :: '%' :: rest, arguments => (format? rest arguments).map ('%' :: ·)
  | '%' :: verb :: rest, argument :: arguments => do
    let text ← formatted? verb argument
    let later ← format? rest arguments
    return text ++ later
  | c :: rest, arguments => if c = '%' then none else (format? rest arguments).map (c :: ·)

def ofText (text : List Char) : Value := .string (String.ofList text)

def value? : Builtin → List Value → Option Value
  | count, [collection] => (size? collection).map Value.nat
  | concat, [.string delimiter, collection] =>
    (texts? collection).map fun texts => ofText (List.intercalate delimiter.toList texts)
  | sprintf, [.string format, .array arguments] => (format? format.toList arguments).map ofText
  | startsWith, [.string text, .string start] =>
    some (.bool (start.toList.isPrefixOf text.toList))
  | endsWith, [.string text, .string finish] =>
    some (.bool (finish.toList.isSuffixOf text.toList))
  | isString, [.string _] => some (.bool true)
  | isString, [_] => some (.bool false)
  | isObject, [.object _] => some (.bool true)
  | isObject, [_] => some (.bool false)
  | _, _ => none

def apply (builtin : Builtin) (arguments : List Value) : Except Fault Value :=
  match builtin.value? arguments with
  | some value => .ok value
  | none => .error (.badArgument builtin.name)

end Builtin

end PolicyReview.Rego
