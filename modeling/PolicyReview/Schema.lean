import PolicyReview.Json.Text
import PolicyReview.Json.Pointer
import PolicyReview.Pattern.Reader

/-! Validity of JSON values under JSON schemas. A schema is itself a JSON value, read by the
rules of one of two drafts; validation returns every violation with the place of the
offending value. The number of nested schemas visited is bounded by fuel, and a validation
that runs out of it fails. -/

namespace PolicyReview

namespace Schema

/-- The rules by which a schema is read. Draft 4 takes `1.0` for no integer, has booleans for
the exclusive bounds and ignores what stands beside a reference. -/
inductive Draft where
  | four
  | twentyTwenty
  deriving DecidableEq, Repr

inductive Fault where
  | type (value : Json) (types : List String)
  | oneOfValues (value : Json) (options : List Json)
  | constant (expected : Json)
  | multiple (value : Json) (divisor : Number)
  | below (value : Json) (limit : Number)
  | above (value : Json) (limit : Number)
  | notAbove (value : Json) (limit : Number)
  | notBelow (value : Json) (limit : Number)
  | shorter (value : Json) (limit : Nat)
  | longer (value : Json) (limit : Nat)
  | pattern (value : Json) (source : String)
  | fewItems (value : Json) (limit : Nat)
  | manyItems (value : Json) (limit : Nat)
  | repeatedItems (value : Json)
  | unexpectedItems (items : List Json)
  | fewProperties (value : Json) (limit : Nat)
  | manyProperties (value : Json) (limit : Nat)
  | unexpectedProperties (names : List String)
  | missing (name : String)
  | noAlternative (value : Json)
  | noChoice (value : Json)
  | severalChoices (value : Json)
  | excluded (schema value : Json)
  | never (value : Json)
  | format (value : Json) (name : String)
  deriving Repr

structure Violation where
  steps : List String
  fault : Fault
  deriving Repr

def Violation.under (step : String) (violation : Violation) : Violation :=
  { violation with steps := step :: violation.steps }

def counted (count : Nat) (one many : String) : String :=
  toString count ++ " " ++ (if count = 1 then one else many)

def listText (options : List Json) : String :=
  match options with
  | [] => ""
  | [a] => a.render
  | [a, b] => a.render ++ " or " ++ b.render
  | [a, b, c] => a.render ++ ", " ++ b.render ++ " or " ++ c.render
  | a :: b :: rest =>
    a.render ++ ", " ++ b.render ++ " or " ++ toString rest.length ++ " other candidates"

def unexpectedText (kind : String) (names : List String) : String :=
  "Additional " ++ kind ++ " are not allowed (" ++ String.intercalate ", " names ++
    (if names.length = 1 then " was unexpected)" else " were unexpected)")

def numberText (number : Number) : String := String.ofList number.text

def Fault.message : Fault → String
  | type value [name] => value.render ++ " is not of type " ++ Json.quoted name
  | type value names => value.render ++ " is not of types " ++
      String.intercalate ", " (names.map Json.quoted)
  | oneOfValues value options => value.render ++ " is not one of " ++ listText options
  | constant expected => expected.render ++ " was expected"
  | multiple value divisor => value.render ++ " is not a multiple of " ++ numberText divisor
  | below value limit => value.render ++ " is less than the minimum of " ++ numberText limit
  | above value limit => value.render ++ " is greater than the maximum of " ++ numberText limit
  | notAbove value limit =>
    value.render ++ " is less than or equal to the minimum of " ++ numberText limit
  | notBelow value limit =>
    value.render ++ " is greater than or equal to the maximum of " ++ numberText limit
  | shorter value limit =>
    value.render ++ " is shorter than " ++ counted limit "character" "characters"
  | longer value limit =>
    value.render ++ " is longer than " ++ counted limit "character" "characters"
  | .pattern value source => value.render ++ " does not match \"" ++ source ++ "\""
  | fewItems value limit => value.render ++ " has less than " ++ counted limit "item" "items"
  | manyItems value limit => value.render ++ " has more than " ++ counted limit "item" "items"
  | repeatedItems value => value.render ++ " has non-unique elements"
  | unexpectedItems items => unexpectedText "items" (items.map Json.render)
  | fewProperties value limit =>
    value.render ++ " has less than " ++ counted limit "property" "properties"
  | manyProperties value limit =>
    value.render ++ " has more than " ++ counted limit "property" "properties"
  | unexpectedProperties names =>
    unexpectedText "properties" (names.map fun name => "'" ++ name ++ "'")
  | missing name => Json.quoted name ++ " is a required property"
  | noAlternative value =>
    value.render ++ " is not valid under any of the schemas listed in the 'anyOf' keyword"
  | noChoice value =>
    value.render ++ " is not valid under any of the schemas listed in the 'oneOf' keyword"
  | severalChoices value =>
    value.render ++ " is valid under more than one of the schemas listed in the 'oneOf' keyword"
  | excluded schema value => schema.render ++ " is not allowed for " ++ value.render
  | never value => "False schema does not allow " ++ value.render
  | .format value name => value.render ++ " is not a \"" ++ name ++ "\""

structure Report where
  place : String
  text : String
  deriving DecidableEq, Repr

/-- The pointer to the whole instance is written as a slash. -/
def Report.message (report : Report) : String :=
  (if report.place = "" then "/" else report.place) ++ ": " ++ report.text

def Violation.report (violation : Violation) : Report :=
  ⟨Json.pointerText violation.steps, violation.fault.message⟩

def Violation.message (violation : Violation) : String := violation.report.message

def here (fault : Fault) : List Violation := [⟨[], fault⟩]

def check (holds : Bool) (fault : Fault) : List Violation := if holds then [] else here fault

def hasType (draft : Draft) (name : String) (value : Json) : Bool :=
  match name, value with
  | "null", .null => true
  | "boolean", .bool _ => true
  | "number", .number _ => true
  | "integer", .number number =>
    match draft with
    | .four => number.isInt
    | .twentyTwenty => number.isWhole
  | "string", .string _ => true
  | "array", .array _ => true
  | "object", .object _ => true
  | _, _ => false

def typeNames : List String :=
  ["array", "boolean", "integer", "null", "number", "object", "string"]

def typesOf : Json → List String
  | .string name => [name]
  | .array items =>
    let names := items.filterMap Json.string?
    typeNames.filter (names.contains ·)
  | _ => []

/-- Divisibility as it is tested: by remainder for a whole divisor, and for any other by the
fraction of the rounded quotient, which has to stay below the distance from one to the next
number. A quotient out of range is divided exactly. -/
def isMultiple (value divisor : Number) : Bool :=
  let exact : Bool :=
    let (vn, vd) := value.ratio
    let (dn, dd) := divisor.ratio
    dn != 0 && (vn * dd) % (dn * vd) == 0
  if divisor.isInt || divisor.isWhole then exact
  else
    match value.toBinary64.divide? divisor.toBinary64 with
    | none => exact
    | some quotient =>
      let (num, den) := quotient.ratio
      quotient.isNegative || num % den * Nat.pow 2 52 < den

def nat? : Json → Option Nat
  | .number number =>
    let (num, den) := number.ratio
    if 0 ≤ num ∧ num % den = 0 then some (num / den).toNat else none
  | _ => none

def number? : Json → Option Number
  | .number number => some number
  | _ => none

def allDistinct : List Json → Bool
  | [] => true
  | item :: rest => rest.all (fun other => !item.alike other) && allDistinct rest

def isTrue : Json → Bool
  | .bool value => value
  | _ => false

def marked (draft : Draft) (name : String) (fields : Json.Fields) : Bool :=
  match draft with
  | .four => ((fields.lookup name).map isTrue).getD false
  | .twentyTwenty => false

abbrev Validator := Json → Json → List Violation

def accepts (validate : Validator) (schema value : Json) : Bool := (validate schema value).isEmpty

def validateItems (validate : Validator) (schema : Json) (start : Nat) (items : List Json) :
    List Violation :=
  (items.zipIdx start).flatMap fun (item, index) =>
    (validate schema item).map (Violation.under (toString index))

def validateTuple (validate : Validator) (schemas items : List Json) : List Violation :=
  ((schemas.zip items).zipIdx).flatMap fun ((schema, item), index) =>
    (validate schema item).map (Violation.under (toString index))

def uncovered (fields properties : Json.Fields) : Json.Fields :=
  let named := ((fields.lookup "properties").bind Json.object?).getD []
  let patterns := (((fields.lookup "patternProperties").bind Json.object?).getD []).filterMap
    fun (pattern, _) => Pattern.read? pattern
  properties.filter fun (name, _) =>
    (named.lookup name).isNone && !patterns.any (·.isIn name)

/-- A refusal of all other properties names them; where the schema covers none to begin with,
the first one is refused by its value instead. -/
def validateAdditional (validate : Validator) (fields : Json.Fields) (argument : Json)
    (properties : Json.Fields) : List Violation :=
  let others := uncovered fields properties
  match argument with
  | .bool false =>
    match others with
    | [] => []
    | (_, value) :: _ =>
      if (fields.lookup "properties").isNone && (fields.lookup "patternProperties").isNone then
        here (.never value)
      else here (.unexpectedProperties (others.map (·.1)))
  | .bool true => []
  | schema => others.flatMap fun (name, value) =>
      (validate schema value).map (Violation.under name)

def validateDependency (validate : Validator) (properties : Json.Fields) (value : Json) :
    String × Json → List Violation
  | (name, argument) =>
    if (properties.lookup name).isNone then []
    else
      match argument with
      | .array names => (names.filterMap Json.string?).flatMap fun needed =>
          check (properties.lookup needed).isSome (.missing needed)
      | schema => validate schema value

def validateKeyword (draft : Draft) (validate : Validator) (fields : Json.Fields)
    (keyword : String) (argument value : Json) : List Violation :=
  match keyword, value with
  | "type", _ =>
    let types := typesOf argument
    check (types.any (hasType draft · value)) (.type value types)
  | "enum", _ =>
    let options := argument.array?.getD []
    check (options.any (·.alike value)) (.oneOfValues value options)
  | "const", _ =>
    match draft with
    | .four => []
    | .twentyTwenty => check (argument.alike value) (.constant argument)
  | "multipleOf", .number number =>
    match number? argument with
    | some divisor => check (isMultiple number divisor) (.multiple value divisor)
    | none => []
  | "minimum", .number number =>
    match number? argument with
    | some limit =>
      if marked draft "exclusiveMinimum" fields then
        check (number.order limit == .gt) (.notAbove value limit)
      else check (number.order limit != .lt) (.below value limit)
    | none => []
  | "maximum", .number number =>
    match number? argument with
    | some limit =>
      if marked draft "exclusiveMaximum" fields then
        check (number.order limit == .lt) (.notBelow value limit)
      else check (number.order limit != .gt) (.above value limit)
    | none => []
  | "exclusiveMinimum", .number number =>
    match draft, number? argument with
    | .twentyTwenty, some limit => check (number.order limit == .gt) (.notAbove value limit)
    | _, _ => []
  | "exclusiveMaximum", .number number =>
    match draft, number? argument with
    | .twentyTwenty, some limit => check (number.order limit == .lt) (.notBelow value limit)
    | _, _ => []
  | "minLength", .string text =>
    match nat? argument with
    | some limit => check (limit ≤ text.length) (.shorter value limit)
    | none => []
  | "maxLength", .string text =>
    match nat? argument with
    | some limit => check (text.length ≤ limit) (.longer value limit)
    | none => []
  | "pattern", .string text =>
    match argument.string?.bind fun source => (Pattern.read? source).map (source, ·) with
    | some (source, pattern) => check (pattern.isIn text) (.pattern value source)
    | none => []
  | "minItems", .array items =>
    match nat? argument with
    | some limit => check (limit ≤ items.length) (.fewItems value limit)
    | none => []
  | "maxItems", .array items =>
    match nat? argument with
    | some limit => check (items.length ≤ limit) (.manyItems value limit)
    | none => []
  | "uniqueItems", .array items =>
    check (!isTrue argument || allDistinct items) (.repeatedItems value)
  | "items", .array items =>
    match argument with
    | .array schemas => validateTuple validate schemas items
    | schema => validateItems validate schema 0 items
  | "additionalItems", .array items =>
    match draft, fields.lookup "items" with
    | .four, some (.array schemas) =>
      match items.drop schemas.length, argument with
      | [], _ => []
      | rest, .bool false => here (.unexpectedItems rest)
      | _, .bool true => []
      | rest, schema => validateItems validate schema schemas.length rest
    | _, _ => []
  | "minProperties", .object properties =>
    match nat? argument with
    | some limit => check (limit ≤ properties.length) (.fewProperties value limit)
    | none => []
  | "maxProperties", .object properties =>
    match nat? argument with
    | some limit => check (properties.length ≤ limit) (.manyProperties value limit)
    | none => []
  | "required", .object properties =>
    ((argument.array?.getD []).filterMap Json.string?).flatMap fun name =>
      check (properties.lookup name).isSome (.missing name)
  | "properties", .object properties =>
    (argument.object?.getD []).flatMap fun (name, schema) =>
      match properties.lookup name with
      | some member => (validate schema member).map (Violation.under name)
      | none => []
  | "patternProperties", .object properties =>
    (argument.object?.getD []).flatMap fun (source, schema) =>
      match Pattern.read? source with
      | some pattern => (properties.filter fun (name, _) => pattern.isIn name).flatMap
          fun (name, member) => (validate schema member).map (Violation.under name)
      | none => []
  | "additionalProperties", .object properties =>
    validateAdditional validate fields argument properties
  | "dependencies", .object properties =>
    (argument.object?.getD []).flatMap (validateDependency validate properties value)
  | "allOf", _ => (argument.array?.getD []).flatMap fun schema => validate schema value
  | "anyOf", _ =>
    check ((argument.array?.getD []).any (accepts validate · value)) (.noAlternative value)
  | "oneOf", _ =>
    match (argument.array?.getD []).filter (accepts validate · value) with
    | [] => here (.noChoice value)
    | [_] => []
    | _ => here (.severalChoices value)
  | "not", _ => check (!accepts validate argument value) (.excluded argument value)
  | "format", .string text =>
    check (argument.string? != some "regex" || (Pattern.read? text).isSome) (.format value "regex")
  | _, _ => []

def percentDecode : List Char → List Char
  | '%' :: a :: b :: rest =>
    match Pattern.hexNat? [a, b] with
    | some n => if n < 128 then Char.ofNat n :: percentDecode rest
        else '%' :: a :: b :: percentDecode rest
    | none => '%' :: a :: b :: percentDecode rest
  | c :: rest => c :: percentDecode rest
  | [] => []

def referencePointer? (reference : String) : Option String :=
  match reference.toList with
  | '#' :: pointer => some (String.ofList (percentDecode pointer))
  | _ => none

def resolve? (root : Json) (reference : String) : Option Json :=
  (referencePointer? reference).bind (root.pointer? ·)

/-- The keywords of a schema in the order in which they are checked: by name, except that
dependencies come last. -/
def ordered (fields : Json.Fields) : Json.Fields :=
  fields.filter (·.1 ≠ "dependencies") ++ fields.filter (·.1 = "dependencies")

def effective (draft : Draft) (fields : Json.Fields) : Json.Fields :=
  match draft, (fields.lookup "$ref").bind Json.string? with
  | .four, some _ => fields.filter (·.1 = "$ref")
  | _, _ => ordered fields

/-- Every violation of a schema by a value. References are resolved in `root`. -/
def violations (draft : Draft) (root : Json) : Nat → Json → Json → List Violation
  | 0, _, value => here (.never value)
  | fuel + 1, schema, value =>
    let validate := violations draft root fuel
    match schema with
    | .bool true => []
    | .bool false => here (.never value)
    | .object fields => (effective draft fields).flatMap fun (keyword, argument) =>
      match keyword with
      | "$ref" =>
        match argument.string?.bind (resolve? root) with
        | some target => validate target value
        | none => []
      | _ => validateKeyword draft validate fields keyword argument value
    | _ => []

/-- Enough fuel for every schema whose references make progress: between two steps into the
value no schema is visited twice. -/
def enough (root value : Json) : Nat := (root.size + 1) * (value.size + 1)

def validate (draft : Draft) (schema value : Json) : List Violation :=
  violations draft schema (enough schema value) schema value

def isValid (draft : Draft) (schema value : Json) : Bool := (validate draft schema value).isEmpty

end Schema

end PolicyReview
