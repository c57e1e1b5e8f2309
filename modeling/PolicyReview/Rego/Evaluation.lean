import PolicyReview.Rego.Arrangement
import PolicyReview.Rego.Builtin

/-! Evaluation of programs. What is undefined has no solution: an expression is evaluated to its
solutions, each one an environment and what the expression stands for in it, and a body to the
environments in which all of its conditions hold. A fault anywhere ends the evaluation. -/

namespace PolicyReview.Rego

abbrev Env := List (String × Value)

/-- What an expression stands for: a value, or a path of data at which no rule lies yet. -/
inductive Place where
  | value (value : Value)
  | branch (path : List String)
  deriving Repr

abbrev Solutions := List (Env × Place)

namespace Env

def bind (name : String) (value : Value) (env : Env) : Env :=
  if name = wildcard then env else (name, value) :: env

end Env

/-- What there is to evaluate with: the program, the module at hand, the input, and the values
of rules, which for functions depend on arguments. -/
structure Scope where
  program : Program
  module : Module
  input : Value
  valueAt : List String → Option (List Value) → Except Fault (Option Value)

def collect {α β : Type} (f : α → Except Fault (List β)) : List α → Except Fault (List β)
  | [] => .ok []
  | item :: rest => do
    let first ← f item
    let later ← collect f rest
    return first ++ later

namespace Place

def value? : Place → Option Value
  | .value found => some found
  | .branch _ => none

def holds : Place → Bool
  | .value found => found.holds
  | .branch _ => true

def elements : Place → List (Value × Value)
  | .value found => found.elements?.getD []
  | .branch _ => []

end Place

namespace Scope

variable (scope : Scope)

def dataPlace (path : List String) : Except Fault (Option Place) :=
  if scope.program.defines path then (scope.valueAt path none).map (·.map .value)
  else if scope.program.hasBranch path then .ok (some (.branch path))
  else .ok none

def step (place : Place) (key : Value) : Except Fault (Option Place) :=
  match place, key with
  | .value collection, key => .ok ((collection.index? key).map .value)
  | .branch path, .string name => scope.dataPlace (path ++ [name])
  | .branch _, _ => .ok none

def walk (place : Place) : List String → Except Fault (Option Place)
  | [] => .ok (some place)
  | name :: rest => do
    match ← scope.step place (.string name) with
    | some next => walk next rest
    | none => return none

def find (env : Env) (name : String) : Except Fault (Option Place) :=
  match env.lookup name with
  | some value => .ok (some (.value value))
  | none =>
    match scope.program.globalPath? scope.module name with
    | some (root :: path) =>
      scope.walk (if root = "input" then .value scope.input else .branch []) path
    | _ => .error .unsafeName

def openName? (env : Env) : Expr → Option String
  | .name text =>
    if (env.lookup text).isSome || (scope.program.globalPath? scope.module text).isSome then none
    else some text
  | _ => none

def functionPath? (function : List String) : Option (List String) :=
  match function with
  | [] => none
  | name :: rest =>
    match scope.program.globalPath? scope.module name with
    | some ("data" :: path) =>
      if scope.program.defines (path ++ rest) then some (path ++ rest) else none
    | _ => none

def callee (function : List String) : Except Fault (List Value → Except Fault (Option Value)) :=
  match scope.functionPath? function with
  | some path => .ok fun arguments => scope.valueAt path (some arguments)
  | none =>
    let name := String.intercalate "." function
    match Builtin.ofName? name with
    | some builtin => .ok fun arguments => (builtin.apply arguments).map some
    | none => .error (.unknownFunction name)

mutual

def solve (env : Env) : Expr → Except Fault Solutions
  | .literal value => .ok [(env, .value value)]
  | .name text => do
    let place ← scope.find env text
    return place.toList.map (env, ·)
  | .reference base path => do
    let places ← solve env base
    follow path places
  | .call function arguments => do
    let call ← scope.callee function
    let rows ← solveItems env arguments
    collect (fun (env, values) => do
      let value ← call values
      return value.toList.map fun value => (env, .value value)) rows
  | .array items => do
    let rows ← solveItems env items
    return rows.map fun (env, values) => (env, .value (.array values))
  | .set items => do
    let rows ← solveItems env items
    return rows.map fun (env, values) => (env, .value (.ofItems values))
  | .object entries => do
    let rows ← solveEntries env entries
    return rows.map fun (env, entries) => (env, .value (.ofEntries entries))
  | .compare comparison left right => do
    let lefts ← solve env left
    collect (fun (env, a) => do
      let rights ← solve env right
      return rights.filterMap fun (env, b) => do
        let a ← a.value?
        let b ← b.value?
        return (env, .value (.bool (comparison.holds (a.order b))))) lefts
  | .member item collection => do
    let found ← solve env item
    collect (fun (env, item) => do
      let collections ← solve env collection
      return collections.filterMap fun (env, collection) => do
        let item ← item.value?
        let collection ← collection.value?
        return (env, .value (.bool (collection.contains item)))) found
  | .memberAt key item collection => do
    let keys ← solve env key
    collect (fun (env, key) => do
      let found ← solve env item
      collect (fun (env, item) => do
        let collections ← solve env collection
        return collections.filterMap fun (env, collection) => do
          let key ← key.value?
          let item ← item.value?
          let collection ← collection.value?
          return (env, .value (.bool ((collection.index? key).any (·.same item))))) found) keys

def solveItems (env : Env) : List Expr → Except Fault (List (Env × List Value))
  | [] => .ok [(env, [])]
  | item :: rest => do
    let firsts ← solve env item
    collect (fun (env, place) =>
      match place with
      | .branch _ => .ok []
      | .value value => do
        let rows ← solveItems env rest
        return rows.map fun (env, values) => (env, value :: values)) firsts

def solveEntries (env : Env) :
    List (Expr × Expr) → Except Fault (List (Env × List (Value × Value)))
  | [] => .ok [(env, [])]
  | (key, value) :: rest => do
    let keys ← solve env key
    collect (fun (env, key) => do
      let values ← solve env value
      collect (fun (env, value) =>
        match key, value with
        | .value key, .value value => do
          let rows ← solveEntries env rest
          return rows.map fun (env, entries) => (env, (key, value) :: entries)
        | _, _ => .ok []) values) keys

/-- Follows a path of keys from some places. A name that stands for nothing goes through all
elements. -/
def follow : List Expr → Solutions → Except Fault Solutions
  | [], places => .ok places
  | key :: rest, places => do
    let next ← collect (fun (env, place) =>
      match scope.openName? env key with
      | some name =>
        .ok (place.elements.map fun (key, value) => (Env.bind name key env, .value value))
      | none => do
        let keys ← solve env key
        collect (fun (env, key) =>
          match key with
          | .branch _ => .ok []
          | .value key => do
            let found ← scope.step place key
            return found.toList.map (env, ·)) keys) places
    follow rest next

end

/-- The values of an expression. -/
def values (env : Env) (expr : Expr) : Except Fault (List Value) := do
  let solutions ← scope.solve env expr
  return solutions.filterMap (·.2.value?)

def satisfy (env : Env) : Condition → Except Fault (List Env)
  | .holds expr => do
    let solutions ← scope.solve env expr
    return (solutions.filter (·.2.holds)).map (·.1)
  | .fails expr => do
    let solutions ← scope.solve env expr
    return if solutions.any (·.2.holds) then [] else [env]
  | .define name expr => do
    let values ← scope.values env expr
    return values.map fun value => Env.bind name value env
  | .each key item collection => do
    let collections ← scope.values env collection
    collect (fun collection =>
      match collection.elements? with
      | none => .error .notCollection
      | some elements => .ok (elements.map fun (index, value) =>
          Env.bind item value (Env.bind (key.getD wildcard) index env))) collections

def satisfyAll (env : Env) : List Condition → Except Fault (List Env)
  | [] => .ok [env]
  | condition :: rest => do
    let envs ← scope.satisfy env condition
    collect (fun env => satisfyAll env rest) envs

def bindParameters (env : Env) : List Expr → List Value → Except Fault (List Env)
  | [], [] => .ok [env]
  | .name text :: parameters, argument :: arguments =>
    bindParameters (Env.bind text argument env) parameters arguments
  | parameter :: parameters, argument :: arguments => do
    let values ← scope.values env parameter
    if values.any (·.same argument) then bindParameters env parameters arguments
    else return []
  | _, _ => .ok []

def ruleValues (rule : Rule) (arguments : Option (List Value)) : Except Fault (List Value) := do
  let starts ← match rule.head, arguments with
    | .function parameters _, some arguments => scope.bindParameters [] parameters arguments
    | .complete _, none => .ok [[]]
    | .member _, none => .ok [[]]
    | _, _ => .ok []
  let envs ← collect (fun env => scope.satisfyAll env rule.body) starts
  collect (fun env => scope.values env rule.head.value) envs

def fallbackValues (rule : Rule) (arguments : Option (List Value)) :
    Except Fault (List Value) :=
  match rule.head, arguments with
  | .fallback value, none => scope.values [] value
  | _, _ => .ok []

end Scope

namespace Program

def isSet (definitions : List (Module × Rule)) : Bool :=
  definitions.any fun (_, rule) =>
    match rule.head with
    | .member _ => true
    | _ => false

/-- The value of the rules of a path. Rules that depend on each other in a circle run out of
`depth`. -/
def valueAt (program : Program) (input : Value) :
    Nat → List String → Option (List Value) → Except Fault (Option Value)
  | 0, path, _ => .error (.recursion path)
  | depth + 1, path, arguments => do
    let scope (module : Module) : Scope :=
      { program, module, input, valueAt := program.valueAt input depth }
    let definitions := program.definitions path
    let values ← collect
      (fun (module, rule) => (scope module).ruleValues rule arguments) definitions
    if isSet definitions then return some (.ofItems values)
    match Value.distinct values with
    | [] =>
      let fallbacks ← collect
        (fun (module, rule) => (scope module).fallbackValues rule arguments) definitions
      return fallbacks.head?
    | [value] => return some value
    | _ => .error (.conflict path)

def depth (program : Program) : Nat := (program.map (·.rules.length)).foldr (· + ·) 0 + 1

def query (program : Program) (input : Value) (path : List String) :
    Except Fault (Option Value) :=
  if !program.isSafe then .error .unsafeName
  else if program.defines path then program.valueAt input program.depth path none
  else .ok none

end Program

end PolicyReview.Rego
