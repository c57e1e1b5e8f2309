import PolicyReview.Rego.Value

/-! Modules of policies. A module belongs to a package, gives names to imported paths, and
defines rules. A rule has one value or one value for given arguments, or it adds items to a
set; it holds for every way in which all conditions of its body hold. -/

namespace PolicyReview.Rego

inductive Comparison where
  | equal
  | notEqual
  | less
  | lessEqual
  | greater
  | greaterEqual
  deriving DecidableEq, Repr

inductive Expr where
  | literal (value : Value)
  | name (text : String)
  | reference (base : Expr) (path : List Expr)
  | call (function : List String) (arguments : List Expr)
  | array (items : List Expr)
  | set (items : List Expr)
  | object (entries : List (Expr × Expr))
  | compare (comparison : Comparison) (left right : Expr)
  | member (item collection : Expr)
  | memberAt (key item collection : Expr)
  deriving Repr, Inhabited

inductive Condition where
  | holds (expr : Expr)
  | fails (expr : Expr)
  | define (name : String) (expr : Expr)
  | each (key : Option String) (item : String) (collection : Expr)
  deriving Repr

inductive Head where
  | complete (value : Expr)
  | fallback (value : Expr)
  | function (parameters : List Expr) (value : Expr)
  | member (item : Expr)
  deriving Repr

structure Rule where
  name : String
  head : Head
  body : List Condition := []
  deriving Repr

structure Module where
  package : List String
  imports : List (String × List String) := []
  rules : List Rule := []
  deriving Repr

abbrev Program := List Module

namespace Comparison

def holds (comparison : Comparison) (order : Ordering) : Bool :=
  match comparison with
  | equal => order == .eq
  | notEqual => order != .eq
  | less => order == .lt
  | lessEqual => order != .gt
  | greater => order == .gt
  | greaterEqual => order != .lt

end Comparison

def wildcard : String := "_"

namespace Expr

mutual

/-- The names that an expression reads, other than those that stand alone as a key. -/
def reads : Expr → List String
  | .literal _ => []
  | .name text => [text]
  | .reference base path => base.reads ++ readsOfPath path
  | .call _ arguments => readsOfItems arguments
  | .array items => readsOfItems items
  | .set items => readsOfItems items
  | .object entries => readsOfEntries entries
  | .compare _ left right => left.reads ++ right.reads
  | .member item collection => item.reads ++ collection.reads
  | .memberAt key item collection => key.reads ++ item.reads ++ collection.reads

def readsOfItems : List Expr → List String
  | [] => []
  | item :: rest => item.reads ++ readsOfItems rest

def readsOfEntries : List (Expr × Expr) → List String
  | [] => []
  | (key, value) :: rest => key.reads ++ value.reads ++ readsOfEntries rest

def readsOfPath : List Expr → List String
  | [] => []
  | .name _ :: rest => readsOfPath rest
  | key :: rest => key.reads ++ readsOfPath rest

end

mutual

def keys : Expr → List String
  | .literal _ => []
  | .name _ => []
  | .reference base path => base.keys ++ keysOfPath path
  | .call _ arguments => keysOfItems arguments
  | .array items => keysOfItems items
  | .set items => keysOfItems items
  | .object entries => keysOfEntries entries
  | .compare _ left right => left.keys ++ right.keys
  | .member item collection => item.keys ++ collection.keys
  | .memberAt key item collection => key.keys ++ item.keys ++ collection.keys

def keysOfItems : List Expr → List String
  | [] => []
  | item :: rest => item.keys ++ keysOfItems rest

def keysOfEntries : List (Expr × Expr) → List String
  | [] => []
  | (key, value) :: rest => key.keys ++ value.keys ++ keysOfEntries rest

def keysOfPath : List Expr → List String
  | [] => []
  | .name text :: rest => text :: keysOfPath rest
  | key :: rest => key.keys ++ keysOfPath rest

end

end Expr

namespace Condition

def expr : Condition → Expr
  | .holds expr => expr
  | .fails expr => expr
  | .define _ expr => expr
  | .each _ _ collection => collection

def introduced : Condition → List String
  | .define name _ => [name]
  | .each key item _ => key.toList ++ [item]
  | _ => []

end Condition

namespace Head

def parameters : Head → List Expr
  | .function parameters _ => parameters
  | _ => []

def value : Head → Expr
  | .complete value => value
  | .fallback value => value
  | .function _ value => value
  | .member item => item

def introduced (head : Head) : List String :=
  head.parameters.filterMap fun
    | .name text => some text
    | _ => none

end Head

/-- The path of a rule among all data. -/
def Module.path (module : Module) (rule : Rule) : List String := module.package ++ [rule.name]

namespace Program

/-- The rules of a path, each with the module that defines it. -/
def definitions (program : Program) (path : List String) : List (Module × Rule) :=
  program.flatMap fun module =>
    (module.rules.filter (module.path · = path)).map (module, ·)

def defines (program : Program) (path : List String) : Bool :=
  !(program.definitions path).isEmpty

/-- Whether some package lies at a path or below it. -/
def hasBranch (program : Program) (path : List String) : Bool :=
  program.any (path.isPrefixOf ·.package)

/-- Where a name that is no variable leads in a module: the root of the input or of the data,
and a path from there. -/
def globalPath? (program : Program) (module : Module) (name : String) : Option (List String) :=
  if name = "input" ∨ name = "data" then some [name]
  else
    let path := module.package ++ [name]
    if program.defines path then some ("data" :: path) else module.imports.lookup name

end Program

end PolicyReview.Rego
