import PolicyReview.Rego.Interpreter
import PolicyReview.Rego.Qualification
import PolicyReview.Runtime

/-! Units of modules compiled for review. The last template module of a unit names the package
whose rules report violations. A review has to pass the guard of the target before these rules
are asked. -/

namespace PolicyReview.Rego

structure CompiledUnit (Machine : Type) where
  machine : Machine
  package : String
  deriving Repr

inductive RegoError where
  | parse (module diagnostic : String)
  | missingTemplate (kind : String)
  | query (text diagnostic : String)
  | convert (diagnostic : String)
  | guardRejected
  deriving DecidableEq, Repr

def guardQuery : String := "data.target.valid_review"

def violationRules : List String := ["violation", "deny"]

def RegoError.message : RegoError → String
  | parse module diagnostic => module ++ ": " ++ diagnostic
  | missingTemplate kind => "compile unit for " ++ kind ++ " has no template module"
  | query text diagnostic => "query " ++ text ++ " failed: " ++ diagnostic
  | convert diagnostic => "value conversion failed: " ++ diagnostic
  | guardRejected => "review rejected by " ++ guardQuery

def rawResult (entry : Json) : RawResult :=
  match entry with
  | .object _ =>
    { message := entry.textField "msg", details := (entry.field? "details").getD .null }
  | entry => { message := "", details := entry }

namespace Interpreter

variable {Machine Value : Type} (interpreter : Interpreter Machine Value)

def loadFrom (machine : Machine) (package : Option String) :
    List PolicyModule → Except RegoError (Machine × Option String)
  | [] => .ok (machine, package)
  | policy :: rest =>
    match interpreter.addPolicy machine policy.name (qualifyImports policy.source) with
    | .error diagnostic => .error (.parse policy.name diagnostic)
    | .ok (machine, loaded) =>
      loadFrom machine (if policy.role = .template then some loaded else package) rest

def load (unit : CompileUnit) : Except RegoError (CompiledUnit Machine) := do
  match ← interpreter.loadFrom interpreter.fresh none unit.modules with
  | (machine, some package) => return { machine, package }
  | (_, none) => throw (.missingTemplate unit.template)

/-- The defined values of a query, and the machine after it. -/
def ask (machine : Machine) (text : String) : Except RegoError (List Json × Machine) := do
  let (values, machine) ← (interpreter.query machine text).mapError (.query text)
  let found ← (values.filterMap id).mapM fun value =>
    (interpreter.toJson value).mapError .convert
  return (found, machine)

/-- The entries of what a violation rule gives, when that is an array. -/
def entries (value : Json) : List Json := value.array?.getD []

def report (package : String) (machine : Machine) : List String → Except RegoError (List RawResult)
  | [] => .ok []
  | rule :: rest => do
    let (values, machine) ← interpreter.ask machine (package ++ "." ++ rule)
    let later ← report package machine rest
    return (values.flatMap entries).map rawResult ++ later

def isTrue : Json → Bool
  | .bool held => held
  | _ => false

/-- The results of a review, or why there are none. -/
def run (compiled : CompiledUnit Machine) (input : Json) : Except RegoError (List RawResult) := do
  let value ← (interpreter.ofJson input).mapError .convert
  let (verdicts, machine) ←
    interpreter.ask (interpreter.setInput compiled.machine value) guardQuery
  if !verdicts.any isTrue then throw .guardRejected
  interpreter.report compiled.package machine violationRules

/-- The runtime that compiles and evaluates policy modules by an interpreter. -/
def runtime : Runtime (CompiledUnit Machine) where
  compile unit := (interpreter.load unit).mapError fun error => .compile error.message
  evaluate compiled input :=
    match interpreter.run compiled input with
    | .ok raws => { answer := .results raws }
    | .error error => { answer := .failure (.evaluate error.message) }

end Interpreter

end PolicyReview.Rego
