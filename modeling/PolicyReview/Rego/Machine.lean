import PolicyReview.Rego.CompiledUnit
import PolicyReview.Rego.Evaluation
import PolicyReview.Rego.Module.Reader

/-! An interpreter of a part of the policy language. Its machine is a program with an input, which
queries do not change; a query is a path of data, written with points. -/

namespace PolicyReview.Rego

structure Machine where
  program : Program := []
  input : Value := .null
  deriving Repr

def dataText (path : List String) : String := String.intercalate "." ("data" :: path)

def dataPath? (text : String) : Option (List String) :=
  match text.toList.splitOn '.' with
  | root :: path => if root = "data".toList then some (path.map String.ofList) else none
  | [] => none

def Fault.message : Fault → String
  | badArgument function => "bad argument of " ++ function
  | unknownFunction function => "no function " ++ function
  | conflict path => "conflicting values of " ++ dataText path
  | recursion path => "recursion through " ++ dataText path
  | notCollection => "not a collection"
  | unsafeName => "unsafe name"

namespace Machine

def addPolicy (machine : Machine) (source : String) : Except String (Machine × String) :=
  match Module.read? source with
  | some module =>
    .ok ({ machine with program := machine.program ++ [module.arrange] }, dataText module.package)
  | none => .error "not a module"

def query (machine : Machine) (text : String) : Except String (Option Value) :=
  match dataPath? text with
  | some path => (machine.program.query machine.input path).mapError Fault.message
  | none => .error "not a path of data"

/-- The interpreter whose machines these are. -/
def interpreter : Interpreter Machine Value where
  fresh := {}
  addPolicy machine _ source := machine.addPolicy source
  ofJson value := .ok (.ofJson value)
  setInput machine input := { machine with input }
  query machine text := (machine.query text).map fun value => ([value], machine)
  toJson value := .ok value.toJson

end Machine

/-- The runtime of the interpreter of this part of the language. -/
def runtime : Runtime (CompiledUnit Machine) := Machine.interpreter.runtime

end PolicyReview.Rego
