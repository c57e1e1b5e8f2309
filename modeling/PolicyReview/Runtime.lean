import PolicyReview.Violation

/-! What an engine asks of a policy language: compile a unit of modules to an artifact, and
evaluate an artifact on one input. An evaluation may also fire the cancellation token of
the review that it is part of, and it may crash instead of answering. -/

namespace PolicyReview

inductive ModuleRole where
  | preamble
  | library
  | template
  deriving DecidableEq, Repr

structure PolicyModule where
  name : String
  source : String
  role : ModuleRole
  deriving DecidableEq, Repr

/-- The modules that are compiled together for one template and one target. -/
structure CompileUnit where
  template : String
  target : String
  modules : List PolicyModule
  deriving DecidableEq, Repr

namespace CompileUnit

/-- The first module that holds a template's own source. -/
def templateModule? (unit : CompileUnit) : Option PolicyModule :=
  unit.modules.find? (·.role = .template)

end CompileUnit

inductive RuntimeError where
  | compile (diagnostic : String)
  | evaluate (diagnostic : String)
  deriving DecidableEq, Repr

def RuntimeError.message : RuntimeError → String
  | compile diagnostic => "compile error: " ++ diagnostic
  | evaluate diagnostic => "evaluation error: " ++ diagnostic

inductive Answer where
  | results (raws : List RawResult)
  | failure (error : RuntimeError)
  | crash (text : String)
  deriving Repr

structure Evaluation where
  answer : Answer
  cancels : Bool := false
  deriving Repr

structure Runtime (Artifact : Type) where
  compile : CompileUnit → Except RuntimeError Artifact
  evaluate : Artifact → Json → Evaluation

end PolicyReview
