import PolicyReview.Schema.Structural

/-! What an engine asks of a schema compiler: the schema in a form that reports what is wrong with
an instance, or why there is none. The parameter schema of a template is made structural
before it is compiled. -/

namespace PolicyReview.Schema

abbrev CompiledSchema := Json → List Report

structure Compiler where
  compile : Json → Except String CompiledSchema

/-- Why a parameter schema is refused. -/
def unusable (reason : String) : String := "invalid parameter schema: " ++ reason

def Compiler.parameters (schemas : Compiler) (schema : Json) : Except String CompiledSchema :=
  (schemas.compile (structural schema)).mapError unusable

end PolicyReview.Schema
