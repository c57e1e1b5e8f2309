import PolicyReview.Json

/-! What the runtime asks of an interpreter of policies. A machine holds loaded modules and an input;
it is asked for the values of a query, and may change while it answers. -/

namespace PolicyReview.Rego

structure Interpreter (Machine Value : Type) where
  fresh : Machine
  /-- Loads a module, given its name and its source, and tells the path of its package. -/
  addPolicy : Machine → String → String → Except String (Machine × String)
  ofJson : Json → Except String Value
  setInput : Machine → Value → Machine
  query : Machine → String → Except String (List (Option Value) × Machine)
  toJson : Value → Except String Json

end PolicyReview.Rego
