import PolicyReview.Rego.Module

/-! The order in which the conditions of a body are evaluated, and the safety of rules. A condition
waits until the variables that it reads have values; among those that need not wait the first
one comes next. A rule is safe when each name in it is a variable of the rule or leads
somewhere. -/

namespace PolicyReview.Rego

namespace Condition

/-- The variables that have values after a condition. -/
def binds (condition : Condition) : List String := condition.introduced ++ condition.expr.keys

/-- The names that have to have values before a condition is evaluated, given the variables
that are introduced in its body. -/
def needs (introduced : List String) (condition : Condition) : List String :=
  condition.expr.reads ++ condition.expr.keys.filter introduced.contains

end Condition

namespace Rule

def takeFirst? {α : Type} (holds : α → Bool) : List α → Option (α × List α)
  | [] => none
  | item :: rest =>
    if holds item then some (item, rest)
    else (takeFirst? holds rest).map fun (found, others) => (found, item :: others)

def arrangeFrom (introduced locals : List String) :
    Nat → List String → List Condition → List Condition
  | 0, _, pending => pending
  | _, _, [] => []
  | steps + 1, given, first :: rest =>
    let isReady (condition : Condition) : Bool :=
      (condition.needs introduced).all fun name => given.contains name || !locals.contains name
    let (next, others) := (takeFirst? isReady (first :: rest)).getD (first, rest)
    next :: arrangeFrom introduced locals steps (given ++ next.binds) others

def arrange (rule : Rule) : Rule :=
  { rule with
    body := arrangeFrom (rule.body.flatMap Condition.introduced) (rule.body.flatMap Condition.binds)
      rule.body.length rule.head.introduced rule.body }

def locals (rule : Rule) : List String :=
  rule.head.introduced ++ rule.body.flatMap Condition.binds

def reads (rule : Rule) : List String :=
  Expr.readsOfItems rule.head.parameters ++ rule.head.value.reads ++ rule.head.value.keys ++
    rule.body.flatMap (·.expr.reads)

def isSafe (program : Program) (module : Module) (rule : Rule) : Bool :=
  rule.reads.all fun name =>
    rule.locals.contains name || (program.globalPath? module name).isSome

end Rule

def Module.arrange (module : Module) : Module :=
  { module with rules := module.rules.map Rule.arrange }

def Program.isSafe (program : Program) : Bool :=
  program.all fun module => module.rules.all (Rule.isSafe program module)

end PolicyReview.Rego
