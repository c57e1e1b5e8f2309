import PolicyReview.Rego.CompiledUnit
import PolicyReview.Rego.Token
import PolicyReview.Target.Preamble

/-! What is documented of interpreters of policies, as far as guards go. A language says what sources
and conditions mean. An interpreter follows a language when it takes a built-in test for a
condition, reads the guard of a preamble as a rule with the conditions of the guard, and finds a
rule true when its conditions hold and no other module adds rules to its package. -/

namespace PolicyReview

/-- What there is at the end of a path of fields. -/
def Json.at? (value : Json) (path : List String) : Option Json :=
  path.foldlM (fun value name => value.field? name) value

namespace Rego

/-- The kinds of values that a guard tests. -/
inductive Kind where
  | string
  | object
  deriving DecidableEq, Repr

namespace Kind

def test : Kind → String
  | string => "is_string"
  | object => "is_object"

def Fits : Kind → Json → Prop
  | string, value => ∃ text, value = .string text
  | object, value => ∃ fields, value = .object fields

end Kind

/-- A name that a point may put on a path. -/
def IsName (name : String) : Prop :=
  AliasTable.isIdentifier name.toList = true ∧ isKeyword name = false

/-- A test of what lies on a path of the input. -/
structure Test where
  kind : Kind
  path : List String
  deriving DecidableEq, Repr

namespace Test

/-- The condition that makes the test. -/
def text (test : Test) : String :=
  test.kind.test ++ "(" ++ String.intercalate "." ("input" :: test.path) ++ ")"

/-- Every name on the path may stand there. -/
def IsProper (test : Test) : Prop := ∀ name ∈ test.path, IsName name

def Passes (test : Test) (input : Json) : Prop :=
  ∃ value, input.at? test.path = some value ∧ test.kind.Fits value

end Test

structure Language where
  /-- A source adds rules to a package. -/
  Adds : String → String → Prop
  /-- The only rule of a name that a source has for a package is true under conditions. -/
  Defines : String → String → String → List String → Prop
  /-- A text is a condition on a line of its own. -/
  IsCondition : String → Prop
  /-- A condition holds of an input. -/
  Holds : String → Json → Prop

namespace Interpreter

variable {Machine Value : Type} {interpreter : Interpreter Machine Value} {language : Language}

/-- The machine is made by loading sources under their names, one after another. -/
inductive Loads (interpreter : Interpreter Machine Value) :
    List (String × String) → Machine → Prop
  | fresh : Loads interpreter [] interpreter.fresh
  | add {sources : List (String × String)} {machine next : Machine} {name source package : String}
    (loaded : Loads interpreter sources machine)
    (added : interpreter.addPolicy machine name source = .ok (next, package)) :
    Loads interpreter (sources ++ [(name, source)]) next

structure Follows (interpreter : Interpreter Machine Value) (language : Language) : Prop where
  test_isCondition : ∀ test : Test, test.IsProper → language.IsCondition test.text
  test_holds : ∀ (test : Test) (input : Json), test.IsProper → test.Passes input →
    language.Holds test.text input
  preamble_defines : ∀ (name : String) (bound : Target.BoundSet) (conditions : List String),
    conditions ≠ [] → (∀ condition ∈ conditions, language.IsCondition condition) →
    language.Defines (Target.renderPreamble name bound conditions) "data.target" "valid_review"
      conditions
  rule_holds : ∀ {earlier later : List (String × String)} {machine next : Machine}
    {name source package rule : String} {conditions : List String} {input : Json} {value : Value}
    {answers : List (Option Value)},
    interpreter.Loads (earlier ++ (name, source) :: later) machine →
    language.Defines source package rule conditions →
    (∀ other ∈ earlier ++ later, ¬language.Adds other.2 package) →
    interpreter.ofJson input = .ok value →
    (∀ condition ∈ conditions, language.Holds condition input) →
    interpreter.query (interpreter.setInput machine value) (package ++ "." ++ rule) =
      .ok (answers, next) →
    ∃ answer, answers = [some answer] ∧ interpreter.toJson answer = .ok (.bool true)

end Interpreter

end Rego

end PolicyReview
