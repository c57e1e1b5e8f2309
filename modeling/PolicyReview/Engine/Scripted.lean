import PolicyReview.Runtime
import PolicyReview.Json.Pointer

/-! A runtime that follows a script instead of a policy. Each kind has rules, and the first one
whose condition holds of the input answers: it may fire the token, crash, fail, compare the
asset's counter with the least one allowed, or give fixed results. -/

namespace PolicyReview.Scripted

structure Condition where
  pointer : String
  equals : Json

inductive Action where
  | crash (text : String)
  | evaluateError (text : String)
  | compileError (text : String)
  | counter
  | results (raws : List RawResult)

structure Rule where
  condition : Option Condition
  cancels : Bool
  action : Action

structure Script where
  compileFailures : List (String × String)
  rules : List (String × List Rule)

def Rule.holds (rule : Rule) (input : Json) : Bool :=
  match rule.condition with
  | none => true
  | some condition =>
    match input.pointer? condition.pointer with
    | some value => value.same condition.equals
    | none => false

/-- A signed integer of 64 bits at a place of the input, zero when there is none. -/
def signedAt (pointer : String) (input : Json) : Int :=
  match input.pointer? pointer with
  | some (.number (.int n)) => if -(Nat.pow 2 63 : Int) ≤ n ∧ n < (Nat.pow 2 63 : Int) then n else 0
  | _ => 0

def counterResults (input : Json) : List RawResult :=
  let counter := signedAt "/review/resource/data/counter" input
  let least := signedAt "/parameters/min" input
  if counter < least then
    [{ message := "counter " ++ toString counter ++ " is below " ++ toString least
       details := .object [("counter", Json.int counter)] }]
  else []

def Action.answer (action : Action) (input : Json) : Answer :=
  match action with
  | .crash text => .crash text
  | .evaluateError text => .failure (.evaluate text)
  | .compileError text => .failure (.compile text)
  | .counter => .results (counterResults input)
  | .results raws => .results raws

def evaluate (rules : List Rule) (input : Json) : Evaluation :=
  match rules.find? (·.holds input) with
  | none => { answer := .results [] }
  | some rule => { answer := rule.action.answer input, cancels := rule.cancels }

/-- The runtime of a script; an artifact is the rules of its kind. -/
def runtime (script : Script) : Runtime (List Rule) where
  compile unit :=
    match script.compileFailures.lookup unit.template with
    | some diagnostic => .error (.compile diagnostic)
    | none => .ok ((script.rules.lookup unit.template).getD [])
  evaluate := evaluate

end PolicyReview.Scripted
