import PolicyReview.Rego.Evaluation
import PolicyReview.Proofs.Fallible
import PolicyReview.Proofs.Rego.Literal
import PolicyReview.Proofs.Rego.Language

/-! References into the input. A name of a field leads to what the JSON of the input has there, and so
a reference along a path of names stands for the value at the end of the path. -/

namespace PolicyReview.Rego

namespace Value

theorem same_string {a b : String} : (string a).same (string b) = true ↔ a = b := by
  rw [same, order, beq_iff_eq, Std.compare_eq_iff_eq]

theorem index?_cons (other name : String) (value : Value) (rest : List (Value × Value)) :
    (object ((string other, value) :: rest)).index? (string name) =
      if other = name then some value else (object rest).index? (string name) := by
  simp only [index?, elements?, Option.getD_some, List.findSome?_cons, same_string]
  split_ifs <;> rfl

theorem index?_ofJson {value found : Json} {name : String} (field : value.field? name = some found) :
    (ofJson value).index? (.string name) = some (ofJson found) := by
  cases value with
  | object fields =>
    change fields.lookup name = some found at field
    change (object (ofJsonFields fields)).index? (string name) = _
    induction fields with
    | nil => cases field
    | cons first rest ih =>
      obtain ⟨other, value⟩ := first
      rw [ofJsonFields, index?_cons]
      by_cases here : other = name
      · subst here
        rw [List.lookup_cons_self] at field
        rw [if_pos rfl, Option.some.inj field]
      · rw [List.lookup_cons, beq_false_of_ne (Ne.symm here)] at field
        rw [if_neg here, ih field]
  | _ => cases field

end Value

theorem collect_singleton {α β : Type} (f : α → Except Fault (List β)) (item : α) :
    collect f [item] = f item := by
  change (f item >>= fun first => .ok (first ++ [])) = f item
  cases f item with
  | error fault => rfl
  | ok first => exact congrArg Except.ok (List.append_nil first)

namespace Scope

variable {scope : Scope} {env : Env} {value found : Json} {path : List String}

theorem follow_literal {place next : Place} {name : String} {rest : List Expr}
    (step : scope.step place (.string name) = .ok (some next)) :
    scope.follow (.ofText name :: rest) [(env, place)] =
      scope.follow rest [(env, next)] := by
  rw [follow, collect_singleton]
  have key : scope.solve env (.ofText name) =
      .ok [(env, .value (.string name))] := rfl
  have closed : scope.openName? env (.ofText name) = none := rfl
  dsimp only
  rw [closed, key, ok_bind, collect_singleton]
  dsimp only
  rw [step]
  rfl

theorem follow_names (reached : value.at? path = some found) :
    scope.follow (path.map .ofText) [(env, .value (.ofJson value))] =
      .ok [(env, .value (.ofJson found))] := by
  induction path generalizing value with
  | nil =>
    rw [Option.some.inj reached]
    rfl
  | cons name path ih =>
    obtain ⟨next, field, later⟩ := Option.bind_eq_some_iff.1 reached
    have step : scope.step (.value (.ofJson value)) (.string name) =
        .ok (some (.value (.ofJson next))) := by
      rw [Scope.step, Value.index?_ofJson field]
      rfl
    rw [List.map_cons, follow_literal step]
    exact ih later

theorem solve_input (unbound : env.lookup "input" = none) :
    scope.solve env (.name "input") = .ok [(env, .value scope.input)] := by
  have here : scope.find env "input" = .ok (some (.value scope.input)) := by
    rw [find, unbound]
    rfl
  rw [solve, here]
  rfl

/-- A reference along names stands for what the input has at their path. -/
theorem solve_reference (unbound : env.lookup "input" = none) (input : scope.input = .ofJson value)
    (reached : value.at? path = some found) :
    scope.solve env (.reference (.name "input") (path.map .ofText)) =
      .ok [(env, .value (.ofJson found))] := by
  rw [solve, solve_input unbound, input]
  exact follow_names reached

/-- A call of a built-in function that no module hides, on one value. -/
theorem solve_call {builtin : Builtin} {argument : Expr} {result item : Value}
    (plain : scope.functionPath? [builtin.name] = none)
    (given : scope.solve env argument = .ok [(env, .value item)])
    (applied : builtin.apply [item] = .ok result) :
    scope.solve env (.call [builtin.name] [argument]) = .ok [(env, .value result)] := by
  have known : Builtin.ofName? (String.intercalate "." [builtin.name]) = some builtin := by
    cases builtin <;> decide
  have call : scope.callee [builtin.name] =
      .ok fun arguments => (builtin.apply arguments).map some := by
    rw [callee, plain]
    dsimp only
    rw [known]
  have rows : scope.solveItems env [argument] = .ok [(env, [item])] := by
    rw [solveItems, given]
    rfl
  rw [solve, call, rows, ok_bind, ok_bind, collect_singleton]
  dsimp only
  rw [applied]
  rfl

end Scope

end PolicyReview.Rego
