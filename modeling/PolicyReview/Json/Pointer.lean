import PolicyReview.Json

/-! JSON pointers: a `/` before every step, `~1` for a slash and `~0` for a tilde within a
step. A step into an array is a decimal index without a leading zero or sign. -/

namespace PolicyReview.Json

def escapeStep (step : String) : String :=
  String.ofList (step.toList.flatMap fun c =>
    if c = '~' then ['~', '0'] else if c = '/' then ['~', '1'] else [c])

def unescapeChars : List Char → List Char
  | '~' :: '1' :: rest => '/' :: unescapeChars rest
  | '~' :: '0' :: rest => '~' :: unescapeChars rest
  | c :: rest => c :: unescapeChars rest
  | [] => []

def stepIndex? (step : List Char) : Option Nat :=
  match step with
  | [] => none
  | ['0'] => some 0
  | '0' :: _ => none
  | digits => if digits.all Char.isDigit then
      some (digits.foldl (fun n c => 10 * n + (c.toNat - 48)) 0) else none

def step? (step : List Char) : Json → Option Json
  | .object fields => fields.lookup (String.ofList step)
  | .array items => (stepIndex? step).bind (items[·]?)
  | _ => none

/-- The value that a pointer leads to; the empty pointer leads to the whole value. -/
def pointer? (pointer : String) (value : Json) : Option Json :=
  match pointer.toList with
  | [] => some value
  | '/' :: rest =>
    (rest.splitOn '/').foldlM (fun value step => value.step? (unescapeChars step)) value
  | _ => none

def pointerText (steps : List String) : String :=
  String.join (steps.map fun step => "/" ++ escapeStep step)

end PolicyReview.Json
