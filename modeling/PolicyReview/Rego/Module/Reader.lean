import PolicyReview.Rego.Module
import PolicyReview.Rego.Token

/-! A reader of modules: the package, imports, and then rules. Conditions in braces are separated
by line breaks or semicolons. A point, an opening bracket or an opening parenthesis continues
an expression only where it follows without a blank. -/

namespace PolicyReview.Rego

abbrev Tokens := List Placed

abbrev Parsed (α : Type) := Option (α × Tokens)

def comparison? : Mark → Option Comparison
  | .equal => some .equal
  | .notEqual => some .notEqual
  | .less => some .less
  | .lessEqual => some .lessEqual
  | .greater => some .greater
  | .greaterEqual => some .greaterEqual
  | _ => none

namespace Expr

def extend (base key : Expr) : Expr :=
  match base with
  | .reference base path => .reference base (path ++ [key])
  | base => .reference base [key]

def literalText? : Expr → Option String
  | .literal (.string text) => some text
  | _ => none

/-- The name of the function that an expression stands for where arguments follow. -/
def functionName? : Expr → Option (List String)
  | .name text => some [text]
  | .reference (.name text) path => (path.mapM literalText?).map (text :: ·)
  | _ => none

def ofWord? (word : String) : Option Expr :=
  if word = "null" then some (.literal .null)
  else if word = "true" then some (.literal (.bool true))
  else if word = "false" then some (.literal (.bool false))
  else if isKeyword word then none
  else some (.name word)

end Expr

mutual

def readExpr (fuel : Nat) (tokens : Tokens) : Parsed Expr :=
  match fuel with
  | 0 => none
  | fuel + 1 =>
    match readCompared fuel tokens with
    | some (item, ⟨_, .word "in"⟩ :: rest) =>
      (readCompared fuel rest).map fun (collection, rest) => (.member item collection, rest)
    | parsed => parsed

def readCompared (fuel : Nat) (tokens : Tokens) : Parsed Expr :=
  match fuel with
  | 0 => none
  | fuel + 1 =>
    match readTerm fuel tokens with
    | some (left, ⟨gap, .mark mark⟩ :: rest) =>
      match comparison? mark with
      | some comparison =>
        (readTerm fuel rest).map fun (right, rest) => (.compare comparison left right, rest)
      | none => some (left, ⟨gap, .mark mark⟩ :: rest)
    | parsed => parsed

def readTerm (fuel : Nat) (tokens : Tokens) : Parsed Expr :=
  match fuel with
  | 0 => none
  | fuel + 1 =>
    match tokens with
    | ⟨_, .number n⟩ :: rest => some (.literal (.ofNumber n), rest)
    | ⟨_, .quoted text⟩ :: rest => some (.literal (.string text), rest)
    | ⟨_, .word word⟩ :: rest =>
      match Expr.ofWord? word with
      | some base => readPath fuel base rest
      | none => none
    | ⟨_, .mark .openBracket⟩ :: rest =>
      match readItems fuel .closeBracket rest with
      | some (items, rest) => readPath fuel (.array items) rest
      | none => none
    | ⟨_, .mark .openBrace⟩ :: rest =>
      match readBraced fuel rest with
      | some (base, rest) => readPath fuel base rest
      | none => none
    | ⟨_, .mark .openParen⟩ :: rest =>
      match readExpr fuel rest with
      | some (expr, ⟨_, .mark .closeParen⟩ :: rest) => some (expr, rest)
      | _ => none
    | _ => none

def readPath (fuel : Nat) (base : Expr) (tokens : Tokens) : Parsed Expr :=
  match fuel with
  | 0 => none
  | fuel + 1 =>
    match tokens with
    | ⟨.nothing, .mark .dot⟩ :: ⟨.nothing, .word word⟩ :: rest =>
      readPath fuel (base.extend (.literal (.string word))) rest
    | ⟨.nothing, .mark .openBracket⟩ :: rest =>
      match readExpr fuel rest with
      | some (key, ⟨_, .mark .closeBracket⟩ :: rest) => readPath fuel (base.extend key) rest
      | _ => none
    | ⟨.nothing, .mark .openParen⟩ :: rest =>
      match base.functionName?, readItems fuel .closeParen rest with
      | some function, some (arguments, rest) => readPath fuel (.call function arguments) rest
      | _, _ => none
    | _ => some (base, tokens)

def readItems (fuel : Nat) (last : Mark) (tokens : Tokens) : Parsed (List Expr) :=
  match fuel with
  | 0 => none
  | fuel + 1 =>
    match tokens with
    | [] => none
    | token :: rest =>
      if token.token = .mark last then some ([], rest)
      else
        match readExpr fuel (token :: rest) with
        | none => none
        | some (item, rest) =>
          match rest with
          | ⟨_, .mark .comma⟩ :: rest =>
            (readItems fuel last rest).map fun (items, rest) => (item :: items, rest)
          | ⟨_, mark⟩ :: rest => if mark = .mark last then some ([item], rest) else none
          | [] => none

def readBraced (fuel : Nat) (tokens : Tokens) : Parsed Expr :=
  match fuel with
  | 0 => none
  | fuel + 1 =>
    match tokens with
    | ⟨_, .mark .closeBrace⟩ :: rest => some (.object [], rest)
    | tokens =>
      match readExpr fuel tokens with
      | some (key, ⟨_, .mark .colon⟩ :: rest) =>
        (readEntries fuel key rest).map fun (entries, rest) => (.object entries, rest)
      | some (item, ⟨_, .mark .comma⟩ :: rest) =>
        (readItems fuel .closeBrace rest).map fun (items, rest) => (.set (item :: items), rest)
      | some (item, ⟨_, .mark .closeBrace⟩ :: rest) => some (.set [item], rest)
      | _ => none

def readEntries (fuel : Nat) (key : Expr) (tokens : Tokens) : Parsed (List (Expr × Expr)) :=
  match fuel with
  | 0 => none
  | fuel + 1 =>
    match readExpr fuel tokens with
    | some (value, ⟨_, .mark .closeBrace⟩ :: rest) => some ([(key, value)], rest)
    | some (value, ⟨_, .mark .comma⟩ :: ⟨_, .mark .closeBrace⟩ :: rest) =>
      some ([(key, value)], rest)
    | some (value, ⟨_, .mark .comma⟩ :: rest) =>
      match readExpr fuel rest with
      | some (next, ⟨_, .mark .colon⟩ :: rest) =>
        (readEntries fuel next rest).map fun (entries, rest) => ((key, value) :: entries, rest)
      | _ => none
    | _ => none

end

/-! Conditions. -/

def readEach (fuel : Nat) (tokens : Tokens) : Parsed Condition :=
  match tokens with
  | ⟨_, .word item⟩ :: ⟨_, .word "in"⟩ :: rest =>
    if isKeyword item then none
    else (readExpr fuel rest).map fun (collection, rest) => (.each none item collection, rest)
  | ⟨_, .word key⟩ :: ⟨_, .mark .comma⟩ :: ⟨_, .word item⟩ :: ⟨_, .word "in"⟩ :: rest =>
    if isKeyword key || isKeyword item then none
    else (readExpr fuel rest).map fun (collection, rest) => (.each (some key) item collection, rest)
  | _ => none

/-- Reads a condition that is an expression, or a key and an item of a collection. -/
def readHolds (fuel : Nat) (tokens : Tokens) : Parsed Condition :=
  match readExpr fuel tokens with
  | some (key, ⟨_, .mark .comma⟩ :: rest) =>
    match readExpr fuel rest with
    | some (.member item collection, rest) => some (.holds (.memberAt key item collection), rest)
    | _ => none
  | some (expr, rest) => some (.holds expr, rest)
  | none => none

def readCondition (fuel : Nat) (tokens : Tokens) : Parsed Condition :=
  match tokens with
  | ⟨_, .word "some"⟩ :: rest => readEach fuel rest
  | ⟨_, .word "not"⟩ :: rest =>
    (readExpr fuel rest).map fun (expr, rest) => (.fails expr, rest)
  | ⟨_, .word name⟩ :: ⟨_, .mark .define⟩ :: rest =>
    if isKeyword name then none
    else (readExpr fuel rest).map fun (expr, rest) => (.define name expr, rest)
  | tokens => readHolds fuel tokens

def readConditions (fuel : Nat) (tokens : Tokens) : Parsed (List Condition) :=
  match fuel with
  | 0 => none
  | fuel + 1 =>
    match readCondition fuel tokens with
    | none => none
    | some (condition, rest) =>
      match rest with
      | ⟨_, .mark .closeBrace⟩ :: rest => some ([condition], rest)
      | ⟨_, .mark .semicolon⟩ :: rest =>
        (readConditions fuel rest).map fun (conditions, rest) => (condition :: conditions, rest)
      | ⟨.lineBreak, _⟩ :: _ =>
        (readConditions fuel rest).map fun (conditions, rest) => (condition :: conditions, rest)
      | _ => none

/-- Reads the body of a rule if there is one: conditions in braces, or a single one. -/
def readBody (fuel : Nat) (tokens : Tokens) : Parsed (List Condition) :=
  match tokens with
  | ⟨_, .word "if"⟩ :: ⟨_, .mark .openBrace⟩ :: rest => readConditions fuel rest
  | ⟨_, .word "if"⟩ :: rest =>
    (readCondition fuel rest).map fun (condition, rest) => ([condition], rest)
  | tokens => some ([], tokens)

/-! Rules. -/

def readAssigned (fuel : Nat) (tokens : Tokens) : Parsed Expr :=
  match tokens with
  | ⟨_, .mark .define⟩ :: rest => readExpr fuel rest
  | ⟨_, .mark .assign⟩ :: rest => readExpr fuel rest
  | _ => none

/-- Reads what follows the name of a rule. Only a rule that has a body may leave its value out,
which is then true. -/
def readHead (fuel : Nat) (tokens : Tokens) : Parsed Head :=
  let orTrue (tokens : Tokens) : Parsed Expr :=
    match tokens with
    | ⟨_, .word "if"⟩ :: _ => some (.literal (.bool true), tokens)
    | tokens => readAssigned fuel tokens
  match tokens with
  | ⟨.nothing, .mark .openParen⟩ :: rest =>
    match readItems fuel .closeParen rest with
    | some (parameters, rest) =>
      (orTrue rest).map fun (value, rest) => (.function parameters value, rest)
    | none => none
  | ⟨_, .word "contains"⟩ :: rest =>
    (readExpr fuel rest).map fun (item, rest) => (.member item, rest)
  | tokens => (orTrue tokens).map fun (value, rest) => (.complete value, rest)

def readRule (fuel : Nat) (tokens : Tokens) : Parsed Rule :=
  match tokens with
  | ⟨_, .word "default"⟩ :: ⟨_, .word name⟩ :: rest =>
    if isKeyword name then none
    else (readAssigned fuel rest).map fun (value, rest) =>
      ({ name, head := .fallback value }, rest)
  | ⟨_, .word name⟩ :: rest =>
    if isKeyword name then none
    else
      match readHead fuel rest with
      | some (head, rest) =>
        (readBody fuel rest).map fun (body, rest) => ({ name, head, body }, rest)
      | none => none
  | _ => none

def readRules (fuel : Nat) (tokens : Tokens) : Option (List Rule) :=
  match fuel, tokens with
  | _, [] => some []
  | 0, _ => none
  | fuel + 1, tokens =>
    match readRule fuel tokens with
    | some (rule, rest) => (readRules fuel rest).map (rule :: ·)
    | none => none

/-! Modules. -/

def readParts (fuel : Nat) (tokens : Tokens) : List String × Tokens :=
  match fuel, tokens with
  | fuel + 1, ⟨.nothing, .mark .dot⟩ :: ⟨.nothing, .word word⟩ :: rest =>
    let (parts, rest) := readParts fuel rest
    (word :: parts, rest)
  | fuel + 1, ⟨.nothing, .mark .openBracket⟩ :: ⟨_, .quoted text⟩ ::
      ⟨_, .mark .closeBracket⟩ :: rest =>
    let (parts, rest) := readParts fuel rest
    (text :: parts, rest)
  | _, tokens => ([], tokens)

def readName (fuel : Nat) (tokens : Tokens) : Parsed (List String) :=
  match tokens with
  | ⟨_, .word word⟩ :: rest =>
    if isKeyword word then none
    else
      let (parts, rest) := readParts fuel rest
      some (word :: parts, rest)
  | _ => none

def import? (path : List String) (short : Option String) : Option (List (String × List String)) :=
  match path, short with
  | ["rego", "v1"], none => some []
  | "future" :: "keywords" :: _, none => some []
  | root :: rest, short =>
    if root = "data" ∨ root = "input" then
      some [(short.getD ((root :: rest).getLastD root), path)]
    else none
  | [], _ => none

def readImport (fuel : Nat) (tokens : Tokens) : Parsed (List (String × List String)) :=
  match readName fuel tokens with
  | some (path, ⟨_, .word "as"⟩ :: ⟨_, .word short⟩ :: rest) =>
    if isKeyword short then none else (import? path (some short)).map (·, rest)
  | some (path, rest) => (import? path none).map (·, rest)
  | none => none

def readImports (fuel : Nat) (imports : List (String × List String)) (tokens : Tokens) :
    Parsed (List (String × List String)) :=
  match fuel, tokens with
  | fuel + 1, ⟨_, .word "import"⟩ :: rest =>
    match readImport fuel rest with
    | some (found, rest) =>
      if found.any fun (name, _) => (imports.lookup name).isSome then none
      else readImports fuel (imports ++ found) rest
    | none => none
  | _, tokens => some (imports, tokens)

namespace Module

def ofTokens? (fuel : Nat) (tokens : Tokens) : Option Module :=
  match tokens with
  | ⟨_, .word "package"⟩ :: rest => do
    let (package, rest) ← readName fuel rest
    let (imports, rest) ← readImports fuel [] rest
    let rules ← readRules fuel rest
    return { package, imports, rules }
  | _ => none

def fuelFor (tokens : Tokens) : Nat := 8 * tokens.length + 8

/-- The module that a source holds. -/
def read? (source : String) : Option Module := do
  let tokens ← Token.list? source.toList
  ofTokens? (fuelFor tokens) tokens

end Module

end PolicyReview.Rego
