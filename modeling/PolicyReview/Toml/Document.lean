import PolicyReview.Toml.Scalar

/-! TOML documents: lines that give values to names, and headers of the tables that the lines
after them belong to. Arrays and tables that are written as values may run over lines, hold
comments and end in a comma. -/

namespace PolicyReview.Toml

/-! Names. -/

def isBareChar (c : Char) : Bool := c.isAlphanum || c = '_' || c = '-'

def name? (fuel : Nat) (cs : List Char) : Option (String × List Char) :=
  match simpleText? fuel cs with
  | some result => some result
  | none =>
    let (name, rest) := cs.span isBareChar
    if name.isEmpty then none else some (String.ofList name, rest)

/-- Names with points between them; blanks around a point do not count. -/
def path? (size : Nat) : Nat → List Char → Option (List String × List Char)
  | 0, _ => none
  | fuel + 1, cs => do
    let (name, rest) ← name? size (cs.dropWhile isBlank)
    match rest.dropWhile isBlank with
    | '.' :: rest =>
      let (path, rest) ← path? size fuel rest
      return (name :: path, rest)
    | rest => return ([name], rest)

/-! Blank text. -/

def skipComment : List Char → List Char
  | '#' :: rest => rest.dropWhile isPrintable
  | cs => cs

def skipGap : Nat → List Char → List Char
  | 0, cs => cs
  | fuel + 1, cs =>
    let cs := skipComment (cs.dropWhile isBlank)
    match afterBreak? cs with
    | some rest => skipGap fuel rest
    | none => cs

def endLine? (cs : List Char) : Option (List Char) :=
  match skipComment (cs.dropWhile isBlank) with
  | [] => some []
  | rest => afterBreak? rest

/-! Values. -/

def maxDepth : Nat := 80

def isWordChar (c : Char) : Bool := c.isAlphanum || ['+', '-', '_', '.', ':'].contains c

def word (cs : List Char) : List Char × List Char :=
  let (first, rest) := cs.span isWordChar
  match rest with
  | ' ' :: c :: _ =>
    if isDate first && c.isDigit then
      let (time, rest) := (rest.drop 1).span isWordChar
      (first ++ ' ' :: time, rest)
    else (first, rest)
  | _ => (first, rest)

abbrev ValueReader := List Char → Option (Value × List Char)

def items? (size : Nat) (inner : ValueReader) : Nat → List Value → ValueReader
  | 0, _, _ => none
  | fuel + 1, read, cs =>
    match skipGap size cs with
    | ']' :: rest => some (.array read.reverse, rest)
    | cs =>
      match inner cs with
      | none => none
      | some (item, rest) =>
        match skipGap size rest with
        | ',' :: rest => items? size inner fuel (item :: read) rest
        | ']' :: rest => some (.array (item :: read).reverse, rest)
        | _ => none

def pair? (size : Nat) (inner : ValueReader) (cs : List Char) :
    Option ((List String × Value) × List Char) := do
  let (path, rest) ← path? size size cs
  match rest with
  | '=' :: rest =>
    let (value, rest) ← inner (rest.dropWhile isBlank)
    return ((path, value), rest)
  | _ => none

/-- The pairs of a table that is written as a value, through its closing brace. -/
def pairs? (size : Nat) (inner : ValueReader) : Nat → Entries → ValueReader
  | 0, _, _ => none
  | fuel + 1, entries, cs =>
    let close (entries : Entries) (rest : List Char) : Option (Value × List Char) :=
      some (.table (Entries.toValues entries), rest)
    match skipGap size cs with
    | '\x7d' :: rest => close entries rest
    | cs =>
      match pair? size inner cs with
      | none => none
      | some ((path, value), rest) =>
        match entries.put? path value with
        | none => none
        | some entries =>
          match skipGap size rest with
          | ',' :: rest => pairs? size inner fuel entries rest
          | '\x7d' :: rest => close entries rest
          | _ => none

def value? (size : Nat) : Nat → ValueReader
  | depth, cs =>
    match cs with
    | [] => none
    | c :: rest =>
      if c = '\x22' || c = '\x27' then (text? size cs).map fun (text, rest) => (.text text, rest)
      else if c = '[' then
        match depth with
        | 0 => none
        | depth + 1 => items? size (value? size depth) size [] rest
      else if c = '\x7b' then
        match depth with
        | 0 => none
        | depth + 1 => pairs? size (value? size depth) size [] rest
      else
        let (text, rest) := word cs
        (scalar? text).map (·, rest)

/-! Documents. -/

def header? (size : Nat) (cs : List Char) : Option ((List String × Bool) × List Char) :=
  match cs with
  | '[' :: '[' :: rest => do
    let (path, rest) ← path? size size rest
    match rest with
    | ']' :: ']' :: rest => return ((path, true), rest)
    | _ => none
  | '[' :: rest => do
    let (path, rest) ← path? size size rest
    match rest with
    | ']' :: rest => return ((path, false), rest)
    | _ => none
  | _ => none

def openHeader? (path : List String) (several : Bool) (root : Entries) : Option Entries :=
  match path.getLast? with
  | none => none
  | some name =>
    Entries.within? (if several then Entries.openItem? name else Entries.openTable? name)
      path.dropLast root

def lines? (size : Nat) : Nat → List String → Entries → List Char → Option Entries
  | 0, _, _, _ => none
  | fuel + 1, table, root, cs =>
    match skipGap size cs with
    | [] => some root
    | '[' :: rest =>
      match header? size ('[' :: rest) with
      | none => none
      | some ((path, several), rest) =>
        match openHeader? path several root, endLine? rest with
        | some root, some rest => lines? size fuel path root rest
        | _, _ => none
    | cs =>
      match pair? size (value? size maxDepth) cs with
      | none => none
      | some ((path, value), rest) =>
        match Entries.within? (Entries.put? path value) table root, endLine? rest with
        | some root, some rest => lines? size fuel table root rest
        | _, _ => none

def byteOrderMark : Char := '\ufeff'

/-- The table that a text describes. -/
def read? (text : String) : Option Value :=
  let cs := text.toList
  let cs := if cs.head? = some byteOrderMark then cs.drop 1 else cs
  let size := cs.length + 1
  (lines? size size [] [] cs).map fun root => .table (Entries.toValues root)

end PolicyReview.Toml
