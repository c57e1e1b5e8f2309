import PolicyReview.Pattern

/-! The written form of regular expressions: alternatives, repetitions with their lazy forms,
groups, classes, the usual escapes and look-ahead. What a text that is no expression breaks
is not told apart; it has no reading. -/

namespace PolicyReview.Pattern

def literal (c : Char) : Pattern := .one ⟨false, [(c, c)]⟩

def anyButLineFeed : Pattern := .one ⟨true, [('\n', '\n')]⟩

def metaChars : List Char :=
  ['\\', '.', '+', '*', '?', '(', ')', '|', '[', ']', '{', '}', '^', '$', '/', '-', '#', '&', '~',
    ' ', '\x22', '\x27', ',', ':', ';', '<', '=', '>', '@', '!', '%', '_', '\x60']

def decimal (digits : List Char) : Nat := digits.foldl (fun n c => 10 * n + (c.toNat - 48)) 0

def hexNat? (digits : List Char) : Option Nat :=
  digits.foldlM (fun n c =>
    if c.isDigit then some (16 * n + (c.toNat - 48))
    else if 'a' ≤ c ∧ c ≤ 'f' then some (16 * n + (c.toNat - 87))
    else if 'A' ≤ c ∧ c ≤ 'F' then some (16 * n + (c.toNat - 55))
    else none) 0

def classEscape? : Char → Option (List (Char × Char))
  | 'd' => some CharClass.digits
  | 'D' => some (CharClass.gaps 0 CharClass.digits)
  | 'w' => some CharClass.wordRanges
  | 'W' => some (CharClass.gaps 0 [('0', '9'), ('A', 'Z'), ('_', '_'), ('a', 'z')])
  | 's' => some CharClass.blankRanges
  | 'S' => some (CharClass.gaps 0 CharClass.blankRanges)
  | _ => none

def charEscape? : List Char → Option (Char × List Char)
  | 'n' :: rest => some ('\n', rest)
  | 'r' :: rest => some ('\r', rest)
  | 't' :: rest => some ('\t', rest)
  | 'f' :: rest => some ('\x0c', rest)
  | 'v' :: rest => some ('\x0b', rest)
  | '0' :: rest => some (Char.ofNat 0, rest)
  | 'c' :: c :: rest => if c.isAlpha then some (Char.ofNat (c.toNat % 32), rest) else none
  | 'x' :: a :: b :: rest => (hexNat? [a, b]).map fun n => (Char.ofNat n, rest)
  | 'u' :: a :: b :: c :: d :: rest => (hexNat? [a, b, c, d]).map fun n => (Char.ofNat n, rest)
  | c :: rest => if metaChars.contains c then some (c, rest) else none
  | [] => none

def classAtom? : List Char → Option (Sum Char (List (Char × Char)) × List Char)
  | '\\' :: 'b' :: rest => some (.inl '\x08', rest)
  | '\\' :: c :: rest =>
    match classEscape? c with
    | some ranges => some (.inr ranges, rest)
    | none => (charEscape? (c :: rest)).map fun (c, rest) => (.inl c, rest)
  | '\\' :: [] => none
  | c :: rest => some (.inl c, rest)
  | [] => none

def readClass? (fuel : Nat) (read : List (Char × Char)) (cs : List Char) :
    Option (List (Char × Char) × List Char) :=
  match fuel with
  | 0 => none
  | fuel + 1 =>
    match cs with
    | ']' :: rest => some (read, rest)
    | _ =>
      match classAtom? cs with
      | none => none
      | some (.inr ranges, rest) => readClass? fuel (read ++ ranges) rest
      | some (.inl low, '-' :: ']' :: rest) => some (read ++ [(low, low), ('-', '-')], rest)
      | some (.inl low, '-' :: rest) =>
        match classAtom? rest with
        | some (.inl high, rest) =>
          if low ≤ high then readClass? fuel (read ++ [(low, high)]) rest else none
        | some (.inr ranges, rest) =>
          readClass? fuel (read ++ [(low, low), ('-', '-')] ++ ranges) rest
        | none => none
      | some (.inl c, rest) => readClass? fuel (read ++ [(c, c)]) rest

/-- The bounds in braces, or nothing when the braces are plain characters. -/
def bounds? (cs : List Char) : Option ((Nat × Option Nat) × List Char) :=
  let (low, rest) := cs.span Char.isDigit
  if low = [] then none
  else
    match rest with
    | '}' :: rest => some ((decimal low, some (decimal low)), rest)
    | ',' :: rest =>
      let (high, rest) := rest.span Char.isDigit
      match rest with
      | '}' :: rest =>
        some ((decimal low, if high = [] then none else some (decimal high)), rest)
      | _ => none
    | _ => none

def skipLazy : List Char → List Char
  | '?' :: rest => rest
  | rest => rest

/-- The repetitions after an atom. A lower bound above the upper one is refused. -/
def repetitions? (fuel : Nat) (body : Pattern) (cs : List Char) :
    Option (Pattern × List Char) :=
  match fuel with
  | 0 => none
  | fuel + 1 =>
    match cs with
    | '*' :: rest => repetitions? fuel (.times body 0 none) (skipLazy rest)
    | '+' :: rest => repetitions? fuel (.times body 1 none) (skipLazy rest)
    | '?' :: rest => repetitions? fuel (.times body 0 (some 1)) (skipLazy rest)
    | '{' :: rest =>
      match bounds? rest with
      | some ((low, high), rest) =>
        if high.any (· < low) then none
        else repetitions? fuel (.times body low high) (skipLazy rest)
      | none => some (body, cs)
    | _ => some (body, cs)

def groupName? (cs : List Char) : Option (List Char) :=
  match cs.span fun c => c.isAlphanum || c = '_' with
  | ([], _) => none
  | (_, '>' :: rest) => some rest
  | _ => none

mutual

def readAlternatives? (fuel : Nat) (cs : List Char) : Option (Pattern × List Char) :=
  match fuel with
  | 0 => none
  | fuel + 1 =>
    match readSequence? fuel .empty cs with
    | some (first, '|' :: rest) =>
      match readAlternatives? fuel rest with
      | some (second, rest) => some (.alt first second, rest)
      | none => none
    | result => result

def readSequence? (fuel : Nat) (read : Pattern) (cs : List Char) : Option (Pattern × List Char) :=
  match fuel with
  | 0 => none
  | fuel + 1 =>
    match cs with
    | [] => some (read, [])
    | '|' :: _ => some (read, cs)
    | ')' :: _ => some (read, cs)
    | _ =>
      match readAtom? fuel cs with
      | none => none
      | some (atom, rest) =>
        match repetitions? (rest.length + 1) atom rest with
        | some (item, rest) => readSequence? fuel (.seq read item) rest
        | none => none

def readAtom? (fuel : Nat) (cs : List Char) : Option (Pattern × List Char) :=
  match fuel with
  | 0 => none
  | fuel + 1 =>
    let group (wrap : Pattern → Pattern) (cs : List Char) : Option (Pattern × List Char) :=
      match readAlternatives? fuel cs with
      | some (body, ')' :: rest) => some (wrap body, rest)
      | _ => none
    match cs with
    | '(' :: '?' :: ':' :: rest => group id rest
    | '(' :: '?' :: '=' :: rest => group (.ahead false) rest
    | '(' :: '?' :: '!' :: rest => group (.ahead true) rest
    | '(' :: '?' :: 'P' :: '<' :: rest => (groupName? rest).bind (group id)
    | '(' :: '?' :: '<' :: rest => (groupName? rest).bind (group id)
    | '(' :: '?' :: _ => none
    | '(' :: rest => group id rest
    | '[' :: '^' :: rest =>
      (readClass? (rest.length + 1) [] rest).map fun (ranges, rest) => (.one ⟨true, ranges⟩, rest)
    | '[' :: rest =>
      (readClass? (rest.length + 1) [] rest).map fun (ranges, rest) => (.one ⟨false, ranges⟩, rest)
    | '.' :: rest => some (anyButLineFeed, rest)
    | '^' :: rest => some (.atStart, rest)
    | '$' :: rest => some (.atEnd, rest)
    | '*' :: _ => none
    | '+' :: _ => none
    | '?' :: _ => none
    | '\\' :: 'b' :: rest => some (.atWordEdge false, rest)
    | '\\' :: 'B' :: rest => some (.atWordEdge true, rest)
    | '\\' :: c :: rest =>
      match classEscape? c with
      | some ranges => some (.one ⟨false, ranges⟩, rest)
      | none => (charEscape? (c :: rest)).map fun (c, rest) => (literal c, rest)
    | '\\' :: [] => none
    | c :: rest => some (literal c, rest)
    | [] => none

end

/-- The expression that a text spells, if it spells one. -/
def read? (text : String) : Option Pattern :=
  let cs := text.toList
  match readAlternatives? (4 * cs.length + 4) cs with
  | some (pattern, []) => some pattern
  | _ => none

end PolicyReview.Pattern
