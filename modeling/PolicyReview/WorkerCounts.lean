import PolicyReview.Text.Blank

/-! Lists of worker counts, written with commas between them. Each entry is a positive decimal
number of at most 64 bits, with blanks around it and a plus sign before it if one likes.
The counts are kept in ascending order, each once. -/

namespace PolicyReview.WorkerCounts

inductive Fault where
  | empty
  | notInteger
  | zero
  deriving DecidableEq, Repr

def Fault.message (name : String) : Fault → String
  | empty => name ++ " must not contain empty entries"
  | notInteger => name ++ " entries must be positive integers"
  | zero => name ++ " entries must be greater than zero"

def variableName : String := "FLEET_GATE_SYSTEM_TEST_WORKER_COUNTS"

def default : List Nat := [1, 2, 4, 8]

def digits (cs : List Char) : List Char :=
  match cs with
  | '+' :: rest => rest
  | _ => cs

/-- A decimal number of at most 64 bits, with or without a plus sign. -/
def word? (cs : List Char) : Option Nat :=
  let digits := digits cs
  if digits ≠ [] ∧ digits.all Char.isDigit then
    let n := digits.foldl (fun n c => 10 * n + (c.toNat - 48)) 0
    if n < Nat.pow 2 64 then some n else none
  else none

def parseEntry (entry : List Char) : Except Fault Nat :=
  match Text.trimChars entry with
  | [] => .error .empty
  | text =>
    match word? text with
    | none => .error .notInteger
    | some 0 => .error .zero
    | some n => .ok n

def insert (n : Nat) : List Nat → List Nat
  | [] => [n]
  | m :: rest => if n < m then n :: m :: rest else if n = m then m :: rest else m :: insert n rest

/-- The counts of a text, or the fault of its first bad entry. -/
def parse (text : String) : Except Fault (List Nat) := do
  let counts ← (text.toList.splitOn ',').mapM parseEntry
  return counts.foldl (fun sorted n => insert n sorted) []

def ofSetting (setting : Option String) : Except String (List Nat) :=
  match setting with
  | some text => (parse text).mapError (Fault.message variableName)
  | none => .ok default

end PolicyReview.WorkerCounts
