/-! Regular expressions and where they match. A match is the list of all places where an
expression can end when it starts at a place, so alternatives and repetitions need no
choice. Expressions search: they match a text when they match from some place of it on. -/

namespace PolicyReview

structure CharClass where
  negated : Bool
  ranges : List (Char × Char)
  deriving DecidableEq, Repr

namespace CharClass

def contains (cls : CharClass) (c : Char) : Bool :=
  cls.negated != cls.ranges.any fun (low, high) => low ≤ c && c ≤ high

def digits : List (Char × Char) := [('0', '9')]

def wordRanges : List (Char × Char) := [('A', 'Z'), ('_', '_'), ('a', 'z'), ('0', '9')]

def blankRanges : List (Char × Char) :=
  [('\t', '\r'), (' ', ' '), ('\u00a0', '\u00a0'), ('\u1680', '\u1680'), ('\u2000', '\u200a'),
    ('\u2028', '\u2029'), ('\u202f', '\u202f'), ('\u205f', '\u205f'), ('\u3000', '\u3000'),
    ('\ufeff', '\ufeff')]

/-- The ranges between the given ones, which have to be in ascending order. -/
def gaps (from_ : Nat) : List (Char × Char) → List (Char × Char)
  | [] => if from_ ≤ 0x10ffff then [(Char.ofNat from_, Char.ofNat 0x10ffff)] else []
  | (low, high) :: rest =>
    (if from_ < low.toNat then [(Char.ofNat from_, Char.ofNat (low.toNat - 1))] else []) ++
      gaps (high.toNat + 1) rest

def isWord (c : Char) : Bool := wordRanges.any fun (low, high) => low ≤ c && c ≤ high

end CharClass

inductive Pattern where
  | empty
  | one (cls : CharClass)
  | seq (first second : Pattern)
  | alt (first second : Pattern)
  | times (body : Pattern) (least : Nat) (most : Option Nat)
  | atStart
  | atEnd
  | atWordEdge (negated : Bool)
  | ahead (negated : Bool) (body : Pattern)
  deriving Repr, Inhabited

namespace Pattern

/-- A place in a text: the character before it, if any, and the text after it. -/
structure Place where
  before : Option Char
  rest : List Char
  deriving DecidableEq, Repr

/-- Keeps one of the places with the same text after them; within a text those are equal. -/
def distinct (places : List Place) : List Place :=
  places.foldl (fun kept place =>
    if kept.any (fun other => other.rest.length == place.rest.length) then kept
    else kept ++ [place]) []

def repeated (step : Place → List Place) : Nat → List Place → List Place
  | 0, places => places
  | n + 1, places => repeated step n (distinct (places.flatMap step))

def upTo (step : Place → List Place) : Nat → List Place → List Place
  | _, [] => []
  | 0, places => places
  | n + 1, places => distinct (places ++ upTo step n (distinct (places.flatMap step)))

def isWordAt (place : Place) : Bool :=
  (place.before.map CharClass.isWord).getD false !=
    (place.rest.head?.map CharClass.isWord).getD false

def ends : Pattern → Place → List Place
  | empty, place => [place]
  | one cls, place =>
    match place.rest with
    | c :: rest => if cls.contains c then [⟨some c, rest⟩] else []
    | [] => []
  | seq first second, place => distinct ((ends first place).flatMap (ends second))
  | alt first second, place => distinct (ends first place ++ ends second place)
  | times body least most, place =>
    let start := repeated (ends body) least [place]
    let more := match most with
      | some most => min (most - least) place.rest.length
      | none => place.rest.length
    upTo (ends body) more start
  | atStart, place => if place.before.isNone then [place] else []
  | atEnd, place => if place.rest.isEmpty then [place] else []
  | atWordEdge negated, place => if isWordAt place != negated then [place] else []
  | ahead negated body, place => if (ends body place).isEmpty == negated then [place] else []

def searchFrom (pattern : Pattern) (before : Option Char) : List Char → Bool
  | [] => !(pattern.ends ⟨before, []⟩).isEmpty
  | c :: rest => !(pattern.ends ⟨before, c :: rest⟩).isEmpty || searchFrom pattern (some c) rest

def isIn (pattern : Pattern) (text : String) : Bool := searchFrom pattern none text.toList

end Pattern

end PolicyReview
