import PolicyReview.Yaml.Cursor

/-! Scalars of YAML texts. A plain scalar ends at a mark, a quoted one at its quote, a block
scalar where the indentation ends. In the first two a single break within is folded to a
space, and further breaks are kept; blanks around breaks are dropped. -/

namespace PolicyReview.Yaml

structure Gap where
  blanks : List Char := []
  firstBreak : List Char := []
  moreBreaks : List Char := []
  broken : Bool := false

def foldBreaks (firstBreak moreBreaks : List Char) : List Char :=
  if firstBreak.head? = some '\n' then
    if moreBreaks.isEmpty then [' '] else moreBreaks
  else firstBreak ++ moreBreaks

namespace Gap

def text (gap : Gap) : List Char :=
  if gap.broken then foldBreaks gap.firstBreak gap.moreBreaks.reverse else gap.blanks

def addBreak (gap : Gap) (text : List Char) : Gap :=
  if gap.broken then { gap with moreBreaks := text.reverse ++ gap.moreBreaks }
  else { firstBreak := text, broken := true }

/-- Reads blanks and breaks. After a break no tab may stand before the column `margin`. -/
def read? (margin : Nat) : Nat → Gap → Cursor → Option (Gap × Cursor)
  | 0, gap, cursor => some (gap, cursor)
  | fuel + 1, gap, cursor =>
    match cursor.rest with
    | [] => some (gap, cursor)
    | c :: _ =>
      if isBlank c then
        if gap.broken then
          if c = '\t' && cursor.column < margin then none
          else read? margin fuel gap (cursor.skip 1)
        else
          let (blanks, cursor) := cursor.spanWhile isBlank
          read? margin fuel { gap with blanks := gap.blanks ++ blanks } cursor
      else if isBreak c then
        let (text, cursor) := cursor.takeBreak
        read? margin fuel (gap.addBreak text) cursor
      else some (gap, cursor)

end Gap

/-! Plain scalars. -/

def isFlowMark (c : Char) : Bool := c = ',' || c = '[' || c = ']' || c = '\x7b' || c = '\x7d'

/-- The characters of a plain scalar up to a blank, a break or a mark that ends it, in reverse,
with their count. In a flow collection a colon may not stand right before a mark. -/
def plainRun? (inFlow : Bool) (read : List Char) (count : Nat) :
    List Char → Option (List Char × Nat)
  | [] => some (read, count)
  | c :: rest =>
    if isBlank c || isBreak c then some (read, count)
    else if inFlow && c = ':' && rest.head?.any (fun d => isFlowMark d || d = '?') then none
    else if (c = ':' && endsWord rest) || (inFlow && isFlowMark c) then some (read, count)
    else plainRun? inFlow (c :: read) (count + 1) rest

structure PlainScalar where
  text : List Char
  endsLine : Bool
  cursor : Cursor

def plainFrom? (inFlow : Bool) (margin : Nat) : Nat → List Char → Gap → Cursor →
    Option PlainScalar
  | 0, _, _, _ => none
  | fuel + 1, read, gap, cursor =>
    let finish : Option PlainScalar := some ⟨read.reverse, gap.broken, cursor⟩
    if cursor.atIndicator || cursor.rest.head? = some '#' then finish
    else
      match plainRun? inFlow [] 0 cursor.rest with
      | none => none
      | some ([], _) => finish
      | some (run, count) =>
        let read := run ++ (gap.text.reverse ++ read)
        let cursor := cursor.skip count
        if cursor.atBlank || cursor.atBreak then
          match Gap.read? margin cursor.size {} cursor with
          | none => none
          | some (gap, cursor) =>
            if !inFlow && cursor.column < margin then some ⟨read.reverse, gap.broken, cursor⟩
            else plainFrom? inFlow margin fuel read gap cursor
        else some ⟨read.reverse, false, cursor⟩

def plainScalar? (inFlow : Bool) (margin : Nat) (cursor : Cursor) : Option PlainScalar :=
  plainFrom? inFlow margin cursor.size [] {} cursor

/-! Quoted scalars. -/

def hexDigit? (c : Char) : Option Nat :=
  if c.isDigit then some (c.toNat - 48)
  else if 'a' ≤ c && c ≤ 'f' then some (c.toNat - 87)
  else if 'A' ≤ c && c ≤ 'F' then some (c.toNat - 55)
  else none

def hexChar? (length : Nat) (cs : List Char) : Option Char := do
  let digits := cs.take length
  guard (digits.length = length)
  let values ← digits.mapM hexDigit?
  let code := values.foldl (fun n digit => 16 * n + digit) 0
  guard (code ≤ 0x10ffff ∧ ¬(0xd800 ≤ code ∧ code ≤ 0xdfff))
  return Char.ofNat code

def letterEscapes : List (Char × Char) :=
  [('0', '\x00'), ('a', '\x07'), ('b', '\x08'), ('t', '\t'), ('\t', '\t'), ('n', '\n'),
    ('v', '\x0b'), ('f', '\x0c'), ('r', '\r'), ('e', '\x1b'), (' ', ' '), ('\x22', '\x22'),
    ('/', '/'), ('\\', '\\'), ('N', '\u0085'), ('_', '\u00a0'), ('L', '\u2028'),
    ('P', '\u2029')]

def hexEscapes : List (Char × Nat) := [('x', 2), ('u', 4), ('U', 8)]

def escape? : List Char → Option (Char × Nat)
  | [] => none
  | letter :: rest =>
    match letterEscapes.lookup letter, hexEscapes.lookup letter with
    | some c, _ => some (c, 1)
    | none, some length => (hexChar? length rest).map (·, length + 1)
    | none, none => none

structure QuotedRun where
  read : List Char
  cursor : Cursor
  escapedBreak : Bool := false

def quotedRun? (single : Bool) : Nat → List Char → Cursor → Option QuotedRun
  | 0, read, cursor => some { read, cursor }
  | fuel + 1, read, cursor =>
    match cursor.rest with
    | [] => some { read, cursor }
    | c :: rest =>
      if isBlank c || isBreak c then some { read, cursor }
      else if single then
        if c = '\x27' then
          if rest.head? = some '\x27' then quotedRun? single fuel (c :: read) (cursor.skip 2)
          else some { read, cursor }
        else quotedRun? single fuel (c :: read) (cursor.skip 1)
      else if c = '\x22' then some { read, cursor }
      else if c = '\\' then
        if rest.head?.any isBreak then
          some { read, cursor := (cursor.skip 1).takeBreak.2, escapedBreak := true }
        else
          match escape? rest with
          | some (escaped, used) =>
            quotedRun? single fuel (escaped :: read) (cursor.skip (used + 1))
          | none => none
      else quotedRun? single fuel (c :: read) (cursor.skip 1)

def quotedFrom? (single : Bool) : Nat → List Char → Cursor → Option (List Char × Cursor)
  | 0, _, _ => none
  | fuel + 1, read, cursor =>
    if cursor.atIndicator || cursor.atEnd then none
    else
      match quotedRun? single cursor.size read cursor with
      | none => none
      | some run =>
        let quote := if single then '\x27' else '\x22'
        if run.cursor.rest.head? = some quote then some (run.read.reverse, run.cursor.skip 1)
        else
          match Gap.read? 0 cursor.size { broken := run.escapedBreak } run.cursor with
          | none => none
          | some (gap, cursor) => quotedFrom? single fuel (gap.text.reverse ++ run.read) cursor

def quotedScalar? (single : Bool) (cursor : Cursor) : Option (List Char × Cursor) :=
  quotedFrom? single cursor.size [] (cursor.skip 1)

/-! Block scalars. -/

inductive Chomping where
  | strip
  | clip
  | keep
  deriving DecidableEq, Repr

def chomping? : Char → Option Chomping
  | '-' => some .strip
  | '+' => some .keep
  | _ => none

def increment? (c : Char) : Option Nat :=
  if '1' ≤ c && c ≤ '9' then some (c.toNat - 48) else none

def blockHeader? (cursor : Cursor) : Option (Chomping × Option Nat × Cursor) :=
  match cursor.rest with
  | [] => some (.clip, none, cursor)
  | c :: rest =>
    match chomping? c with
    | some chomping =>
      match rest with
      | d :: _ =>
        if d.isDigit then (increment? d).map fun n => (chomping, some n, cursor.skip 2)
        else some (chomping, none, cursor.skip 1)
      | [] => some (chomping, none, cursor.skip 1)
    | none =>
      if c.isDigit then
        match increment? c, rest.head?.bind chomping? with
        | some n, some chomping => some (chomping, some n, cursor.skip 2)
        | some n, none => some (.clip, some n, cursor.skip 1)
        | none, _ => none
      else some (.clip, none, cursor)

structure BlankLines where
  breaks : List Char
  widest : Nat
  cursor : Cursor

/-- Passes lines without content. Spaces count up to the indentation, or all of them while it
is not known; a tab may not stand in their place. -/
def blankLines? (indent : Option Nat) : Nat → List Char → Nat → Cursor → Option BlankLines
  | 0, breaks, widest, cursor => some ⟨breaks.reverse, widest, cursor⟩
  | fuel + 1, breaks, widest, cursor =>
    let spaces := (cursor.rest.takeWhile (· = ' ')).length
    let cursor := cursor.skip (match indent with
      | some indent => min spaces (indent - cursor.column)
      | none => spaces)
    let widest := max widest cursor.column
    let inside := match indent with
      | some indent => cursor.column < indent
      | none => true
    if inside && cursor.rest.head? = some '\t' then none
    else if cursor.atBreak then
      let (text, cursor) := cursor.takeBreak
      blankLines? indent fuel (text.reverse ++ breaks) widest cursor
    else some ⟨breaks.reverse, widest, cursor⟩

/-- A block scalar that is being read: its text in reverse, the break of its last line and the
breaks after it, and whether that line starts with a blank. -/
structure BlockText where
  read : List Char := []
  lastBreak : List Char := []
  moreBreaks : List Char := []
  startsBlank : Bool := false

/-- Adds the breaks before a line; between two lines that start with no blank they are folded. -/
def BlockText.join (literal startsBlank : Bool) (text : BlockText) : List Char :=
  let breaks :=
    if !literal && text.lastBreak.head? = some '\n' && !text.startsBlank && !startsBlank then
      foldBreaks text.lastBreak text.moreBreaks
    else text.lastBreak ++ text.moreBreaks
  breaks.reverse ++ text.read

def blockLines? (literal : Bool) (indent : Nat) : Nat → BlockText → Cursor →
    Option (BlockText × Cursor)
  | 0, text, cursor => some (text, cursor)
  | fuel + 1, text, cursor =>
    if cursor.column = indent && !cursor.atEnd then
      let startsBlank := cursor.atBlank
      let read := text.join literal startsBlank
      let (line, cursor) := cursor.spanWhile fun c => !isBreak c
      let (lastBreak, cursor) := cursor.takeBreak
      match blankLines? (some indent) cursor.size [] 0 cursor with
      | none => none
      | some lines => blockLines? literal indent fuel
          { read := line.reverse ++ read, lastBreak, moreBreaks := lines.breaks, startsBlank }
          lines.cursor
    else some (text, cursor)

def blockScalar? (literal : Bool) (margin : Nat) (cursor : Cursor) :
    Option (List Char × Cursor) := do
  let (chomping, increment, cursor) ← blockHeader? (cursor.skip 1)
  let cursor ← cursor.finishLine?
  let known := increment.map fun n => margin - 1 + n
  let first ← blankLines? known cursor.size [] 0 cursor
  let indent := known.getD (max (max first.widest margin) 1)
  let (text, cursor) ← blockLines? literal indent cursor.size
    { moreBreaks := first.breaks } first.cursor
  let tail := match chomping with
    | .strip => []
    | .clip => text.lastBreak
    | .keep => text.lastBreak ++ text.moreBreaks
  return (text.read.reverse ++ tail, cursor)

end PolicyReview.Yaml
