import PolicyReview.Yaml.Token.Lexer

/-! Nodes of YAML documents, read from tokens. A document has one node, anchors included; an
alias is kept as the number of its anchor. Documents are read one after another, and the
first one that cannot be read is the last. -/

namespace PolicyReview.Yaml

inductive Node where
  | scalar (tag : Option String) (plain : Bool) (text : String)
  | sequence (tag : Option String) (items : List Node)
  | mapping (tag : Option String) (entries : List (Node × Node))
  | reference (anchor : Nat)
  deriving Repr, Inhabited

namespace Node

def empty : Node := .scalar none true ""

end Node

/-- Anchored nodes. A name is numbered, when it is given, by how many names there are before,
so that a name which is given again may take the number of another one. -/
structure Anchors where
  names : List (String × Nat) := []
  numbers : List (Nat × Nat) := []
  given : Nat := 0
  nodes : List (Nat × Node) := []
  deriving Repr

namespace Anchors

def nameCount (anchors : Anchors) : Nat := (anchors.names.map (·.1)).eraseDups.length

def declare (name : String) (anchors : Anchors) : Anchors :=
  let number := anchors.nameCount
  { anchors with
    names := (name, number) :: anchors.names
    numbers := (number, anchors.given) :: anchors.numbers
    given := anchors.given + 1 }

def number? (name : String) (anchors : Anchors) : Option Nat := anchors.names.lookup name

def node? (number : Nat) (anchors : Anchors) : Option Node :=
  (anchors.numbers.lookup number).bind (anchors.nodes.lookup ·)

end Anchors

structure Reading where
  tokens : List Token
  size : Nat
  shorthands : List (String × String) := []
  anchors : Anchors := {}

abbrev Read := StateT Reading Option

namespace Read

def peek : Read Token := do
  match (← get).tokens with
  | [] => failure
  | .fault :: _ => failure
  | token :: _ => return token

def advance : Read Unit := modify fun reading => { reading with tokens := reading.tokens.drop 1 }

def expect (token : Token) : Read Unit := do
  guard ((← peek) = token)
  advance

/-! Properties of nodes. -/

def anchor? : Read (Option String) := do
  match ← peek with
  | .anchor name => advance; return some name
  | _ => return none

def defaultShorthands : List (String × String) := [("!", "!"), ("!!", "tag:yaml.org,2002:")]

def resolveTag (handle suffix : String) : Read String := do
  if handle = "" then return suffix
  let known := (← get).shorthands ++ defaultShorthands
  match known.lookup handle with
  | some start => return start ++ suffix
  | none => failure

def tag? : Read (Option String) := do
  match ← peek with
  | .tag handle suffix => advance; return some (← resolveTag handle suffix)
  | _ => return none

/-- An anchor and a tag, in either order. -/
def properties : Read (Option String × Option String) := do
  match ← anchor? with
  | some name => return (some name, ← tag?)
  | none =>
    match ← tag? with
    | some tag => return (← anchor?, some tag)
    | none => return (none, none)

def declare (name : Option String) : Read (Option Nat) := do
  match name with
  | none => return none
  | some name =>
    let given := (← get).anchors.given
    modify fun reading => { reading with anchors := reading.anchors.declare name }
    return some given

def keep (order : Option Nat) (node : Node) : Read Node := do
  if let some order := order then
    modify fun reading =>
      { reading with anchors :=
        { reading.anchors with nodes := (order, node) :: reading.anchors.nodes } }
  return node

def scalarTag (tag : Option String) : Option String := tag.filter (· ≠ "!")

def emptyUnless (ends : Token → Bool) (node : Read Node) : Read Node := do
  if ends (← peek) then return .empty else node

/-- Reads a node within a collection. In a block collection it may be one too, and as the value
of a key a sequence may stand without indentation. -/
abbrev Reader := (inBlock unindented : Bool) → Read Node

section Collections

variable (inner : Reader)

def endsPart : Token → Bool
  | .key | .value | .blockEnd => true
  | _ => false

/-- The entries of a block sequence, through its end if it is indented; `read` holds those that
were read, the last one first. -/
def entries (indented : Bool) : Nat → List Node → Read (List Node)
  | 0, _ => failure
  | fuel + 1, read => do
    match ← peek with
    | .blockEntry =>
      advance
      let item ← emptyUnless
        (fun
          | .blockEntry | .blockEnd => true
          | .key | .value => !indented
          | _ => false)
        (inner true false)
      entries indented fuel (item :: read)
    | .blockEnd =>
      if indented then advance
      return read.reverse
    | _ =>
      guard (!indented)
      return read.reverse

def pairs : Nat → List (Node × Node) → Read (List (Node × Node))
  | 0, _ => failure
  | fuel + 1, read => do
    match ← peek with
    | .key =>
      advance
      let key ← emptyUnless endsPart (inner true true)
      let value ← blockValue
      pairs fuel ((key, value) :: read)
    | .blockEnd =>
      advance
      return read.reverse
    | _ => failure
where
  blockValue : Read Node := do
    if (← peek) = .value then
      advance
      emptyUnless endsPart (inner true true)
    else return .empty

def flowValue (close : Token) : Read Node := do
  if (← peek) = .value then
    advance
    emptyUnless (fun token => token = .flowEntry || token = close) (inner false false)
  else return .empty

def flowItemKey : Read Node := do
  match ← peek with
  | .value | .flowEntry | .flowSequenceEnd =>
    advance
    return .empty
  | _ => inner false false

def flowItem (nested : Option Reader) : Read Node := do
  if (← peek) = .key then
    match nested with
    | none => failure
    | some nested =>
      advance
      let key ← flowItemKey nested
      let value ← flowValue nested .flowSequenceEnd
      return .mapping none [(key, value)]
  else inner false false

def flowItems (nested : Option Reader) : Nat → List Node → Read (List Node)
  | 0, _ => failure
  | fuel + 1, read => do
    if (← peek) = .flowSequenceEnd then
      advance
      return read.reverse
    if !read.isEmpty then expect .flowEntry
    if (← peek) = .flowSequenceEnd then
      advance
      return read.reverse
    let item ← flowItem inner nested
    flowItems nested fuel (item :: read)

def flowPairs : Nat → List (Node × Node) → Read (List (Node × Node))
  | 0, _ => failure
  | fuel + 1, read => do
    if (← peek) = .flowMappingEnd then
      advance
      return read.reverse
    if !read.isEmpty then expect .flowEntry
    match ← peek with
    | .flowMappingEnd =>
      advance
      return read.reverse
    | .key =>
      advance
      let key ← emptyUnless
        (fun
          | .value | .flowEntry | .flowMappingEnd => true
          | _ => false)
        (inner false false)
      let value ← flowValue inner .flowMappingEnd
      flowPairs fuel ((key, value) :: read)
    | _ =>
      let key ← inner false false
      flowPairs fuel ((key, .empty) :: read)

end Collections

/-- A collection that starts with the given token, or nothing where it starts none. `inner` and
`nested` read what stands one and two collections deep. -/
def collection? (inner : Reader) (nested : Option Reader) (tag : Option String)
    (inBlock unindented : Bool) (token : Token) : Read (Option Node) := do
  let fuel := (← get).size
  match token with
  | .blockEntry =>
    if unindented then return some (.sequence tag (← entries inner false fuel []))
    else return none
  | .blockSequenceStart =>
    if inBlock then
      advance
      return some (.sequence tag (← entries inner true fuel []))
    else return none
  | .blockMappingStart =>
    if inBlock then
      advance
      return some (.mapping tag (← pairs inner fuel []))
    else return none
  | .flowSequenceStart =>
    advance
    return some (.sequence tag (← flowItems inner nested fuel []))
  | .flowMappingStart =>
    advance
    return some (.mapping tag (← flowPairs inner fuel []))
  | _ => return none

def startsCollection (inBlock unindented : Bool) : Token → Bool
  | .blockEntry => unindented
  | .blockSequenceStart | .blockMappingStart => inBlock
  | .flowSequenceStart | .flowMappingStart => true
  | _ => false

def nodeOf (inner : Option (Reader × Option Reader)) : Reader := fun inBlock unindented => do
  if let .reference name := ← peek then
    advance
    match (← get).anchors.number? name with
    | some number => return .reference number
    | none => failure
  let (name, tag) ← properties
  let order ← declare name
  let token ← peek
  match token with
  | .scalar plain text =>
    advance
    keep order (.scalar (scalarTag tag) plain text)
  | _ =>
    if startsCollection inBlock unindented token then
      match inner with
      | none => failure
      | some (inner, nested) =>
        match ← collection? inner nested tag inBlock unindented token with
        | some node => keep order node
        | none => failure
    else
      guard (order.isSome || tag.isSome)
      keep order (.scalar tag true "")

/-- Reads a node in which at most `depth` collections stand within each other. -/
def node : Nat → Reader
  | 0 => nodeOf none
  | 1 => nodeOf (some (nodeOf none, none))
  | depth + 2 => nodeOf (some (node (depth + 1), some (node depth)))

end Read

/-! Documents. -/

/-- A document that was read. -/
structure Document where
  root : Node
  anchors : Anchors
  deriving Repr

namespace Read

def isKnownVersion (major minor : Nat) : Bool := major = 1 && (minor = 1 || minor = 2)

def directives (versioned : Bool) : Nat → Read Unit
  | 0 => failure
  | fuel + 1 => do
    match ← peek with
    | .version major minor =>
      guard (!versioned && isKnownVersion major minor)
      advance
      directives true fuel
    | .shorthand handle replacement =>
      guard ((← get).shorthands.lookup handle).isNone
      modify fun reading =>
        { reading with shorthands := (handle, replacement) :: reading.shorthands }
      advance
      directives versioned fuel
    | _ => return

def skipDocumentEnds : Nat → Read Unit
  | 0 => return
  | fuel + 1 => do
    if (← peek) = .documentEnd then
      advance
      skipDocumentEnds fuel

def markedRoot : Read Node := do
  directives false (← get).size
  expect .documentStart
  emptyUnless (fun token => token.startsDocument || token = .documentEnd || token = .streamEnd)
    (node maxDepth true false)

def document? (first : Bool) : Read (Option Document) := do
  modify fun reading => { reading with shorthands := [], anchors := {} }
  if !first then skipDocumentEnds (← get).size
  let token ← peek
  if token = .streamEnd then return none
  let root ← if first && !token.startsDocument then node maxDepth true false else markedRoot
  if (← peek) = .documentEnd then advance
  return some { root, anchors := (← get).anchors }

end Read

def Document.readFrom (first : Bool) : Nat → Reading → List (Option Document)
  | 0, _ => []
  | fuel + 1, reading =>
    match (Read.document? first).run reading with
    | none => [none]
    | some (none, _) => []
    | some (some document, rest) => some document :: readFrom false fuel rest

def Document.list (text : String) : List (Option Document) :=
  let tokens := Token.list text
  let size := tokens.length + 1
  Document.readFrom true size { tokens, size }

end PolicyReview.Yaml
