import PolicyReview.Yaml.Node
import PolicyReview.Yaml.Plain

/-! JSON values of YAML documents. An alias has the value of its anchor. The keys of a mapping
are scalars, taken by their text, and the last one of equal keys wins. A document whose tags
are local, or that repeats itself too often, has no value. -/

namespace PolicyReview.Yaml

mutual

def Node.eventCount : Node → Nat
  | .scalar _ _ _ => 1
  | .reference _ => 1
  | .sequence _ items => 2 + itemEvents items
  | .mapping _ entries => 2 + entryEvents entries

def Node.itemEvents : List Node → Nat
  | [] => 0
  | item :: rest => item.eventCount + itemEvents rest

def Node.entryEvents : List (Node × Node) → Nat
  | [] => 0
  | (key, value) :: rest => key.eventCount + value.eventCount + entryEvents rest

end

abbrev Evaluate := StateT Nat Option

namespace Evaluate

def follow (anchors : Anchors) (node : Node) : Evaluate Node := do
  match node with
  | .reference number =>
    match ← get with
    | 0 => failure
    | jumps + 1 =>
      set jumps
      match anchors.node? number with
      | some target => return target
      | none => failure
  | node => return node

def isLocal (tag : Option String) : Bool := tag.any (·.toList.head? = some '!')

def key (anchors : Anchors) (node : Node) : Evaluate String := do
  match ← follow anchors node with
  | .scalar _ _ text => return text
  | _ => failure

def scalar (tag : Option String) (plain : Bool) (text : String) : Evaluate Json :=
  match tag with
  | some tag => StateT.lift (taggedValue? tag text)
  | none => if plain then StateT.lift (plainValue? text) else return .string text

def items (value : Node → Evaluate Json) : List Node → List Json → Evaluate (List Json)
  | [], read => return read.reverse
  | item :: rest, read => do
    let item ← value item
    items value rest (item :: read)

def fields (key : Node → Evaluate String) (value : Node → Evaluate Json) :
    List (Node × Node) → List (String × Json) → Evaluate (List (String × Json))
  | [], read => return read.reverse
  | (name, member) :: rest, read => do
    let name ← key name
    let member ← value member
    fields key value rest ((name, member) :: read)

/-- The value of a node with at most `depth` collections within each other. -/
def value (anchors : Anchors) : Nat → Node → Evaluate Json
  | 0, node => do
    match ← follow anchors node with
    | .scalar tag plain text =>
      guard !isLocal tag
      scalar tag plain text
    | _ => failure
  | depth + 1, node => do
    match ← follow anchors node with
    | .scalar tag plain text =>
      guard !isLocal tag
      scalar tag plain text
    | .sequence tag nodes =>
      guard !isLocal tag
      return .array (← items (value anchors depth) nodes [])
    | .mapping tag entries =>
      guard !isLocal tag
      return Json.ofEntries (← fields (key anchors) (value anchors depth) entries [])
    | .reference _ => failure

end Evaluate

def repetitions : Nat := 100

def Document.value? (document : Document) : Option Json :=
  let jumps := repetitions * document.root.eventCount
  ((Evaluate.value document.anchors maxDepth document.root).run jumps).map (·.1)

/-- A document of a text: YAML that has a JSON value, YAML that has none, or no YAML. -/
inductive Entry where
  | value (value : Json)
  | valueless
  | broken
  deriving Repr

namespace Entry

def ofDocument : Option Document → Entry
  | none => broken
  | some document =>
    match document.value? with
    | some found => value found
    | none => valueless

def value? : Entry → Option Json
  | value found => some found
  | _ => none

def isBroken : Entry → Bool
  | broken => true
  | _ => false

end Entry

/-- The documents of a text, the last of which may be no YAML. -/
def stream (text : String) : List Entry := (Document.list text).map Entry.ofDocument

/-- The values of the documents of a text. The first document that has none is the last. -/
def values (text : String) : List (Option Json) := upToFault ((stream text).map Entry.value?)
where
  upToFault : List (Option Json) → List (Option Json)
    | [] => []
    | none :: _ => [none]
    | some value :: rest => some value :: upToFault rest

end PolicyReview.Yaml
