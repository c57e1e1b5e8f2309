/-! Tokens of a YAML text. A collection written by indentation starts and ends with tokens of
its own, and a key is announced before its first token; where a text cannot be read any
further, its tokens end in a fault. -/

namespace PolicyReview.Yaml

/-- How many collections may stand within each other. -/
def maxDepth : Nat := 128

inductive Token where
  | version (major minor : Nat)
  | shorthand (handle replacement : String)
  | documentStart
  | documentEnd
  | blockSequenceStart
  | blockMappingStart
  | blockEnd
  | flowSequenceStart
  | flowSequenceEnd
  | flowMappingStart
  | flowMappingEnd
  | blockEntry
  | flowEntry
  | key
  | value
  | reference (name : String)
  | anchor (name : String)
  | tag (handle suffix : String)
  | scalar (plain : Bool) (text : String)
  | streamEnd
  | fault
  deriving DecidableEq, Repr, Inhabited

namespace Token

def startsDocument : Token → Bool
  | version _ _ | shorthand _ _ | documentStart => true
  | _ => false

end Token

end PolicyReview.Yaml
