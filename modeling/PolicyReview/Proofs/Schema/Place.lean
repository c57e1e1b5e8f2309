import PolicyReview.Proofs.Json.Place
import PolicyReview.Proofs.Schema.Structural

/-! Places of schemas within a schema. Schemas are found under the keywords that hold them and
nowhere else, so that the way to a place says whether what stands there is taken as a schema. -/

namespace PolicyReview.Schema

open Json (Place Step)

variable {held : Holds} {place : Place} {keyword : String}

/-- The keywords under which there are schemas by name. -/
def namedKeywords : List String := ["properties", "patternProperties", "definitions"]

/-- The keywords whose argument is a schema. -/
def singleKeywords : List String := ["items", "additionalProperties", "not"]

/-- The keywords whose argument is a list of schemas. -/
def listedKeywords : List String := ["allOf", "anyOf", "oneOf"]

/-- The places of schemas. Under the keywords that hold schemas by name, every name is one of a
schema, whatever it is. -/
inductive IsPlace : Place → Prop
  | whole : IsPlace []
  | named {keyword : String} {place : Place} (known : keyword ∈ namedKeywords) (name : String)
    (rest : IsPlace place) : IsPlace (.field keyword :: .field name :: place)
  | single {keyword : String} {place : Place} (known : keyword ∈ singleKeywords)
    (rest : IsPlace place) : IsPlace (.field keyword :: place)
  | listed {keyword : String} {place : Place} (known : keyword ∈ listedKeywords) (index : Nat)
    (rest : IsPlace place) : IsPlace (.field keyword :: .item index :: place)

/-! How the value at a place is taken. -/

theorem holds_named : holds keyword = .named ↔ keyword ∈ namedKeywords := by
  unfold holds namedKeywords
  split <;> simp_all

theorem holds_one : holds keyword = .one ↔ keyword ∈ singleKeywords := by
  unfold holds singleKeywords
  split <;> simp_all

theorem holds_listed : holds keyword = .listed ↔ keyword ∈ listedKeywords := by
  unfold holds listedKeywords
  split <;> simp_all

theorem holds_none (other : keyword ∉ namedKeywords ++ singleKeywords ++ listedKeywords) :
    holds keyword = .none := by
  simp only [List.mem_append, not_or, ← holds_named, ← holds_one, ← holds_listed] at other
  cases taken : holds keyword with
  | none => rfl
  | named => exact absurd taken other.1.1
  | one => exact absurd taken other.1.2
  | listed => exact absurd taken other.2

def heldAt : Holds → Place → Holds
  | held, [] => held
  | held, .field name :: rest => heldAt (held.under name) rest
  | .listed, .item _ :: rest => heldAt .one rest
  | _, .item _ :: rest => heldAt .none rest

theorem heldAt_none (place : Place) : heldAt .none place = .none := by
  induction place with
  | nil => rfl
  | cons step rest ih => cases step <;> exact ih

theorem heldAt_item (unlisted : held ≠ .listed) (index : Nat) (rest : Place) :
    heldAt held (.item index :: rest) = .none := by
  cases held with
  | listed => exact absurd rfl unlisted
  | _ => exact heldAt_none rest

theorem heldAt_of_isPlace (isPlace : IsPlace place) : heldAt .one place = .one := by
  induction isPlace with
  | whole => rfl
  | named known name rest ih =>
    rw [heldAt, Holds.under, holds_named.2 known]
    exact ih
  | single known rest ih =>
    rw [heldAt, Holds.under, holds_one.2 known]
    exact ih
  | listed known index rest ih =>
    rw [heldAt, Holds.under, holds_listed.2 known]
    exact ih

theorem place_of_heldAt (place : Place) :
    (heldAt .one place = .one → IsPlace place) ∧
    (heldAt .named place = .one → ∃ name rest, place = .field name :: rest ∧ IsPlace rest) ∧
    (heldAt .listed place = .one → ∃ index rest, place = .item index :: rest ∧ IsPlace rest) := by
  induction place with
  | nil => exact ⟨fun _ => .whole, nofun, nofun⟩
  | cons step rest ih =>
    obtain ⟨one, named, listed⟩ := ih
    cases step with
    | field keyword =>
      refine ⟨fun taken => ?_, fun taken => ⟨keyword, rest, rfl, one taken⟩, fun taken => ?_⟩
      · rw [heldAt, Holds.under] at taken
        cases kept : holds keyword with
        | none =>
          rw [kept, heldAt_none] at taken
          cases taken
        | one => exact .single (holds_one.1 kept) (one (kept ▸ taken))
        | named =>
          obtain ⟨name, later, rfl, isPlace⟩ := named (kept ▸ taken)
          exact .named (holds_named.1 kept) name isPlace
        | listed =>
          obtain ⟨index, later, rfl, isPlace⟩ := listed (kept ▸ taken)
          exact .listed (holds_listed.1 kept) index isPlace
      · have none : heldAt .none rest = .one := taken
        rw [heldAt_none] at none
        cases none
    | item index =>
      refine ⟨fun taken => ?_, fun taken => ?_, fun taken => ⟨index, rest, rfl, one taken⟩⟩
      · rw [heldAt_item (by decide)] at taken
        cases taken
      · rw [heldAt_item (by decide)] at taken
        cases taken

theorem isPlace_iff : IsPlace place ↔ heldAt .one place = .one :=
  ⟨heldAt_of_isPlace, (place_of_heldAt place).1⟩

theorem heldAt_append (held : Holds) (place rest : Place) :
    heldAt held (place ++ rest) = heldAt (heldAt held place) rest := by
  induction place generalizing held with
  | nil => rfl
  | cons step later ih =>
    cases step with
    | field name => exact ih (held.under name)
    | item index => cases held <;> exact ih _

theorem heldAt_of_bare (bare : ∀ below, ¬IsPlace (place ++ below)) : heldAt .one place = .none := by
  simp only [isPlace_iff, heldAt_append] at bare
  cases taken : heldAt .one place with
  | none => rfl
  | one => exact absurd taken (bare [])
  | named => exact absurd (congrArg (heldAt · [.field ""]) taken) (bare [.field ""])
  | listed => exact absurd (congrArg (heldAt · [.item 0]) taken) (bare [.item 0])

theorem bare_of_keyword (isPlace : IsPlace place)
    (other : keyword ∉ namedKeywords ++ singleKeywords ++ listedKeywords) (below : Place) :
    ¬IsPlace (place ++ [.field keyword] ++ below) := by
  have none : heldAt .one (place ++ [.field keyword]) = .none := by
    rw [heldAt_append, heldAt_of_isPlace isPlace]
    exact holds_none other
  rw [isPlace_iff, heldAt_append, none, heldAt_none]
  decide

end PolicyReview.Schema
