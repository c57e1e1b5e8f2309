import Mathlib.Data.List.ReduceOption
import PolicyReview.Document
import PolicyReview.Proofs.Text.Numeral

/-! Outcomes of the documents of a file. The reading of a file goes on from what was found in the
files before it; at each document it adds one thing, which the path, the index and the document itself
determine. So every document that is not null is either decoded or reported, whatever stands beside
it, up to the first one that has no JSON value. Such a document need not be the syntax error that
ends a text: one that is YAML hides those that follow as well. -/

namespace PolicyReview

variable {α ε : Type}

def faultOf? : Except ε α → Option ε
  | .ok _ => none
  | .error fault => some fault

namespace Yaml

variable {entries rest : List Entry}

def sound : List Entry → List Json
  | .value document :: rest => document :: sound rest
  | _ => []

theorem sound_value {document : Json} : sound (.value document :: rest) = document :: sound rest :=
  rfl

theorem sound_of_value? {entry : Entry} (missing : entry.value? = none) :
    sound (entry :: rest) = [] := by
  cases entry with
  | value => cases missing
  | _ => rfl

theorem eq_value_of_value? {entry : Entry} {document : Json}
    (present : entry.value? = some document) : entry = .value document := by
  cases entry <;> cases present
  rfl

theorem sound_append (each : ∀ entry ∈ entries, entry ≠ .valueless ∧ entry ≠ .broken) :
    sound (entries ++ rest) = entries.filterMap Entry.value? ++ sound rest := by
  induction entries with
  | nil => rfl
  | cons entry entries ih =>
    obtain ⟨⟨valued, unbroken⟩, others⟩ := List.forall_mem_cons.1 each
    cases entry with
    | value document => exact congrArg (document :: ·) (ih others)
    | valueless => exact absurd rfl valued
    | broken => exact absurd rfl unbroken

theorem Document.readFrom_eq (first : Bool) (fuel : Nat) (reading : Reading) :
    ∃ documents : List Document, readFrom first fuel reading = documents.map some ∨
      readFrom first fuel reading = documents.map some ++ [none] := by
  fun_induction readFrom first fuel reading with
  | case1 | case3 => exact ⟨[], .inl rfl⟩
  | case2 => exact ⟨[], .inr rfl⟩
  | case4 _ _ _ document _ _ ih =>
    obtain ⟨documents, whole | cut⟩ := ih
    · exact ⟨document :: documents, .inl (congrArg _ whole)⟩
    · exact ⟨document :: documents, .inr (congrArg _ cut)⟩

theorem ofDocument_ne_broken (document : Document) : Entry.ofDocument (some document) ≠ .broken := by
  rw [Entry.ofDocument]
  cases document.value? <;> nofun

theorem stream_eq (text : String) : ∃ entries : List Entry, (∀ entry ∈ entries, entry ≠ .broken) ∧
    (stream text = entries ∨ stream text = entries ++ [.broken]) := by
  have apart (documents : List Document) :
      ∀ entry ∈ (documents.map some).map Entry.ofDocument, entry ≠ .broken := by
    intro entry member
    obtain ⟨read, inside, rfl⟩ := List.mem_map.1 member
    obtain ⟨document, -, rfl⟩ := List.mem_map.1 inside
    exact ofDocument_ne_broken document
  obtain ⟨documents, whole | cut⟩ := Document.readFrom_eq true ((Token.list text).length + 1)
    { tokens := Token.list text, size := (Token.list text).length + 1 }
  · exact ⟨_, apart documents, .inl (congrArg (List.map Entry.ofDocument) whole)⟩
  · exact ⟨_, apart documents, .inr
      ((congrArg (List.map Entry.ofDocument) cut).trans List.map_append)⟩

theorem sound_stream {text : String} (valued : ∀ entry ∈ stream text, entry ≠ .valueless) :
    sound (stream text) = (stream text).filterMap Entry.value? ∧
      ((stream text).any (·.value?.isNone) = true ↔ .broken ∈ stream text) := by
  have ends : (stream text).any (·.value?.isNone) = true ↔ .broken ∈ stream text := by
    rw [List.any_eq_true]
    constructor
    · rintro ⟨entry, member, missing⟩
      cases entry with
      | value => cases missing
      | valueless => exact absurd rfl (valued _ member)
      | broken => exact member
    · exact fun member => ⟨_, member, rfl⟩
  refine ⟨?_, ends⟩
  obtain ⟨entries, unbroken, whole | cut⟩ := stream_eq text
  · rw [whole] at valued ⊢
    have all : sound (entries ++ []) = entries.filterMap Entry.value? ++ [] :=
      sound_append fun entry member => ⟨valued entry member, unbroken entry member⟩
    rwa [List.append_nil, List.append_nil] at all
  · rw [cut] at valued ⊢
    rw [sound_append fun entry member =>
      ⟨valued entry (List.mem_append_left _ member), unbroken entry member⟩, List.filterMap_append]
    rfl

end Yaml

namespace Document

open Yaml (sound)

variable {path : String} {index start : Nat} {document : Json} {documents : List Json}
  {entry : Yaml.Entry} {rest : List Yaml.Entry} {found : Contents} {error : PolicyError}

/-! One document. -/

/-- What becomes of a document in its place in a file: nothing of a null one. -/
def outcome? (path : String) : Json × Nat → Option (Except PolicyError PolicyDocument)
  | (.null, _) => none
  | (document, index) => some (read path index document)

theorem outcome?_of_ne_null (present : document ≠ .null) :
    outcome? path (document, index) = some (read path index document) := by
  rw [outcome?]
  exact present

/-- An error in its place: it names the file and, where it gives a reason, starts this with the index
of the document. -/
def Blames (path : String) (index : Nat) : PolicyError → Prop
  | .badConfig place reason => place = path ∧ ∃ rest, reason = Document.place index ++ rest
  | .schemaViolation place _ => place = path
  | _ => False

theorem blames_of_read (refused : read path index document = .error error) :
    Blames path index error := by
  unfold read at refused
  split at refused
  · cases refused
    exact ⟨rfl, _, by simp only [String.append_assoc]; rfl⟩
  split at refused
  · split at refused <;> cases refused
    exact ⟨rfl, _, rfl⟩
  · cases refused
    rfl

theorem takeWhile_digits (index : Nat) (rest : List Char) :
    (Nat.toDigits 10 index ++ ':' :: rest).takeWhile (· ≠ ':') = Nat.toDigits 10 index := by
  have digits : ∀ c ∈ Nat.toDigits 10 index, decide (c ≠ ':') = true := fun c member =>
    decide_eq_true (ne_of_mem_of_not_mem member (Text.notMem_toDigits rfl))
  rw [List.takeWhile_append_of_pos digits]
  simp

theorem place_inj {other : Nat} {reason more : String}
    (same : place index ++ reason = place other ++ more) : index = other := by
  have spelt := congrArg String.toList same
  simp only [place, Nat.toString_eq_repr, String.toList_append, Nat.toList_repr,
    List.append_assoc, List.append_cancel_left_eq] at spelt
  have digits : Nat.toDigits 10 index = Nat.toDigits 10 other := by
    rw [← takeWhile_digits index (' ' :: reason.toList),
      ← takeWhile_digits other (' ' :: more.toList)]
    exact congrArg (List.takeWhile _) spelt
  exact Text.toDigits_injective digits

/-! A file. -/

/-- What becomes of the documents of a file, the first of which has the index `start`. A document
without a value is reported and ends the file. -/
def outcomes (path : String) (start : Nat) (stream : List Yaml.Entry) :
    List (Except PolicyError PolicyDocument) :=
  ((sound stream).zipIdx start).filterMap (outcome? path) ++
    if stream.any (·.value?.isNone) then
      [.error (unreadable path (start + (sound stream).length))]
    else []

theorem outcomes_nil : outcomes path start [] = [] := rfl

theorem outcomes_of_value? (missing : entry.value? = none) :
    outcomes path start (entry :: rest) = [.error (unreadable path start)] := by
  simp [outcomes, Yaml.sound_of_value? missing, missing]

theorem outcomes_value : outcomes path start (.value document :: rest) =
    (outcome? path (document, start)).toList ++ outcomes path (start + 1) rest := by
  have later : start + (sound (.value document :: rest)).length =
      start + 1 + (sound rest).length := by
    rw [Yaml.sound_value, List.length_cons]
    omega
  rw [outcomes, later, Yaml.sound_value, List.zipIdx_cons, List.filterMap_cons]
  rw [outcomes, List.any_cons, Yaml.Entry.value?, Option.isNone_some, Bool.false_or]
  cases outcome? path (document, start) <;> rfl

theorem outcomes_append : outcomes path start (documents.map .value ++ rest) =
    (documents.zipIdx start).filterMap (outcome? path) ++
      outcomes path (start + documents.length) rest := by
  induction documents generalizing start with
  | nil => simp
  | cons document later ih =>
    rw [List.map_cons, List.cons_append, outcomes_value, ih, List.zipIdx_cons, List.filterMap_cons,
      List.length_cons, Nat.add_right_comm, Nat.add_assoc]
    cases outcome? path (document, start) <;> simp

def Contents.add (found : Contents) : Except PolicyError PolicyDocument → Contents
  | .ok decoded => (found.1 ++ [decoded], found.2)
  | .error error => (found.1, found.2 ++ [error])

/-- Reads the documents of a file, from an index on, into what was found before. Null documents are
passed over, and nothing is read after one without a value. -/
def gather (path : String) : Nat → List Yaml.Entry → Contents → Contents
  | _, [], found => found
  | index, entry :: rest, found =>
    match entry.value? with
    | none => found.add (.error (unreadable path index))
    | some document =>
      gather path (index + 1) rest ((outcome? path (document, index)).elim found found.add)

theorem Contents.add_eq (outcome : Except PolicyError PolicyDocument) : found.add outcome =
    (found.1 ++ [outcome].filterMap Except.toOption, found.2 ++ [outcome].filterMap faultOf?) := by
  cases outcome <;> simp [Contents.add, faultOf?, Except.toOption]

theorem gather_eq (stream : List Yaml.Entry) : gather path start stream found =
    (found.1 ++ (outcomes path start stream).filterMap Except.toOption,
      found.2 ++ (outcomes path start stream).filterMap faultOf?) := by
  induction stream generalizing start found with
  | nil => simp [gather, outcomes_nil]
  | cons entry rest ih =>
    rw [gather]
    cases present : entry.value? with
    | none => rw [outcomes_of_value? present, Contents.add_eq]
    | some document =>
      obtain rfl := Yaml.eq_value_of_value? present
      dsimp only
      rw [ih, outcomes_value, List.filterMap_append, List.filterMap_append]
      cases outcome? path (document, start) with
      | none => rfl
      | some outcome =>
        rw [Option.elim_some, Contents.add_eq, Option.toList_some, List.append_assoc,
          List.append_assoc]

theorem readAll_eq_gather (stream : List Yaml.Entry) :
    readAll path start (Yaml.values.upToFault (stream.map Yaml.Entry.value?)) =
      gather path start stream ([], []) := by
  rw [gather_eq]
  induction stream generalizing start with
  | nil => rfl
  | cons entry rest ih =>
    rw [List.map_cons]
    cases present : entry.value? with
    | none => rw [outcomes_of_value? present]; rfl
    | some document =>
      obtain rfl := Yaml.eq_value_of_value? present
      rw [Yaml.values.upToFault, outcomes_value]
      by_cases null : document = .null
      · subst null
        exact ih
      · rw [outcome?_of_ne_null null, readAll, ih]
        · cases read path start document <;> rfl
        · exact null

theorem ofText_eq (path text : String) : ofText path text =
    ((outcomes path 0 (Yaml.stream text)).filterMap Except.toOption,
      (outcomes path 0 (Yaml.stream text)).filterMap faultOf?) := by
  simp only [ofText, Yaml.values, readAll_eq_gather, gather_eq, List.nil_append]

end Document

end PolicyReview
