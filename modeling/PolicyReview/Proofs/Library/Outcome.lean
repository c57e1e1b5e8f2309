import PolicyReview.Proofs.Document.Outcome
import PolicyReview.Proofs.Library.Loading

/-! Accounts of loading. All errors of a library go to one list, file after file and document after
document, and so do its documents. Each document contributes to them on its own, so that a library
that cannot be loaded tells all that is wrong with it, and nothing else. -/

namespace PolicyReview.Library

open Document (Blames outcome? outcomes gather unreadable)
open Yaml (sound)

variable {disk : Disk} {store : ObjectStoreSettings} {locations : List Location}
  {libraryPath : Option Location} {file : SourceFile} {path : String} {found : Document.Contents}

/-- What becomes of the documents of a file. One that is no text is reported as a whole. -/
def outcomesOf (file : SourceFile) : List (Except PolicyError PolicyDocument) :=
  match String.fromUTF8? file.contents with
  | some text => outcomes file.path 0 (Yaml.stream text)
  | none => [.error (notUtf8 file.path)]

def gatherFile (found : Document.Contents) (file : SourceFile) : Document.Contents :=
  match String.fromUTF8? file.contents with
  | some text => gather file.path 0 (Yaml.stream text) found
  | none => found.add (.error (notUtf8 file.path))

theorem gatherFile_eq : gatherFile found file =
    (found.1 ++ (outcomesOf file).filterMap Except.toOption,
      found.2 ++ (outcomesOf file).filterMap faultOf?) := by
  unfold gatherFile outcomesOf
  cases String.fromUTF8? file.contents with
  | none => exact Document.Contents.add_eq _
  | some text => exact Document.gather_eq _

theorem foldl_gatherFile_eq (files : List SourceFile) : files.foldl gatherFile found =
    (found.1 ++ (files.flatMap outcomesOf).filterMap Except.toOption,
      found.2 ++ (files.flatMap outcomesOf).filterMap faultOf?) := by
  induction files generalizing found with
  | nil => simp
  | cons file rest ih =>
    rw [List.foldl_cons, ih, gatherFile_eq, List.flatMap_cons, List.filterMap_append,
      List.filterMap_append, List.append_assoc, List.append_assoc]

theorem documentsOf_eq_outcomes (file : SourceFile) : documentsOf file =
    ((outcomesOf file).filterMap Except.toOption, (outcomesOf file).filterMap faultOf?) := by
  unfold documentsOf outcomesOf
  cases String.fromUTF8? file.contents with
  | none => rfl
  | some text => exact Document.ofText_eq _ _

theorem load_eq_gather : load disk store locations libraryPath =
    let files := documentFiles disk store locations
    let modules := moduleFiles disk store libraryPath
    let found := files.1.foldl gatherFile ([], files.2)
    PolicyErrors.orValue (found.2 ++ modules.2 ++ (modules.1.map moduleOf).filterMap faultOf?)
      { templates := templatesOf found.1
        constraints := constraintsOf found.1
        modules := (modules.1.map moduleOf).filterMap Except.toOption } := by
  have documents : ∀ files : List SourceFile, (files.map documentsOf).flatMap (·.1) =
      (files.flatMap outcomesOf).filterMap Except.toOption := by
    intro files
    simp only [List.flatMap_map, List.filterMap_flatMap, documentsOf_eq_outcomes]
  have errors : ∀ files : List SourceFile, (files.map documentsOf).flatMap (·.2) =
      (files.flatMap outcomesOf).filterMap faultOf? := by
    intro files
    simp only [List.flatMap_map, List.filterMap_flatMap, documentsOf_eq_outcomes]
  simp only [load, foldl_gatherFile_eq, documents, errors, List.nil_append]
  congr 2
  refine List.filterMap_congr fun module _ => ?_
  cases module <;> rfl

theorem outcomesOf_frame (path : String) (documents : List Json) (rest : List Yaml.Entry)
    (before after : List SourceFile) : ∃ earlier later, ∀ document contents text,
      String.fromUTF8? contents = some text →
      Yaml.stream text = documents.map .value ++ .value document :: rest →
      (before ++ ⟨path, contents⟩ :: after).flatMap outcomesOf =
        earlier ++ (outcome? path (document, documents.length)).toList ++ later := by
  refine ⟨before.flatMap outcomesOf ++ documents.zipIdx.filterMap (outcome? path),
    outcomes path (documents.length + 1) rest ++ after.flatMap outcomesOf, ?_⟩
  intro document contents text encoded stream
  have own : outcomesOf ⟨path, contents⟩ = documents.zipIdx.filterMap (outcome? path) ++
      ((outcome? path (document, documents.length)).toList ++
        outcomes path (documents.length + 1) rest) := by
    simp only [outcomesOf, encoded, stream]
    rw [Document.outcomes_append, Document.outcomes_value, Nat.zero_add]
  rw [List.flatMap_append, List.flatMap_cons, own]
  simp only [List.append_assoc]

/-- Every document that is not null is either decoded or reported by one error in its place, and a
reason tells the index of one document only. Read after whatever was found before, a file adds the
documents and the errors of what stands before its first document without a value, in order, and one
error for that. Where all of its YAML has values, this is the syntax error. What becomes of a document
does not depend on those beside it. A library is what its files add up to; if there is any error, all
of them are told instead. -/
theorem load_accounts (disk : Disk) (store : ObjectStoreSettings) (locations : List Location)
    (libraryPath : Option Location) :
    (∀ (path : String) (index : Nat) (document : Json), document ≠ .null →
      (∃ decoded, Document.read path index document = .ok decoded ∧
        outcome? path (document, index) = some (.ok decoded)) ∨
      ∃ error, Document.read path index document = .error error ∧
        outcome? path (document, index) = some (.error error) ∧ Blames path index error) ∧
    (∀ (path reason : String) (index other : Nat), Blames path index (.badConfig path reason) →
      Blames path other (.badConfig path reason) → index = other) ∧
    (∀ (path text : String) (found : Document.Contents),
      let stream := Yaml.stream text
      let results := (sound stream).zipIdx.filterMap (outcome? path)
      gather path 0 stream found =
        (found.1 ++ results.filterMap Except.toOption,
          found.2 ++ results.filterMap faultOf? ++
            if stream.any (·.value?.isNone) then [unreadable path (sound stream).length] else []) ∧
      gather path 0 stream found =
        (found.1 ++ (Document.ofText path text).1, found.2 ++ (Document.ofText path text).2) ∧
      ((∀ entry ∈ stream, entry ≠ .valueless) →
        sound stream = stream.filterMap Yaml.Entry.value? ∧
          (stream.any (·.value?.isNone) = true ↔ .broken ∈ stream))) ∧
    (∀ (path : String) (documents : List Json) (rest : List Yaml.Entry)
        (before after : List SourceFile), ∃ earlier later, ∀ document contents text,
      String.fromUTF8? contents = some text →
      Yaml.stream text = documents.map .value ++ .value document :: rest →
      (before ++ ⟨path, contents⟩ :: after).flatMap outcomesOf =
        earlier ++ (outcome? path (document, documents.length)).toList ++ later) ∧
    let files := documentFiles disk store locations
    let modules := moduleFiles disk store libraryPath
    let results := files.1.flatMap outcomesOf
    files.1.foldl gatherFile ([], files.2) =
      (results.filterMap Except.toOption, files.2 ++ results.filterMap faultOf?) ∧
    load disk store locations libraryPath = PolicyErrors.orValue
      (files.2 ++ results.filterMap faultOf? ++ modules.2 ++
        (modules.1.map moduleOf).filterMap faultOf?)
      { templates := templatesOf (results.filterMap Except.toOption)
        constraints := constraintsOf (results.filterMap Except.toOption)
        modules := (modules.1.map moduleOf).filterMap Except.toOption } := by
  refine ⟨fun path index document present => ?_, fun path reason index other first second => ?_,
    fun path text found => ⟨?_, ?_, Yaml.sound_stream⟩, outcomesOf_frame, ?_, ?_⟩
  · rw [Document.outcome?_of_ne_null present]
    cases answer : Document.read path index document with
    | ok decoded => exact .inl ⟨decoded, rfl, rfl⟩
    | error error => exact .inr ⟨error, rfl, rfl, Document.blames_of_read answer⟩
  · obtain ⟨-, rest, rfl⟩ := first
    obtain ⟨-, more, same⟩ := second
    exact Document.place_inj same
  · simp only [Document.gather_eq, outcomes, List.filterMap_append, Nat.zero_add, List.append_assoc]
    split <;> simp [faultOf?, Except.toOption]
  · rw [Document.gather_eq, Document.ofText_eq]
  · rw [foldl_gatherFile_eq]
    rfl
  · rw [load_eq_gather]
    simp only [foldl_gatherFile_eq]
    rfl

def faultyText : String :=
  "---\n---\napiVersion: constraints.gatekeeper.sh/v1beta1\n" ++
    "kind: Probe\nmetadata:\n  name: probe\nspec: \x7b\x7d\n" ++
    "---\napiVersion: v1\nkind: ConfigMap\n---\nkey: [\n"

def faultyFile : SourceFile where
  path := "policies/faulty.yaml"
  contents := faultyText.toUTF8

def faultyDisk : Disk where
  root := .named [("policies", .named [("faulty.yaml", .file faultyFile.contents)])]

def faultyErrors : PolicyErrors := [
  .badConfig "policies/faulty.yaml"
    "document 2: unrecognized apiVersion 'v1' with kind 'ConfigMap'",
  .badConfig "policies/faulty.yaml" "document 3: invalid yaml"]

theorem faultyFile_outcomes : faultyFile.contents.size ≤ maxFileSize ∧
    (outcomesOf faultyFile).filterMap faultOf? = faultyErrors ∧
    ((outcomesOf faultyFile).filterMap Except.toOption).length = 1 := by
  decide +kernel

theorem faultyText_entries :
    (Yaml.stream faultyText).all (fun entry => entry.isBroken || entry.value?.isSome) = true ∧
    (Yaml.stream faultyText).any (·.value?.isNone) = true := by
  decide +kernel

theorem load_accounts_faulty :
    load faultyDisk {} [onDisk "policies"] none = .error faultyErrors ∧
    ((documentFiles faultyDisk {} [onDisk "policies"]).1.foldl gatherFile ([], [])).1.length = 1 ∧
    ((∀ entry ∈ Yaml.stream faultyText, entry ≠ .valueless) ∧
      .broken ∈ Yaml.stream faultyText) ∧
    ∀ index, Blames "policies/faulty.yaml" index (.badConfig "policies/faulty.yaml"
      "document 3: invalid yaml") → index = 3 := by
  obtain ⟨small, errors, count⟩ := faultyFile_outcomes
  have files : documentFiles faultyDisk {} [onDisk "policies"] = ([faultyFile], []) := by
    have found : filesAt faultyDisk {} isDocumentFile (onDisk "policies") = ([faultyFile], []) :=
      filesAt_sole rfl (isDocumentFile_yaml "faulty") small (by decide)
    simp [documentFiles, found, kept_of_alike]
  obtain ⟨-, unique, reads, -, adds, loads⟩ := load_accounts faultyDisk {} [onDisk "policies"] none
  obtain ⟨each, unread⟩ := faultyText_entries
  have valued : ∀ entry ∈ Yaml.stream faultyText, entry ≠ .valueless := by
    rintro _ member rfl
    exact Bool.false_ne_true (List.all_eq_true.1 each _ member)
  rw [files] at adds loads
  simp only [List.flatMap_cons, List.flatMap_nil, List.append_nil, errors] at adds loads
  refine ⟨?_, ?_, ⟨valued, ?_⟩, fun index blamed => ?_⟩
  · rw [loads]
    rfl
  · simpa only [files, adds] using count
  · exact ((reads "policies/faulty.yaml" faultyText ([], [])).2.2 valued).2.1 unread
  · exact unique _ _ _ _ blamed ⟨rfl, "invalid yaml", by decide⟩

/-- YAML without a value, and then a constraint. -/
def hidingText : String :=
  "key: !Ref x\n---\napiVersion: constraints.gatekeeper.sh/v1beta1\n" ++
    "kind: Probe\nmetadata:\n  name: probe\nspec: \x7b\x7d\n"

/-- No document of the text is a syntax error, and the second one is a constraint. Still the first one
is reported as if it were one, and the second is neither decoded nor reported. -/
theorem ofText_hides :
    (∀ entry ∈ Yaml.stream hidingText, entry ≠ .broken) ∧
    (∃ document decoded, Yaml.stream hidingText = [.valueless, .value document] ∧
      document ≠ .null ∧ Document.read "policies/hiding.yaml" 1 document = .ok decoded) ∧
    Document.ofText "policies/hiding.yaml" hidingText =
      ([], [unreadable "policies/hiding.yaml" 0]) := by
  have shape : (Yaml.stream hidingText).map (fun entry => (entry.isBroken, entry.value?.map
      fun document => (Document.read "policies/hiding.yaml" 1 document).toOption.isSome)) =
        [(false, none), (false, some true)] := by
    decide +kernel
  obtain ⟨first, rest, stream, one, others⟩ := List.map_eq_cons_iff.1 shape
  obtain ⟨second, last, rfl, two, none⟩ := List.map_eq_cons_iff.1 others
  obtain rfl := List.map_eq_nil_iff.1 none
  obtain ⟨unbroken, missing⟩ := Prod.mk.inj one
  obtain ⟨-, present⟩ := Prod.mk.inj two
  obtain ⟨document, valued, decodes⟩ := Option.map_eq_some_iff.1 present
  obtain rfl := Yaml.eq_value_of_value? valued
  obtain ⟨decoded, same⟩ := Option.isSome_iff_exists.1 decodes
  have valueless : first = .valueless := by
    cases first with
    | value => cases missing
    | valueless => rfl
    | broken => cases unbroken
  subst valueless
  rw [Document.ofText_eq, stream, Document.outcomes_of_value? rfl]
  refine ⟨by simp, ⟨document, decoded, rfl, ?_, ?_⟩, rfl⟩
  · rintro rfl
    cases same
  · cases read : Document.read "policies/hiding.yaml" 1 document with
    | ok other =>
      rw [read] at same
      rw [Option.some.inj same]
    | error error =>
      rw [read] at same
      cases same

end PolicyReview.Library
