import PolicyReview.Proofs.Document.Shape

/-! Decoding of policy documents. A document of the right shape can be decoded, so that reading a
document whose kind is known ends in the document or in what its schema finds wrong with it. -/

namespace PolicyReview

namespace Record

variable {α : Type} {members : Json.Fields} {rules inner : List Rule}
  {required innerRequired : List String} {holds : Json → Prop} {read : Json → Option α}
  {name : String} {value : Json}

/-- The reader reads every value that has the property. -/
def Reads (read : Json → Option α) (holds : Json → Prop) : Prop :=
  ∀ value, holds value → ∃ result, read value = some result

theorem member?_some {default : Option α} (found : members.lookup name = some value) :
    member? members name default read = read value := by
  simp [member?, found]

theorem member?_none {default : Option α} (missing : members.lookup name = none) :
    member? members name default read = default := by
  simp [member?, missing]

namespace Closed

theorem members? (closed : Closed rules required members) (names : List String)
    (known : ∀ rule ∈ rules, rule.1 ∈ names) :
    Record.members? names (.object members) = some members := by
  have inside : members.all (names.contains ·.1) = true := by
    rw [List.all_eq_true]
    intro member here
    obtain ⟨rule, there, same⟩ := List.mem_map.1 (closed.named member here)
    exact List.contains_iff_mem.2 (same ▸ known rule there)
  rw [Record.members?, if_pos inside]

theorem reads_required (closed : Closed rules required members) (name : String)
    (reads : Reads read holds) (rule : (name, holds) ∈ rules) (needed : name ∈ required) :
    ∃ result, member? members name none read = some result := by
  obtain ⟨value, found⟩ := closed.present name needed
  rw [member?_some found]
  exact reads value (closed.valid _ rule value found)

theorem reads_optional (closed : Closed rules required members) (name : String) (default : α)
    (reads : Reads read holds) (rule : (name, holds) ∈ rules) :
    ∃ result, member? members name (some default) read = some result := by
  cases found : members.lookup name with
  | none => exact ⟨default, member?_none found⟩
  | some value =>
    rw [member?_some found]
    exact reads value (closed.valid _ rule value found)

theorem reads_record (closed : Closed rules required members) (name : String) (names : List String)
    (rule : (name, Json.IsRecord inner innerRequired) ∈ rules) (needed : name ∈ required)
    (known : ∀ rule ∈ inner, rule.1 ∈ names) :
    ∃ inside, member? members name none (Record.members? names) = some inside ∧
      Closed inner innerRequired inside := by
  obtain ⟨value, found⟩ := closed.present name needed
  obtain ⟨inside, rfl, innerClosed⟩ := closed.valid _ rule value found
  exact ⟨inside, by rw [member?_some found, innerClosed.members? names known], innerClosed⟩

end Closed

theorem reads_mapM {β : Type} {items : List β} {f : β → Option α}
    (each : ∀ item ∈ items, ∃ result, f item = some result) :
    ∃ results, items.mapM f = some results := by
  induction items with
  | nil => exact ⟨[], rfl⟩
  | cons item rest ih =>
    obtain ⟨result, first⟩ := each item (by simp)
    obtain ⟨results, later⟩ := ih fun other member => each other (by simp [member])
    exact ⟨result :: results, by simp [first, later]⟩

/-- A list is read back when each of its items is. -/
theorem mapM_map_eq {Entry Item : Type} {write : Entry → Item} {read : Item → Option α}
    {value : Entry → α} (each : ∀ entry, read (write entry) = some (value entry))
    (entries : List Entry) : (entries.map write).mapM read = some (entries.map value) := by
  have same : read ∘ write = fun entry => pure (value entry) := by
    funext entry
    exact each entry
  rw [List.mapM_map, same]
  exact List.mapM_pure

end Record

namespace Document

open Record

theorem reads_name : Reads Json.string? IsName := by
  rintro _ ⟨text, _, rfl⟩
  exact ⟨text, rfl⟩

theorem reads_version (versions : List String) : Reads Json.string? (IsVersion versions) := by
  rintro _ ⟨version, _, rfl⟩
  exact ⟨version, rfl⟩

theorem reads_optional : Reads (Record.optional? Json.string?) IsText := by
  rintro _ ⟨text, rfl⟩
  exact ⟨some text, rfl⟩

theorem reads_object : Reads some IsObject := fun value _ => ⟨value, rfl⟩

@[simp] theorem strings?_strings (texts : List String) :
    Record.strings? (Json.strings texts) = some texts := by
  calc (texts.map Json.string).mapM Json.string?
    _ = some (texts.map id) := by
      apply mapM_map_eq
      intro text
      rfl
    _ = some texts := by rw [List.map_id]

@[simp] theorem stringMap?_mapJson (entries : List (String × String)) :
    Record.stringMap? (ObjectMeta.mapJson entries) = some entries := by
  calc Json.stringFields? (entries.map fun entry => (entry.1, .string entry.2))
    _ = some (entries.map id) := by
      apply mapM_map_eq
      intro entry
      rfl
    _ = some entries := by rw [List.map_id]

theorem reads_texts : Reads Record.strings? IsTexts := by
  rintro _ ⟨texts, rfl⟩
  exact ⟨texts, strings?_strings texts⟩

theorem reads_textMap : Reads Record.stringMap? IsTextMap := by
  rintro _ ⟨entries, rfl⟩
  exact ⟨entries, stringMap?_mapJson entries⟩

theorem reads_metadata : Reads ObjectMeta.ofJson? IsMetadata := by
  rintro _ ⟨members, rfl, closed⟩
  have opened := closed.members? ["name", "labels", "annotations"] (by simp)
  obtain ⟨name, named⟩ := closed.reads_required "name" reads_name (by simp) (by simp)
  obtain ⟨labels, labelled⟩ := closed.reads_optional "labels" [] reads_textMap (by simp)
  obtain ⟨annotations, annotated⟩ := closed.reads_optional "annotations" [] reads_textMap (by simp)
  refine ⟨⟨name, labels, annotations⟩, ?_⟩
  simp [ObjectMeta.ofJson?, opened, named, labelled, annotated]

/-! Templates. -/

theorem reads_generated : Reads generated? IsGenerated := by
  rintro _ ⟨members, rfl, closed⟩
  have opened := closed.members? ["spec"] (by simp)
  obtain ⟨spec, foundSpec, closedSpec⟩ :=
    closed.reads_record "spec" ["names", "validation"] (.head _) (by simp) (by simp)
  obtain ⟨names, foundNames, closedNames⟩ :=
    closedSpec.reads_record "names" ["kind", "plural", "shortNames"] (.head _) (by simp) (by simp)
  obtain ⟨kind, foundKind⟩ := closedNames.reads_required "kind" reads_name (by simp) (by simp)
  obtain ⟨plural, foundPlural⟩ := closedNames.reads_optional "plural" none reads_optional (by simp)
  obtain ⟨aliases, foundAliases⟩ := closedNames.reads_optional "shortNames" [] reads_texts (by simp)
  obtain ⟨validation, foundValidation, closedValidation⟩ :=
    closedSpec.reads_record "validation" ["openAPIV3Schema"] (.tail _ (.head _)) (by simp) (by simp)
  obtain ⟨schema, foundSchema⟩ :=
    closedValidation.reads_required "openAPIV3Schema" reads_object (by simp) (by simp)
  refine ⟨(kind, schema), ?_⟩
  simp [generated?, opened, foundSpec, foundNames, foundKind, foundPlural, foundAliases,
    foundValidation, foundSchema]

theorem reads_source {rules : List Rule} {required : List String} {members : Json.Fields}
    (closed : Record.Closed rules required members) (libraries : ("libs", IsTexts) ∈ rules)
    (source : ("rego", IsName) ∈ rules) (needed : "rego" ∈ required) :
    ∃ result, source? members = some result := by
  obtain ⟨source, foundSource⟩ := closed.reads_required "rego" reads_name source needed
  obtain ⟨libraries, foundLibraries⟩ := closed.reads_optional "libs" [] reads_texts libraries
  exact ⟨(source, libraries), by simp [source?, foundSource, foundLibraries]⟩

theorem reads_entry (target : String) : Reads ( bindingOfEntry? target) IsSource := by
  rintro _ ⟨members, rfl, closed⟩
  have opened := closed.members? ["rego", "libs"] (by simp)
  obtain ⟨⟨source, libraries⟩, found⟩ :=
    reads_source closed (by simp) (by simp) (by simp)
  exact ⟨⟨target, source, libraries⟩, by simp [opened, found, bindingOfEntry?]⟩

theorem reads_item : Reads bindingOfItem? IsNamedSource := by
  rintro _ ⟨members, rfl, closed⟩
  have opened := closed.members? ["target", "rego", "libs"] (by simp)
  obtain ⟨target, named⟩ := closed.reads_required "target" reads_name (by simp) (by simp)
  obtain ⟨⟨source, libraries⟩, found⟩ :=
    reads_source closed (by simp) (by simp) (by simp)
  exact ⟨⟨target, source, libraries⟩, by simp [bindingOfItem?, opened, named, found]⟩

theorem reads_bindings : Reads bindings? AreTargets := by
  rintro _ (⟨_, sources⟩ | ⟨_, sources⟩)
  · exact reads_mapM fun field member => reads_entry field.1 field.2 (sources field member)
  · exact reads_mapM fun item member => reads_item item (sources item member)

/-- By its shape a template declares the kind that all templates share. -/
theorem declaredTemplate?_of_shape (path : String) {document : Json}
    (shape : IsTemplate document) :
    ∃ template, declaredTemplate? path document = some (templateKind, template) := by
  obtain ⟨members, rfl, closed⟩ := shape
  have opened := closed.members? ["apiVersion", "kind", "metadata", "spec"] (by simp)
  obtain ⟨version, versioned⟩ :=
    closed.reads_required "apiVersion" (reads_version _) (.head _) (by decide)
  obtain ⟨kind, declared⟩ := closed.present "kind" (by decide)
  obtain rfl : kind = .string templateKind :=
    closed.valid ("kind", (· = .string templateKind)) (.tail _ (.head _)) _ declared
  obtain ⟨metadata, foundMetadata⟩ :=
    closed.reads_required "metadata" reads_metadata (.tail _ (.tail _ (.head _))) (by decide)
  obtain ⟨spec, foundSpec, closedSpec⟩ := closed.reads_record "spec" ["crd", "targets"]
    (.tail _ (.tail _ (.tail _ (.head _)))) (by decide) (by simp)
  obtain ⟨generated, foundGenerated⟩ :=
    closedSpec.reads_required "crd" reads_generated (.head _) (by decide)
  obtain ⟨targets, foundTargets⟩ :=
    closedSpec.reads_required "targets" reads_bindings (.tail _ (.head _)) (by decide)
  refine ⟨⟨path, version, metadata, generated.1, generated.2, targets⟩, ?_⟩
  simp [declaredTemplate?, opened, versioned, member?_some declared, Json.string?, foundMetadata,
    foundSpec, foundGenerated, foundTargets]

/-! Constraints. -/

theorem reads_matchSpec : Reads MatchSpec.ofJson? IsMatchSpec := by
  rintro _ ⟨members, rfl, closed⟩
  have opened := closed.members? ["target", "exclude"] (by simp)
  obtain ⟨target, foundTarget⟩ := closed.reads_optional "target" ["**"] reads_texts (by simp)
  obtain ⟨exclude, foundExclude⟩ := closed.reads_optional "exclude" [] reads_texts (by simp)
  exact ⟨⟨target, exclude⟩, by simp [MatchSpec.ofJson?, opened, foundTarget, foundExclude]⟩

theorem reads_constraintSpec : Reads ConstraintSpec.ofJson? IsConstraintSpec := by
  rintro _ ⟨members, rfl, closed⟩
  have opened := closed.members? ["severity", "match", "parameters"] (by simp)
  obtain ⟨severity, foundSeverity⟩ := closed.reads_optional "severity" none reads_optional (by simp)
  obtain ⟨matchSpec, foundMatch⟩ := closed.reads_optional "match" {} reads_matchSpec (.head _)
  obtain ⟨parameters, foundParameters⟩ :=
    closed.reads_optional "parameters" (.object []) reads_object (.tail _ (.head _))
  refine ⟨⟨severity, matchSpec, parameters⟩, ?_⟩
  simp [ConstraintSpec.ofJson?, opened, foundSeverity, foundMatch, foundParameters]

theorem reads_constraintKind :
    Reads Json.string? fun value => IsName value ∧ value ≠ .string templateKind :=
  fun value named => reads_name value named.1

theorem decodeConstraint?_of_shape (path : String) {document : Json}
    (shape : IsConstraint document) :
    ∃ constraint, decodeConstraint? path document = some constraint := by
  obtain ⟨members, rfl, closed⟩ := shape
  have opened := closed.members? ["apiVersion", "kind", "metadata", "spec"] (by simp)
  obtain ⟨version, versioned⟩ :=
    closed.reads_required "apiVersion" (reads_version _) (.head _) (by decide)
  obtain ⟨kind, declared⟩ :=
    closed.reads_required "kind" reads_constraintKind (.tail _ (.head _)) (by decide)
  obtain ⟨metadata, foundMetadata⟩ :=
    closed.reads_required "metadata" reads_metadata (.tail _ (.tail _ (.head _))) (by decide)
  obtain ⟨spec, foundSpec⟩ := closed.reads_required "spec" reads_constraintSpec
    (.tail _ (.tail _ (.tail _ (.head _)))) (by decide)
  refine ⟨⟨path, version, kind, metadata, spec⟩, ?_⟩
  simp [decodeConstraint?, opened, versioned, declared, foundMetadata, foundSpec]

theorem decode_of_shape (path : String) {kind : Kind} {document : Json}
    (shape : kind.Shape document) : ∃ decoded, decode path kind document = .ok decoded := by
  cases kind with
  | template =>
    obtain ⟨template, declared⟩ := declaredTemplate?_of_shape path shape
    exact ⟨.template template, by simp [decode, decodeTemplate, declared, Except.map]⟩
  | constraint =>
    obtain ⟨constraint, decoded⟩ := decodeConstraint?_of_shape path shape
    exact ⟨.constraint constraint, by simp [decode, decoded]⟩

/-! Reading. -/

variable {document : Json} {kind : Kind} (path : String) (index : Nat)

theorem read_of_valid (classified : Kind.of? document = some kind)
    (valid : PolicyReview.Schema.validate .twentyTwenty (Schema.ofKind kind) document = []) :
    ∃ decoded, decode path kind document = .ok decoded ∧
      read path index document = .ok decoded := by
  obtain ⟨decoded, same⟩ := decode_of_shape path ((Schema.validate_ofKind_eq_nil _ _).1 valid)
  exact ⟨decoded, same, by simp [read, classified, valid, same]⟩

theorem read_of_invalid (classified : Kind.of? document = some kind)
    (invalid : PolicyReview.Schema.validate .twentyTwenty (Schema.ofKind kind) document ≠ []) :
    read path index document = .error (.schemaViolation path
      ((PolicyReview.Schema.validate .twentyTwenty (Schema.ofKind kind) document).map
        PolicyReview.Schema.Violation.message)) := by
  simp only [read, classified]

/-- What is accepted has the shape of its kind. -/
theorem read_eq_ok {decoded : PolicyDocument} : read path index document = .ok decoded ↔
    ∃ kind, Kind.of? document = some kind ∧ kind.Shape document ∧
      decode path kind document = .ok decoded := by
  constructor
  · intro accepted
    cases classified : Kind.of? document with
    | none => simp [read, classified] at accepted
    | some kind =>
      refine ⟨kind, rfl, ?_⟩
      rw [← Schema.validate_ofKind_eq_nil]
      by_cases valid : PolicyReview.Schema.validate .twentyTwenty (Schema.ofKind kind) document = []
      · obtain ⟨_, same, answered⟩ := read_of_valid path index classified valid
        rw [answered] at accepted
        exact ⟨valid, same.trans (congrArg _ (Except.ok.inj accepted))⟩
      · rw [read_of_invalid path index classified valid] at accepted
        cases accepted
  · intro accepted
    obtain ⟨kind, classified, shape, same⟩ := accepted
    have valid := (Schema.validate_ofKind_eq_nil kind document).2 shape
    obtain ⟨_, again, answered⟩ := read_of_valid path index classified valid
    rw [again] at same
    exact answered.trans (congrArg _ (Except.ok.inj same))

/-- A document of a known kind is read as what it decodes to when the schema of its kind passes it,
and otherwise reported with what the schema finds; a document that the schema passes can always
be decoded. The schema passes the documents of one shape. -/
theorem read_of_kind (classified : Kind.of? document = some kind) :
    let violations := PolicyReview.Schema.validate .twentyTwenty (Schema.ofKind kind) document
    (violations = [] ↔ kind.Shape document) ∧
    (∀ decoded, read path index document = .ok decoded ↔
      violations = [] ∧ decode path kind document = .ok decoded) ∧
    (violations = [] → ∃ decoded, decode path kind document = .ok decoded) ∧
    (violations ≠ [] → read path index document =
      .error (.schemaViolation path (violations.map PolicyReview.Schema.Violation.message))) ∧
    ∀ place reason, read path index document ≠ .error (.badConfig place reason) := by
  intro violations
  refine ⟨Schema.validate_ofKind_eq_nil kind document, fun decoded => ?_, fun valid => ?_,
    read_of_invalid path index classified, fun place reason => ?_⟩
  · by_cases valid : violations = []
    · obtain ⟨result, same, answered⟩ := read_of_valid path index classified valid
      simp [answered, same, valid]
    · simp [read_of_invalid path index classified valid, valid]
  · obtain ⟨decoded, same, _⟩ := read_of_valid path index classified valid
    exact ⟨decoded, same⟩
  · by_cases valid : violations = []
    · obtain ⟨_, _, answered⟩ := read_of_valid path index classified valid
      simp [answered]
    · simp [read_of_invalid path index classified valid]

/-- A template that lists one source with the given members. -/
def listing (source : Json.Fields) : Json := .object [
  ("apiVersion", .string "templates.gatekeeper.sh/v1beta1"),
  ("kind", .string "ConstraintTemplate"),
  ("metadata", .object [("name", .string "probe")]),
  ("spec", .object [
    ("crd", .object [("spec", .object [
      ("names", .object [("kind", .string "Probe")]),
      ("validation", .object [("openAPIV3Schema", .object [])])])]),
    ("targets", .array [.object source])])]

theorem read_of_kind_listing :
    (∃ decoded, read "probe.yaml" 0
      (listing [("rego", .string "package probe"), ("target", .string "probes")]) = .ok decoded) ∧
    ∃ messages, read "probe.yaml" 0 (listing [("rego", .string "package probe")]) =
      .error (.schemaViolation "probe.yaml" messages) := by
  constructor
  · have classified : Kind.of? (listing
        [("rego", .string "package probe"), ("target", .string "probes")]) = some .template := by
      decide
    obtain ⟨_, reads, decodes, _⟩ := read_of_kind "probe.yaml" 0 classified
    obtain ⟨decoded, same⟩ := decodes rfl
    exact ⟨decoded, (reads decoded).2 ⟨rfl, same⟩⟩
  · have classified : Kind.of? (listing [("rego", .string "package probe")]) = some .template := by
      decide
    obtain ⟨_, _, _, reported, _⟩ := read_of_kind "probe.yaml" 0 classified
    exact ⟨_, reported (by intro valid; cases valid)⟩

end Document

end PolicyReview
