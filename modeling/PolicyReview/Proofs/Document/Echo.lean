import PolicyReview.Proofs.Document.Decoding
import PolicyReview.Proofs.Json.Order
import PolicyReview.Proofs.Yaml.Order

/-! Echoes of constraints. The echo of a constraint says all of it but where it came from, and the
echo of a decoded document is the document itself, with the defaults that it left out. -/

namespace PolicyReview

/-! Changes of records. -/

namespace Json

def withDefaults : Fields → Fields → Fields
  | [], fields => fields
  | (name, value) :: defaults, fields =>
    withDefaults defaults
      (if (fields.lookup name).isSome then fields else insertEntry name value fields)

def changeFields (name : String) (change : Json → Json) (fields : Fields) : Fields :=
  fields.map fun field => (field.1, if field.1 = name then change field.2 else field.2)

def renameField (name other : String) (fields : Fields) : Fields :=
  match fields.lookup name with
  | some value => insertEntry other value (fields.filter (·.1 ≠ name))
  | none => fields

def mapFields (change : Fields → Fields) : Json → Json
  | .object fields => .object (change fields)
  | value => value

variable {fields defaults : Fields} {name other : String} {value : Json}

theorem lookup_withDefaults (names : (defaults.map (·.1)).Nodup) :
    (withDefaults defaults fields).lookup name =
      (fields.lookup name).or (defaults.lookup name) := by
  induction defaults generalizing fields with
  | nil => simp [withDefaults]
  | cons first rest ih =>
    obtain ⟨apart, names⟩ := List.nodup_cons.1 names
    rw [withDefaults, ih names, lookup_cons_eq_ite]
    by_cases same : name = first.1
    · subst same
      cases found : fields.lookup first.1 <;> simp [found, lookup_insertEntry]
    · cases found : fields.lookup first.1 <;> simp [same, lookup_insertEntry]

theorem withDefaults_ascending (ascending : Ascending fields) (defaults : Fields) :
    Ascending (withDefaults defaults fields) := by
  induction defaults generalizing fields with
  | nil => exact ascending
  | cons first rest ih =>
    rw [withDefaults]
    split
    · exact ih ascending
    · exact ih (ascending.insertEntry _ _)

theorem lookup_changeFields {change : Json → Json} :
    (changeFields name change fields).lookup other =
      if other = name then (fields.lookup name).map change else fields.lookup other := by
  induction fields with
  | nil => simp [changeFields]
  | cons first rest ih =>
    rw [changeFields, List.map_cons, lookup_cons_eq_ite, ← changeFields, ih, lookup_cons_eq_ite,
      lookup_cons_eq_ite]
    by_cases here : other = first.1 <;> by_cases same : other = name <;> simp_all

theorem changeFields_ascending (ascending : Ascending fields) (name : String)
    (change : Json → Json) : Ascending (changeFields name change fields) :=
  List.pairwise_map.2 ascending

theorem lookup_filter_ne (different : other ≠ name) :
    List.lookup other (fields.filter (·.1 ≠ name)) = fields.lookup other := by
  induction fields with
  | nil => rfl
  | cons first rest ih =>
    rw [List.filter_cons, lookup_cons_eq_ite]
    split
    next => rw [lookup_cons_eq_ite, ih]
    next dropped =>
      have same : first.1 = name := by simpa using dropped
      rw [ih, if_neg (same ▸ different)]

theorem lookup_renameField (found : fields.lookup name = some value) (other third : String) :
    (renameField name other fields).lookup third =
      if third = other then some value else if third = name then none else fields.lookup third := by
  simp only [renameField, found, lookup_insertEntry]
  split
  · rfl
  split
  next same =>
    subst same
    refine List.lookup_eq_none_iff.2 fun field member => ?_
    have apart : field.1 ≠ third := of_decide_eq_true (List.mem_filter.1 member).2
    exact bne_iff_ne.2 apart.symm
  next different => exact lookup_filter_ne different

theorem renameField_ascending (ascending : Ascending fields) (name other : String) :
    Ascending (renameField name other fields) := by
  rw [renameField]
  split
  · exact Ascending.insertEntry (List.Pairwise.filter _ ascending) _ _
  · exact ascending

end Json

/-! What was read says what was there. -/

namespace Record

/-- Writing what was read gives back what it was read from. -/
def Restores {α β : Type} (read : β → Option α) (write : α → β) : Prop :=
  ∀ value result, read value = some result → value = write result

variable {α : Type} {read : Json → Option α} {write : α → Json} {members : Json.Fields}
  {name : String} {result : α}

theorem Restores.required (restores : Restores read write)
    (found : member? members name none read = some result) :
    members.lookup name = some (write result) := by
  cases there : members.lookup name with
  | none => simp [member?_none there] at found
  | some value => rw [restores value result ((member?_some there).symm.trans found)]

theorem Restores.optional (restores : Restores read write) {default : α}
    (found : member? members name (some default) read = some result) :
    (members.lookup name).or (some (write default)) = some (write result) := by
  cases there : members.lookup name with
  | none =>
    obtain rfl : default = result := by simpa [member?_none there] using found
    rfl
  | some value =>
    rw [restores value result ((member?_some there).symm.trans found)]
    rfl

/-- A default is the value of a field that was left out. -/
theorem Restores.defaulted (restores : Restores read write) {default : α}
    (found : member? members name (some default) read = some result) (defaults : Json.Fields)
    (names : (defaults.map (·.1)).Nodup) (here : defaults.lookup name = some (write default)) :
    (Json.withDefaults defaults members).lookup name = some (write result) := by
  rw [Json.lookup_withDefaults names, here]
  exact restores.optional found

theorem Restores.kept (restores : Restores read write)
    (found : member? members name none read = some result) (defaults : Json.Fields)
    (names : (defaults.map (·.1)).Nodup) :
    (Json.withDefaults defaults members).lookup name = some (write result) := by
  rw [Json.lookup_withDefaults names, restores.required found]
  rfl

theorem Restores.mapM {β γ : Type} {read : γ → Option β} {write : β → γ}
    (restores : Restores read write) : Restores (List.mapM read) (List.map write) := by
  intro items
  induction items with
  | nil =>
    intro results found
    obtain rfl : [] = results := by simpa using found
    rfl
  | cons item rest ih =>
    intro results found
    simp only [List.mapM_cons, Option.bind_eq_bind, Option.bind_eq_some_iff] at found
    obtain ⟨first, here, later, there, same⟩ := found
    obtain rfl : first :: later = results := by simpa using same
    rw [restores _ _ here, ih _ there]
    rfl

theorem restores_value : Restores (some : Json → Option Json) id :=
  fun _ _ same => Option.some.inj same

theorem restores_string : Restores Json.string? Json.string := by
  rintro (_ | _ | _ | text | _ | _) result found <;> cases found
  rfl

theorem restores_strings : Restores strings? Json.strings := by
  rintro (_ | _ | _ | _ | items | _) result found <;> try cases found
  exact congrArg Json.array (restores_string.mapM _ _ found)

theorem restores_stringMap : Restores stringMap? ObjectMeta.mapJson := by
  rintro (_ | _ | _ | _ | _ | fields) result found <;> try cases found
  have entry : Restores (fun field : String × Json => (Json.string? field.2).map (field.1, ·))
      fun entry : String × String => (entry.1, .string entry.2) := by
    rintro ⟨name, value⟩ entry read
    obtain ⟨text, here, rfl⟩ := Option.map_eq_some_iff.1 read
    exact congrArg (name, ·) (restores_string _ _ here)
  exact congrArg Json.object (entry.mapM _ _ found)

namespace Closed

variable {rules : List Rule} {required : List String} {defaults : Json.Fields}

theorem lookup_outside (closed : Closed rules required members)
    (outside : name ∉ rules.map (·.1)) : members.lookup name = none :=
  List.lookup_eq_none_iff.2 fun field member =>
    bne_iff_ne.2 fun same => outside (same ▸ closed.named field member)

theorem defaulted_outside (closed : Closed rules required members)
    (names : (defaults.map (·.1)).Nodup) (known : defaults.map (·.1) ⊆ rules.map (·.1))
    (outside : name ∉ rules.map (·.1)) :
    (Json.withDefaults defaults members).lookup name = none := by
  have absent : defaults.lookup name = none := lookup_eq_none.2 fun inside => outside (known inside)
  rw [Json.lookup_withDefaults names, closed.lookup_outside outside, absent]
  rfl

end Closed

end Record

namespace Document

open Json Record

/-! Documents with their defaults. -/

def metadataDefaults : Fields := [("annotations", .object []), ("labels", .object [])]

def matchDefaults : Fields := [("exclude", .array []), ("target", .array [.string "**"])]

def specDefaults : Fields := [("match", .object []), ("parameters", .object [])]

def completedMetadata : Json → Json := mapFields (withDefaults metadataDefaults)

def completedMatch : Json → Json := mapFields (withDefaults matchDefaults)

def completedSpec : Json → Json := mapFields fun fields =>
  changeFields "match" completedMatch (withDefaults specDefaults fields)

/-- A constraint document with the defaults of what it left out, and its version under the name
that echoes have for it. -/
def completed : Json → Json := mapFields fun fields =>
  changeFields "metadata" completedMetadata
    (changeFields "spec" completedSpec (renameField "apiVersion" "api_version" fields))

variable {value : Json} {rules : List Rule} {required : List String} {members : Json.Fields}

theorem completedMetadata_eq (shape : IsMetadata value) (ordered : value.Ordered)
    {metadata : ObjectMeta} (read : ObjectMeta.ofJson? value = some metadata) :
    completedMetadata value = metadata.toJson := by
  obtain ⟨members, rfl, closed⟩ := shape
  have opened := closed.members? ["name", "labels", "annotations"] (by simp)
  simp only [ObjectMeta.ofJson?, opened, Option.bind_eq_bind, Option.bind_some,
    Option.bind_eq_some_iff] at read
  obtain ⟨name, named, labels, labelled, annotations, annotated, same⟩ := read
  obtain rfl : ⟨name, labels, annotations⟩ = metadata := by simpa using same
  have distinct : (metadataDefaults.map (·.1)).Nodup := by decide
  refine congrArg Json.object ((withDefaults_ascending ordered.1 _).eq_of_lookups
    [("annotations", some (ObjectMeta.mapJson annotations)),
      ("labels", some (ObjectMeta.mapJson labels)), ("name", some (.string name))]
    (by decide : ["annotations", "labels", "name"].Pairwise (· < ·)) ?_
    fun other => closed.defaulted_outside distinct (by decide))
  rw [List.forall_mem_cons, List.forall_mem_cons, List.forall_mem_singleton]
  exact ⟨restores_stringMap.defaulted annotated _ distinct rfl,
    restores_stringMap.defaulted labelled _ distinct rfl, restores_string.kept named _ distinct⟩

theorem completedMatch_eq (shape : IsMatchSpec value) (ordered : value.Ordered)
    {spec : MatchSpec} (read : MatchSpec.ofJson? value = some spec) :
    completedMatch value = spec.toJson := by
  obtain ⟨members, rfl, closed⟩ := shape
  have opened := closed.members? ["target", "exclude"] (by simp)
  simp only [MatchSpec.ofJson?, opened, Option.bind_eq_bind, Option.bind_some,
    Option.bind_eq_some_iff] at read
  obtain ⟨target, targeted, exclude, excluded, same⟩ := read
  obtain rfl : ⟨target, exclude⟩ = spec := by simpa using same
  have distinct : (matchDefaults.map (·.1)).Nodup := by decide
  refine congrArg Json.object ((withDefaults_ascending ordered.1 _).eq_of_lookups
    [("exclude", some (Json.strings exclude)), ("target", some (Json.strings target))]
    (by decide : ["exclude", "target"].Pairwise (· < ·)) ?_
    fun other => closed.defaulted_outside distinct (by decide))
  rw [List.forall_mem_cons, List.forall_mem_singleton]
  exact ⟨restores_strings.defaulted excluded _ distinct rfl,
    restores_strings.defaulted targeted _ distinct rfl⟩

/-- A severity that is there is a text, so that none was read from null. -/
theorem severity_lookup (closed : Closed rules required members)
    (rule : ("severity", IsText) ∈ rules) {severity : Option String}
    (read : member? members "severity" (some none) (optional? Json.string?) = some severity) :
    members.lookup "severity" = severity.map .string := by
  cases there : members.lookup "severity" with
  | none =>
    obtain rfl : none = severity := by simpa [member?_none there] using read
    rfl
  | some value =>
    obtain ⟨text, rfl⟩ := closed.valid _ rule value there
    obtain rfl : some text = severity := by
      simpa [member?_some there, Record.optional?, Json.string?] using read
    rfl

theorem completedSpec_eq (shape : IsConstraintSpec value) (ordered : value.Ordered)
    {spec : ConstraintSpec} (read : ConstraintSpec.ofJson? value = some spec) :
    completedSpec value = spec.toJson := by
  obtain ⟨members, rfl, closed⟩ := shape
  have opened := closed.members? ["severity", "match", "parameters"] (by simp)
  simp only [ConstraintSpec.ofJson?, opened, Option.bind_eq_bind, Option.bind_some,
    Option.bind_eq_some_iff] at read
  obtain ⟨severity, severe, matchSpec, matched, parameters, given, same⟩ := read
  obtain rfl : ⟨severity, matchSpec, parameters⟩ = spec := by simpa using same
  have distinct : (specDefaults.map (·.1)).Nodup := by decide
  have completes : ((withDefaults specDefaults members).lookup "match").map completedMatch =
      some matchSpec.toJson := by
    rw [lookup_withDefaults distinct]
    cases there : members.lookup "match" with
    | none =>
      obtain rfl : {} = matchSpec := by simpa [member?_none there] using matched
      rfl
    | some value =>
      have shape : IsMatchSpec value := closed.valid ("match", IsMatchSpec) (.head _) value there
      exact congrArg some (completedMatch_eq shape (ordered.of_lookup there)
        ((member?_some there).symm.trans matched))
  have kept : (withDefaults specDefaults members).lookup "severity" = severity.map .string := by
    rw [lookup_withDefaults distinct, severity_lookup closed (by simp) severe]
    cases severity <;> rfl
  have ascending := changeFields_ascending (withDefaults_ascending ordered.1 specDefaults)
    "match" completedMatch
  refine congrArg Json.object (ascending.eq_of_lookups
    [("match", some matchSpec.toJson), ("parameters", some parameters),
      ("severity", severity.map .string)]
    (by decide : ["match", "parameters", "severity"].Pairwise (· < ·)) ?_ ?_ |>.trans ?_)
  · rw [List.forall_mem_cons, List.forall_mem_cons, List.forall_mem_singleton]
    simp only [lookup_changeFields]
    exact ⟨completes, restores_value.defaulted given _ distinct rfl, kept⟩
  · intro other outside
    rw [lookup_changeFields, closed.defaulted_outside distinct (by decide) outside]
    split <;> simp_all
  · cases severity <;> rfl

theorem completed_eq {document : Json} (shape : IsConstraint document) (ordered : document.Ordered)
    {path : String} {constraint : Constraint}
    (read : decodeConstraint? path document = some constraint) :
    completed document = constraint.echo := by
  obtain ⟨members, rfl, closed⟩ := shape
  have opened := closed.members? ["apiVersion", "kind", "metadata", "spec"] (by simp)
  simp only [decodeConstraint?, opened, Option.bind_eq_bind, Option.bind_some,
    Option.bind_eq_some_iff] at read
  obtain ⟨version, versioned, kind, declared, metadata, described, spec, specified, same⟩ := read
  obtain rfl : ⟨path, version, kind, metadata, spec⟩ = constraint := by simpa using same
  have moved := lookup_renameField (restores_string.required versioned) "api_version"
  obtain ⟨about, foundAbout⟩ := closed.present "metadata" (by decide)
  obtain ⟨inner, foundSpec⟩ := closed.present "spec" (by decide)
  have completesMetadata : completedMetadata about = metadata.toJson :=
    completedMetadata_eq (closed.valid ("metadata", IsMetadata) (by simp) about foundAbout)
      (ordered.of_lookup foundAbout) ((member?_some foundAbout).symm.trans described)
  have completesSpec : completedSpec inner = spec.toJson :=
    completedSpec_eq (closed.valid ("spec", IsConstraintSpec) (by simp) inner foundSpec)
      (ordered.of_lookup foundSpec) ((member?_some foundSpec).symm.trans specified)
  refine congrArg Json.object
    ((changeFields_ascending (changeFields_ascending
      (renameField_ascending ordered.1 _ _) _ _) _ _).eq_of_lookups
      [("api_version", some (.string version)), ("kind", some (.string kind)),
        ("metadata", some metadata.toJson), ("spec", some spec.toJson)]
      (by decide : ["api_version", "kind", "metadata", "spec"].Pairwise (· < ·)) ?_ ?_)
  · rw [List.forall_mem_cons, List.forall_mem_cons, List.forall_mem_cons, List.forall_mem_singleton]
    simp only [lookup_changeFields, moved]
    simp [restores_string.required declared, foundAbout, foundSpec, completesMetadata,
      completesSpec]
  · intro other outside
    simp only [List.map_cons, List.map_nil, List.mem_cons, List.not_mem_nil, or_false,
      not_or] at outside
    obtain ⟨notVersion, notKind, notMetadata, notSpec⟩ := outside
    rw [lookup_changeFields, if_neg notMetadata, lookup_changeFields, if_neg notSpec, moved,
      if_neg notVersion]
    split
    · rfl
    next different =>
      exact closed.lookup_outside (by simp [different, notKind, notMetadata, notSpec])

/-- A constraint is read from nothing but documents of its shape. -/
theorem shape_of_read {path : String} {index : Nat} {document : Json} {constraint : Constraint}
    (accepted : read path index document = .ok (.constraint constraint)) :
    IsConstraint document ∧ decodeConstraint? path document = some constraint := by
  cases classified : Kind.of? document with
  | none => simp [read, classified] at accepted
  | some kind =>
    by_cases valid : PolicyReview.Schema.validate .twentyTwenty (Schema.ofKind kind) document = []
    · obtain ⟨decoded, same, answered⟩ := read_of_valid path index classified valid
      obtain rfl : decoded = .constraint constraint := by simpa [answered] using accepted
      cases kind with
      | template =>
        cases read : decodeTemplate path document <;> simp [decode, read, Except.map] at same
      | constraint =>
        refine ⟨(Schema.validate_ofKind_eq_nil _ _).1 valid, ?_⟩
        cases read : decodeConstraint? path document with
        | none => simp [decode, read] at same
        | some other => simpa [decode, read] using same
    · simp [read_of_invalid path index classified valid] at accepted

/-! Echoes. -/

/-- The constraint that an echo says, as one that came from the path. -/
def ofEcho? (path : String) (echo : Json) : Option Constraint := do
  let apiVersion ← (echo.field? "api_version").bind Json.string?
  let kind ← (echo.field? "kind").bind Json.string?
  let metadata ← (echo.field? "metadata").bind ObjectMeta.ofJson?
  let spec ← (echo.field? "spec").bind ConstraintSpec.ofJson?
  return { path, apiVersion, kind, metadata, spec }

theorem metadata_ofJson?_toJson (metadata : ObjectMeta) :
    ObjectMeta.ofJson? metadata.toJson = some metadata := by
  simp [ObjectMeta.ofJson?, ObjectMeta.toJson, Record.members?, Record.member?, List.lookup_cons,
    Json.string?]

theorem match_ofJson?_toJson (spec : MatchSpec) : MatchSpec.ofJson? spec.toJson = some spec := by
  simp [MatchSpec.ofJson?, MatchSpec.toJson, Record.members?, Record.member?, List.lookup_cons]

theorem spec_ofJson?_toJson (spec : ConstraintSpec) :
    ConstraintSpec.ofJson? spec.toJson = some spec := by
  obtain ⟨severity, matchSpec, parameters⟩ := spec
  cases severity <;> simp [ConstraintSpec.ofJson?, ConstraintSpec.toJson, Record.members?,
    Record.member?, List.lookup_cons, match_ofJson?_toJson, Record.optional?, Json.string?]

theorem ofEcho?_echo (path : String) (constraint : Constraint) :
    ofEcho? path constraint.echo = some { constraint with path } := by
  simp [ofEcho?, Constraint.echo, Json.field?, List.lookup_cons, Json.string?, metadata_ofJson?_toJson,
    spec_ofJson?_toJson]

/-- Nothing of a constraint is lost in its echo, and nothing of its document is: the echo is the
document with the defaults of what it left out. -/
theorem echo_complete (path : String) :
    (∀ constraint : Constraint, ofEcho? path constraint.echo = some { constraint with path }) ∧
    (∀ index document constraint, document.Ordered →
      read path index document = .ok (.constraint constraint) →
      constraint.echo = completed document) ∧
    ∀ text document, some document ∈ Yaml.values text → document.Ordered := by
  refine ⟨ofEcho?_echo path, fun index document constraint ordered accepted => ?_,
    fun text document => Yaml.values_ordered⟩
  obtain ⟨shape, decoded⟩ := shape_of_read accepted
  exact (completed_eq shape ordered decoded).symm

def sparse : Json := .object [
  ("apiVersion", .string "constraints.gatekeeper.sh/v1beta1"),
  ("kind", .string "Probe"),
  ("metadata", .object [("name", .string "probe")]),
  ("spec", .object [])]

theorem echo_complete_sparse :
    ∃ constraint, read "probe.yaml" 0 sparse = .ok (.constraint constraint) ∧
      constraint.echo = completed sparse ∧
      ofEcho? "other.yaml" (completed sparse) = some { constraint with path := "other.yaml" } := by
  obtain ⟨_, completes, _⟩ := echo_complete "probe.yaml"
  obtain ⟨restores, _, _⟩ := echo_complete "other.yaml"
  have ordered : sparse.Ordered := by
    simp only [sparse, Json.Ordered, Json.OrderedFields, Ascending]
    decide
  have accepted : ∃ constraint, read "probe.yaml" 0 sparse = .ok (.constraint constraint) :=
    ⟨_, rfl⟩
  obtain ⟨constraint, accepted⟩ := accepted
  have same := completes 0 sparse constraint ordered accepted
  exact ⟨constraint, accepted, same, same ▸ restores constraint⟩

end Document

end PolicyReview
