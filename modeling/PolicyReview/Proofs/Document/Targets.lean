import PolicyReview.Proofs.Document.Decoding
import PolicyReview.Proofs.Json.Order

/-! Targets of templates. A template gives the sources of its targets as a map or as a list of
sources that name their targets. In whatever document they stand, both are accepted or both are
refused, and what is read differs in the order of the bindings at most. -/

namespace PolicyReview

namespace Record

variable {members : Json.Fields} {rules : List Rule} {required : List String}
  {name other : String} {first second : Json}

theorem Closed.replace (closed : Closed rules required (insertEntry name first members))
    (allowed : ∀ holds, (name, holds) ∈ rules → holds first → holds second) :
    Closed rules required (insertEntry name second members) := by
  refine ⟨fun member inside => ?_, fun needed known => ?_, fun rule known value found => ?_⟩
  · have there := mem_names_insertEntry.1 (List.mem_map_of_mem inside)
    obtain ⟨old, inside, same⟩ := List.mem_map.1 (mem_names_insertEntry.2 there)
    exact same ▸ closed.named old inside
  · obtain ⟨old, found⟩ := closed.present needed known
    rw [lookup_insertEntry] at found ⊢
    split at found
    next same => exact ⟨second, if_pos same⟩
    next apart => exact ⟨old, by rw [if_neg apart, found]⟩
  · have valid := closed.valid rule known
    rw [lookup_insertEntry] at valid found
    split at found
    next same =>
      obtain rfl := Option.some.inj found
      exact allowed rule.2 (same ▸ known) (valid first (if_pos same))
    next apart => exact valid value (by rw [if_neg apart, found])

theorem members?_insertEntry (names : List String) :
    members? names (.object (insertEntry name first members)) =
      if (name :: members.map (·.1)).all (names.contains ·) then
        some (insertEntry name first members)
      else none := by
  have known : (insertEntry name first members).all (names.contains ·.1) =
      (name :: members.map (·.1)).all (names.contains ·) := by
    rw [Bool.eq_iff_iff, List.all_eq_true, List.all_eq_true]
    constructor
    · intro known other inside
      obtain ⟨member, there, same⟩ :=
        List.mem_map.1 (mem_names_insertEntry.2 (List.mem_cons.1 inside))
      exact same ▸ known member there
    · intro known member inside
      apply known
      exact List.mem_cons.2 (mem_names_insertEntry.1 (List.mem_map_of_mem inside))
  rw [members?, known]

theorem member?_insertEntry {Member : Type} (default : Option Member)
    (read : Json → Option Member) : member? (insertEntry name first members) other default read =
      if other = name then read first else member? members other default read := by
  by_cases same : other = name <;> simp [member?, lookup_insertEntry, same]

end Record

/-- The source that a template states for a target, perhaps with libraries. -/
structure StatedSource where
  source : String
  libraries : Option (List String)
  filled : source ≠ ""

namespace StatedSource

def members (stated : StatedSource) : Json.Fields :=
  (match stated.libraries with
    | some libraries => [("libs", Json.strings libraries)]
    | none => []) ++ [("rego", .string stated.source)]

/-- The source for a target; libraries that are not stated are none. -/
def binding (target : String) (stated : StatedSource) : TargetBinding where
  target
  source := stated.source
  libraries := stated.libraries.getD []

end StatedSource

/-- The targets of a template, each once, with their sources; at least one. -/
structure StatedTargets where
  sources : List (String × StatedSource)
  ascending : Ascending sources
  inhabited : sources ≠ []
  named : ∀ entry ∈ sources, entry.1 ≠ ""

theorem StatedTargets.eq_of_ascending (targets : StatedTargets)
    {listed : List (String × StatedSource)} (same : listed.Perm targets.sources)
    (ascending : Ascending listed) : listed = targets.sources :=
  same.eq_of_pairwise (fun _ _ _ _ below above => absurd below above.not_gt) ascending
    targets.ascending

namespace Document

open Record

def mapping (sources : List (String × StatedSource)) : Json :=
  .object (sources.map fun entry => (entry.1, .object entry.2.members))

def sequence (sources : List (String × StatedSource)) : Json :=
  .array (sources.map fun entry => .object (entry.2.members ++ [("target", .string entry.1)]))

def bindingsOf (sources : List (String × StatedSource)) : List TargetBinding :=
  sources.map fun entry => entry.2.binding entry.1

/-- A document with the given targets in its specification, which has the other fields of `spec`
and is beside the other fields of `document`. -/
def withTargets (document spec : Json.Fields) (targets : Json) : Json :=
  .object (Json.insertField "spec" (.object (Json.insertField "targets" targets spec)) document)

theorem withTargets_eq (document spec : Json.Fields) (targets : Json) :
    withTargets document spec targets =
      .object (insertEntry "spec" (.object (insertEntry "targets" targets spec)) document) := by
  rw [withTargets, Json.insertField_eq, Json.insertField_eq]

/-! Shapes. -/

theorem isSource_members (stated : StatedSource) : IsSource (.object stated.members) := by
  obtain ⟨source, libraries, filled⟩ := stated
  refine ⟨_, rfl, ?_⟩
  cases libraries <;> constructor <;>
    simp [StatedSource.members, List.lookup_cons, IsName, IsTexts, filled]

theorem isNamedSource_members {target : String} (named : target ≠ "") (stated : StatedSource) :
    IsNamedSource (.object (stated.members ++ [("target", .string target)])) := by
  obtain ⟨source, libraries, filled⟩ := stated
  refine ⟨_, rfl, ?_⟩
  cases libraries <;> constructor <;>
    simp [StatedSource.members, List.lookup_cons, IsName, IsTexts, filled, named]

theorem areTargets_mapping (targets : StatedTargets) : AreTargets (mapping targets.sources) := by
  refine .map (by simp [targets.inhabited]) fun field member => ?_
  obtain ⟨entry, _, rfl⟩ := List.mem_map.1 member
  exact isSource_members entry.2

theorem areTargets_sequence (targets : StatedTargets) {listed : List (String × StatedSource)}
    (same : listed.Perm targets.sources) : AreTargets (sequence listed) := by
  have inhabited : listed ≠ [] := fun empty => targets.inhabited (empty ▸ same).nil_eq.symm
  refine .list (by simp [inhabited]) fun item member => ?_
  obtain ⟨entry, there, rfl⟩ := List.mem_map.1 member
  exact isNamedSource_members (targets.named entry (same.subset there)) entry.2

variable {document spec : Json.Fields} {first second : Json}

theorem isTemplate_withTargets (allowed : AreTargets second)
    (shape : IsTemplate (withTargets document spec first)) :
    IsTemplate (withTargets document spec second) := by
  rw [withTargets_eq] at shape ⊢
  have closed := Json.isRecord_iff_closed.1 shape
  refine Json.isRecord_iff_closed.2 (closed.replace fun holds rule inner => ?_)
  obtain rfl : holds = IsTemplateSpec := by simpa using rule
  have closedSpec := Json.isRecord_iff_closed.1 inner
  refine Json.isRecord_iff_closed.2 (closedSpec.replace fun holds rule _ => ?_)
  obtain rfl : holds = AreTargets := by simpa using rule
  exact allowed

theorem not_isConstraint_withTargets (targets : Json) :
    ¬IsConstraint (withTargets document spec targets) := by
  rw [withTargets_eq]
  intro shape
  have inner := (Json.isRecord_iff_closed.1 shape).valid ("spec", IsConstraintSpec) (by simp) _
    (by rw [lookup_insertEntry, if_pos rfl])
  have unknown := (Json.isRecord_iff_closed.1 inner).named ("targets", targets)
    (mem_of_lookup (by rw [lookup_insertEntry, if_pos rfl]))
  simp at unknown

theorem kind_withTargets (targets : Json) :
    Kind.of? (withTargets document spec targets) = Kind.of? (.object document) := by
  rw [withTargets_eq]
  simp [Kind.of?, header?, Json.field?, lookup_insertEntry]

/-! Decoding. -/

theorem bindingOfEntry?_members (target : String) (stated : StatedSource) :
    bindingOfEntry? target (.object stated.members) = some (stated.binding target) := by
  obtain ⟨source, libraries, filled⟩ := stated
  cases libraries <;>
    simp [source?, bindingOfEntry?, StatedSource.members, StatedSource.binding, members?, member?,
      List.lookup_cons, Json.string?]

theorem bindingOfItem?_members (target : String) (stated : StatedSource) :
    bindingOfItem? (.object (stated.members ++ [("target", .string target)])) =
      some (stated.binding target) := by
  obtain ⟨source, libraries, filled⟩ := stated
  cases libraries <;>
    simp [bindingOfItem?, source?, StatedSource.members, StatedSource.binding, members?, member?,
      List.lookup_cons, Json.string?]

theorem bindings?_mapping (sources : List (String × StatedSource)) :
    bindings? (mapping sources) = some (bindingsOf sources) := by
  rw [mapping, bindings?, bindingsOf]
  apply mapM_map_eq
  intro entry
  exact bindingOfEntry?_members entry.1 entry.2

theorem bindings?_sequence (sources : List (String × StatedSource)) :
    bindings? (sequence sources) = some (bindingsOf sources) := by
  rw [sequence, bindings?, bindingsOf]
  apply mapM_map_eq
  intro entry
  exact bindingOfItem?_members entry.1 entry.2

theorem declaredTemplate?_withTargets (path : String) {targets : Json}
    {bindings : List TargetBinding} (read : bindings? targets = some bindings) :
    declaredTemplate? path (withTargets document spec targets) =
      (declaredTemplate? path (withTargets document spec (.array []))).map fun declared =>
        (declared.1, { declared.2 with targets := bindings }) := by
  have none : bindings? (.array []) = some [] := rfl
  rw [withTargets_eq, withTargets_eq]
  unfold declaredTemplate?
  rw [members?_insertEntry, members?_insertEntry]
  split
  · simp only [Option.bind_eq_bind, Option.bind_some, Option.pure_def, Option.map_bind,
      Function.comp_def, Option.map_some, member?_insertEntry, String.reduceEq, if_true, if_false]
    simp only [members?_insertEntry]
    split
    · simp [read, none, member?_insertEntry]
    · rfl
  · rfl

/-! Reading. -/

variable {path : String} {index : Nat} {decoded : PolicyDocument}
  {bindings others : List TargetBinding}

theorem read_withTargets_eq_ok {targets : Json} :
    read path index (withTargets document spec targets) = .ok decoded ↔
      Kind.of? (.object document) = some .template ∧
      IsTemplate (withTargets document spec targets) ∧ ∃ template,
        declaredTemplate? path (withTargets document spec targets) = some (templateKind, template) ∧
        decoded = .template template := by
  rw [read_eq_ok, kind_withTargets]
  constructor
  · intro accepted
    obtain ⟨kind, classified, shape, same⟩ := accepted
    cases kind with
    | constraint => exact absurd shape (not_isConstraint_withTargets targets)
    | template =>
      obtain ⟨template, declared⟩ := declaredTemplate?_of_shape path shape
      refine ⟨classified, shape, template, declared, ?_⟩
      rw [decode, decodeTemplate, declared] at same
      exact (Except.ok.inj same).symm
  · intro accepted
    obtain ⟨classified, shape, template, declared, rfl⟩ := accepted
    refine ⟨.template, classified, shape, ?_⟩
    rw [decode, decodeTemplate, declared]
    rfl

theorem read_replaced (allowed : AreTargets second) (given : bindings? first = some bindings)
    (replaced : bindings? second = some others)
    (accepted : read path index (withTargets document spec first) = .ok decoded) :
    ∃ template, decoded = .template template ∧ template.targets = bindings ∧
      read path index (withTargets document spec second) =
        .ok (.template { template with targets := others }) := by
  obtain ⟨classified, shape, template, declared, rfl⟩ := read_withTargets_eq_ok.1 accepted
  rw [declaredTemplate?_withTargets path given] at declared
  obtain ⟨⟨kind, bare⟩, found, same⟩ := Option.map_eq_some_iff.1 declared
  obtain ⟨rfl, rfl⟩ := Prod.mk.inj same
  refine ⟨_, rfl, rfl, read_withTargets_eq_ok.2 ⟨classified,
    isTemplate_withTargets allowed shape, _, ?_, rfl⟩⟩
  rw [declaredTemplate?_withTargets path replaced, found]
  rfl

/-- In whatever document they stand, the targets of a template can be given as a map or, in any
order, as a list: both documents are accepted or both are refused. What is read is the same up
to the order of the bindings, which is that of the names for a map and its own for a list. -/
theorem read_targets (path : String) (index : Nat) (document spec : Json.Fields)
    (targets : StatedTargets) {listed : List (String × StatedSource)}
    (same : listed.Perm targets.sources) :
    let mapped := read path index (withTargets document spec (mapping targets.sources))
    let sequenced := read path index (withTargets document spec (sequence listed))
    ((∃ decoded, mapped = .ok decoded) ↔ ∃ decoded, sequenced = .ok decoded) ∧
    (∀ decoded, mapped = .ok decoded → ∃ template, decoded = .template template ∧
      template.targets = bindingsOf targets.sources ∧
      sequenced = .ok (.template { template with targets := bindingsOf listed })) ∧
    (Ascending listed → ∀ decoded, mapped = .ok decoded ↔ sequenced = .ok decoded) := by
  intro mapped sequenced
  have forth : ∀ decoded, mapped = .ok decoded → ∃ template, decoded = .template template ∧
      template.targets = bindingsOf targets.sources ∧
      sequenced = .ok (.template { template with targets := bindingsOf listed }) :=
    fun decoded => read_replaced (areTargets_sequence targets same)
      (bindings?_mapping targets.sources) (bindings?_sequence listed)
  have back : ∀ decoded, sequenced = .ok decoded → ∃ template, decoded = .template template ∧
      template.targets = bindingsOf listed ∧
      mapped = .ok (.template { template with targets := bindingsOf targets.sources }) :=
    fun decoded => read_replaced (areTargets_mapping targets)
      (bindings?_sequence listed) (bindings?_mapping targets.sources)
  refine ⟨⟨?_, ?_⟩, forth, fun ascending decoded => ?_⟩
  · intro accepted
    obtain ⟨decoded, accepted⟩ := accepted
    obtain ⟨_, _, _, again⟩ := forth decoded accepted
    exact ⟨_, again⟩
  · intro accepted
    obtain ⟨decoded, accepted⟩ := accepted
    obtain ⟨_, _, _, again⟩ := back decoded accepted
    exact ⟨_, again⟩
  · obtain rfl := targets.eq_of_ascending same ascending
    constructor
    · intro accepted
      obtain ⟨template, rfl, own, again⟩ := forth decoded accepted
      rw [← own] at again
      exact again
    · intro accepted
      obtain ⟨template, rfl, own, again⟩ := back decoded accepted
      rw [← own] at again
      exact again

def probes : StatedTargets where
  sources := [("a.example", ⟨"package a", some ["package lib.a"], by decide⟩),
    ("b.example", ⟨"package b", none, by decide⟩)]
  ascending := by unfold Ascending; decide
  inhabited := by simp
  named := by simp

theorem read_targets_reversed :
    let document : Json.Fields := [
      ("apiVersion", .string "templates.gatekeeper.sh/v1beta1"),
      ("kind", .string "ConstraintTemplate"),
      ("metadata", .object [("name", .string "probe")])]
    let spec : Json.Fields := [("crd", .object [("spec", .object [
      ("names", .object [("kind", .string "Probe")]),
      ("validation", .object [("openAPIV3Schema", .object [])])])])]
    let whole := withTargets document spec
    let listed := probes.sources.reverse
    listed.Perm probes.sources ∧ ∃ template,
      read "probe.yaml" 0 (whole (mapping probes.sources)) = .ok (.template template) ∧
      template.targets = [⟨"a.example", "package a", ["package lib.a"]⟩,
        ⟨"b.example", "package b", []⟩] ∧
      read "probe.yaml" 0 (whole (sequence listed)) = .ok (.template { template with
        targets := [⟨"b.example", "package b", []⟩,
          ⟨"a.example", "package a", ["package lib.a"]⟩] }) := by
  intro document spec whole listed
  have same : listed.Perm probes.sources := List.reverse_perm probes.sources
  have classified : Kind.of? (whole (mapping probes.sources)) = some .template := by
    rw [kind_withTargets]
    decide
  have shape : IsTemplate (whole (mapping probes.sources)) := by
    have valid : IsTemplate
        (listing [("rego", .string "package probe"), ("target", .string "probes")]) :=
      (Schema.validate_ofKind_eq_nil .template _).1 rfl
    have other : IsTemplate (whole (.array
        [.object [("rego", .string "package probe"), ("target", .string "probes")]])) := valid
    exact isTemplate_withTargets (areTargets_mapping probes) other
  obtain ⟨decoded, _, accepted⟩ :=
    read_of_valid "probe.yaml" 0 classified ((Schema.validate_ofKind_eq_nil _ _).2 shape)
  obtain ⟨template, rfl, own, again⟩ :=
    (read_targets "probe.yaml" 0 document spec probes same).2.1 decoded accepted
  exact ⟨same, template, accepted, own, again⟩

end Document

end PolicyReview
