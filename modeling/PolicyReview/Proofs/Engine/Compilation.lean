import PolicyReview.Engine.Compilation
import PolicyReview.Proofs.Engine.Registration
import Mathlib.Data.List.Flatten
import Mathlib.Data.List.Nodup

/-! Compilation of the registered templates. The units come by kind and then in the order of the
template's bindings, no two of them for the same kind and target, and every unit gives either an
artifact under its kind and target or an error. -/

namespace PolicyReview

theorem find?_key_of_mem {α κ : Type} [DecidableEq κ] {key : α → κ} {items : List α} {item : α}
    (distinct : (items.map key).Nodup) (member : item ∈ items) :
    items.find? (key · = key item) = some item := by
  cases found : items.find? (key · = key item) with
  | none => simpa using List.find?_eq_none.1 found item member
  | some other =>
    have same : key other = key item := by simpa using List.find?_some found
    rw [List.inj_on_of_nodup_map distinct (List.mem_of_find?_eq_some found) member same]

namespace Registry

variable {schemas : Schema.Compiler} {registry : Registry} {templates : List Template}
  {template : Template}

/-- The templates that are registered: those that are the first of their kind and sound. -/
def accepted (schemas : Schema.Compiler) (templates : List Template) : List Template :=
  ((withEarlier [] templates).filter fun entry => registrationFaults schemas entry = []).map (·.2)

theorem map_registered? (entry : List Template × Template) :
    (registered? schemas entry).map (·.template) =
      if registrationFaults schemas entry = [] then some entry.2 else none := by
  simp only [registered?, registrationFaults]
  by_cases known : entry.1.any (·.kind = entry.2.kind) = true
  · simp only [known, if_true, reduceCtorEq, if_false, Option.map_none]
  · simp only [known]
    cases decided : RegisteredTemplate.ofTemplate schemas entry.2 with
    | ok registered =>
      obtain ⟨clean, same, _⟩ := RegisteredTemplate.ofTemplate_eq_ok.1 decided
      simp [clean, same, Except.toOption]
    | error errors =>
      obtain ⟨rfl, faulty⟩ := RegisteredTemplate.ofTemplate_eq_error.1 decided
      simp [faulty, Except.toOption]

theorem Reflects.templates_eq (reflects : registry.Reflects schemas templates) :
    registry.entries.map (·.template) = accepted schemas templates := by
  rw [reflects.entries_eq, accepted, List.map_filterMap]
  simp only [map_registered?]
  induction withEarlier [] templates with
  | nil => rfl
  | cons entry rest ih =>
    by_cases clean : registrationFaults schemas entry = []
    · simp [clean, ih]
    · simp [clean, ih]

theorem Reflects.templates_inKindOrder (reflects : registry.Reflects schemas templates) :
    registry.inKindOrder.map (·.template) =
      (accepted schemas templates).mergeSort fun first second => first.kind ≤ second.kind := by
  rw [← reflects.templates_eq]
  exact List.map_mergeSort fun _ _ _ _ => rfl

theorem mem_inKindOrder {entry : RegisteredTemplate} :
    entry ∈ registry.inKindOrder ↔ entry ∈ registry.entries :=
  (List.mergeSort_perm _ _).mem_iff

theorem Reflects.find?_of_mem (reflects : registry.Reflects schemas templates)
    {entry : RegisteredTemplate}
    (member : entry ∈ registry.entries) : registry.find? entry.template.kind = some entry :=
  find?_key_of_mem reflects.kinds member

/-- A template is registered when it is the first of its kind and has no fault. -/
theorem mem_accepted : template ∈ accepted schemas templates ↔
    templates.find? (·.kind = template.kind) = some template ∧ template.faults schemas = [] := by
  have reflects := ofTemplates_reflects schemas templates
  rw [← reflects.templates_eq, List.mem_map]
  constructor
  · rintro ⟨entry, member, rfl⟩
    have found := reflects.find?_of_mem member
    rw [reflects.find?_eq] at found
    obtain ⟨first, decides, decided⟩ := Option.bind_eq_some_iff.1 found
    cases registered : RegisteredTemplate.ofTemplate schemas first with
    | error => simp [registered, Except.toOption] at decided
    | ok other =>
      obtain rfl : other = entry := by simpa [registered, Except.toOption] using decided
      obtain ⟨clean, same, _⟩ := RegisteredTemplate.ofTemplate_eq_ok.1 registered
      exact ⟨same ▸ decides, same ▸ clean⟩
  · rintro ⟨first, clean⟩
    cases registered : RegisteredTemplate.ofTemplate schemas template with
    | error =>
      obtain ⟨rfl, faulty⟩ := RegisteredTemplate.ofTemplate_eq_error.1 registered
      exact absurd clean faulty
    | ok entry =>
      have found := reflects.find?_eq template.kind
      rw [first, Option.bind_some, registered] at found
      exact ⟨entry, List.mem_of_find?_eq_some found,
        (RegisteredTemplate.ofTemplate_eq_ok.1 registered).2.1⟩

theorem accepted_kinds (schemas : Schema.Compiler) (templates : List Template) :
    ((accepted schemas templates).map (·.kind)).Nodup := by
  have reflects := ofTemplates_reflects schemas templates
  rw [← reflects.templates_eq, List.map_map]
  exact reflects.kinds

end Registry

namespace Compilation

variable {Artifact : Type} {schemas : Schema.Compiler} {runtime : Runtime Artifact}
  {registry : Registry} {templates : List Template} {modules : List LibraryModule}
  {table : BindingTable} {pieces : List (Target × CompileUnit)} {target : Target}
  {unit : CompileUnit}

def key (piece : Target × CompileUnit) : Target × String := (piece.1, piece.2.template)

/-- The error of a unit that does not compile. -/
def fault (runtime : Runtime Artifact) (unit : CompileUnit) : Option PolicyError :=
  match runtime.compile unit with
  | .ok _ => none
  | .error error => some (.compileError unit.template unit.target error.message)

theorem fault_eq_none : fault runtime unit = none ↔
    ∃ artifact, runtime.compile unit = .ok artifact := by
  unfold fault
  cases runtime.compile unit <;> simp

theorem target_of_mem_units (member : (target, unit) ∈ units registry modules table) :
    unit.target = target.name := by
  simp only [units, List.mem_flatMap, List.mem_map] at member
  obtain ⟨entry, _, other, _, same⟩ := member
  obtain ⟨rfl, rfl⟩ := Prod.mk.inj same
  rfl

theorem units_keys : (units registry modules table).map key =
    registry.inKindOrder.flatMap fun entry => entry.targets.map (·, entry.template.kind) := by
  simp only [units, List.map_flatMap, List.map_map]
  rfl

theorem units_keys_nodup (reflects : registry.Reflects schemas templates) :
    ((units registry modules table).map key).Nodup := by
  rw [units_keys, List.nodup_flatMap]
  constructor
  · intro entry member
    obtain ⟨_, registered⟩ := reflects.mem_entries (Registry.mem_inKindOrder.1 member)
    obtain ⟨_, distinct, _⟩ := RegisteredTemplate.targets_of_ofTemplate registered
    exact distinct.map fun _ _ same => (Prod.mk.inj same).1
  · have kinds : (registry.inKindOrder.map (·.template.kind)).Nodup :=
      ((List.mergeSort_perm _ _).map _).nodup_iff.2 reflects.kinds
    refine (List.pairwise_map.1 kinds).imp fun different => ?_
    rintro ⟨target, kind⟩ here there
    obtain ⟨_, _, same⟩ := List.mem_map.1 here
    obtain ⟨_, _, other⟩ := List.mem_map.1 there
    exact different ((Prod.mk.inj same).2.trans (Prod.mk.inj other).2.symm)

theorem units_order (reflects : registry.Reflects schemas templates) :
    ((units registry modules table).map (·.2)).map (fun unit => (unit.template, unit.target)) =
      ((Registry.accepted schemas templates).mergeSort fun first second =>
        first.kind ≤ second.kind).flatMap fun template =>
        template.targets.map fun binding => (template.kind, binding.target) := by
  have named : ∀ entry ∈ registry.inKindOrder,
      entry.targets.map (fun target => (entry.template.kind, target.name)) =
        entry.template.targets.map fun binding => (entry.template.kind, binding.target) := by
    intro entry member
    obtain ⟨_, registered⟩ := reflects.mem_entries (Registry.mem_inKindOrder.1 member)
    obtain ⟨names, _⟩ := RegisteredTemplate.targets_of_ofTemplate registered
    calc entry.targets.map (fun target => (entry.template.kind, target.name))
        = (entry.targets.map Target.name).map (entry.template.kind, ·) := by simp
      _ = _ := by simp [names]
  rw [← reflects.templates_inKindOrder, List.flatMap_map, ← List.flatMap_congr named]
  simp only [units, List.map_flatMap, List.map_map]
  rfl

theorem compileAll_errors :
    (compileAll runtime pieces).2 = (pieces.map (·.2)).filterMap (fault runtime) := by
  simp only [compileAll, List.filterMap_map]
  rfl

theorem compileAll_find? {artifact : Artifact} (distinct : (pieces.map key).Nodup)
    (member : (target, unit) ∈ pieces) (compiled : runtime.compile unit = .ok artifact) :
    (compileAll runtime pieces).1.find? target unit.template = some artifact := by
  simp only [compileAll, ArtifactTable.find?, List.filterMap_map]
  induction pieces with
  | nil => cases member
  | cons piece rest ih =>
    obtain ⟨new, distinct⟩ := List.nodup_cons.1 (List.map_cons ▸ distinct)
    rcases List.mem_cons.1 member with rfl | later
    · simp [compiled, Except.toOption]
    · have apart : (target, unit.template) ≠ key piece := fun same =>
        new (same ▸ List.mem_map.2 ⟨_, later, rfl⟩)
      have found := ih distinct later
      rw [List.filterMap_cons]
      cases result : runtime.compile piece.2 with
      | error error => simpa [result, Except.toOption] using found
      | ok other =>
        simp only [Function.comp, result, Except.toOption, Option.map_some, List.lookup_cons]
        rw [show ((target, unit.template) == (piece.1, piece.2.template)) = false from
          beq_eq_false_iff_ne.2 apart]
        exact found

end Compilation

end PolicyReview
