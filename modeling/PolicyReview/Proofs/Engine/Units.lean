import PolicyReview.Proofs.Ascending
import PolicyReview.Proofs.Engine.Completeness
import PolicyReview.Proofs.StableSort

/-! The units that are compiled for a library. There is one for each target of each registered
template, made of the preamble, the modules of the library and those of the template; the order in
which templates and modules come does not show in it. -/

namespace PolicyReview

theorem map_eq_map_of_keys {α β κ γ : Type} {key : α → κ} {key' : β → κ} {f : α → γ} {g : β → γ}
    {first : List α} {second : List β} (keys : first.map key = second.map key')
    (same : ∀ a, ∀ b ∈ second, key a = key' b → f a = g b) : first.map f = second.map g := by
  induction first generalizing second with
  | nil =>
    obtain rfl : second = [] := List.map_eq_nil_iff.1 keys.symm
    rfl
  | cons a rest ih =>
    cases second with
    | nil => cases keys
    | cons b others =>
      obtain ⟨here, later⟩ := List.cons.inj keys
      rw [List.map_cons, List.map_cons, same a b (.head _) here,
        ih later fun c d member => same c d (.tail _ member)]

/-! Names by kind. -/

namespace Target.BoundSet

variable {bound : BoundSet} {kind name : String}

theorem insert_eq (ascending : Ascending bound) :
    bound.insert kind name = insertEntry kind ((bound.lookup kind).getD [] ++ [name]) bound := by
  induction bound with
  | nil => rfl
  | cons first rest ih =>
    obtain ⟨apart, later⟩ := List.pairwise_cons.1 ascending
    rw [insert, insertEntry, lookup_cons_eq_ite]
    split
    next below =>
      have missing : rest.lookup kind = none := List.lookup_eq_none_iff.2 fun entry member =>
        bne_iff_ne.2 (below.trans (apart entry member)).ne
      rw [if_neg below.ne, missing]
      rfl
    split
    next same => rw [same]; rfl
    next different => rw [ih later]

theorem ofConstraints_lookup (constraints : List Constraint) :
    Ascending (ofConstraints constraints) ∧
    (∀ entry ∈ ofConstraints constraints, entry.2 ≠ []) ∧
    ∀ kind, ((ofConstraints constraints).lookup kind).getD [] =
      (constraints.filter (·.kind = kind)).map (·.displayName) := by
  suffices run : ∀ (earlier : List Constraint) (bound : BoundSet),
      (Ascending bound ∧ (∀ entry ∈ bound, entry.2 ≠ []) ∧ ∀ kind, (bound.lookup kind).getD [] =
        (earlier.filter (·.kind = kind)).map (·.displayName)) →
      let all := constraints.foldl (fun bound constraint =>
        bound.insert constraint.kind constraint.displayName) bound
      Ascending all ∧ (∀ entry ∈ all, entry.2 ≠ []) ∧ ∀ kind, (all.lookup kind).getD [] =
        ((earlier ++ constraints).filter (·.kind = kind)).map (·.displayName) from
    run [] [] ⟨.nil, by simp, fun _ => rfl⟩
  induction constraints with
  | nil => simp
  | cons constraint rest ih =>
    intro earlier bound ⟨ascending, named, names⟩
    have next := ih (earlier ++ [constraint])
      (bound.insert constraint.kind constraint.displayName)
    rw [List.append_assoc] at next
    refine next ?_
    rw [insert_eq ascending]
    refine ⟨ascending.insertEntry _ _, fun entry member => ?_, fun kind => ?_⟩
    · rcases mem_insertEntry member with rfl | there
      · simp
      · exact named entry there
    · rw [lookup_insertEntry]
      by_cases same : kind = constraint.kind
      · subst same
        simp [names]
      · simp [same, Ne.symm same, names]

theorem mem_ofConstraints {constraints : List Constraint} {names : List String} :
    (kind, names) ∈ ofConstraints constraints ↔
      names ≠ [] ∧ names = (constraints.filter (·.kind = kind)).map (·.displayName) := by
  obtain ⟨ascending, named, lookups⟩ := ofConstraints_lookup constraints
  rw [← ascending.lookup_eq_some, ← lookups]
  constructor
  · intro found
    rw [found]
    exact ⟨named _ (ascending.lookup_eq_some.1 found), rfl⟩
  · rintro ⟨some, same⟩
    cases found : (ofConstraints constraints).lookup kind with
    | none => simp [found] at same; exact absurd same some
    | some other => rw [same, found]; rfl

end Target.BoundSet

namespace PolicyLibrary

variable {schemas : Schema.Compiler} {library : PolicyLibrary} {template : Template}
  {target : Target}

/-- Whether a constraint after others is bound to a target: it has no fault, and the registered
template of its kind binds the target. -/
def isBound (schemas : Schema.Compiler) (library : PolicyLibrary) (target : String)
    (entry : List Constraint × Constraint) : Bool :=
  (Binding.faults schemas library.templates entry).isEmpty &&
    (Registry.accepted schemas library.templates).any fun template =>
      template.kind = entry.2.kind && template.targets.any (·.target = target)

def boundConstraints (schemas : Schema.Compiler) (library : PolicyLibrary) (target : String) :
    List Constraint :=
  ((withEarlier [] library.constraints).filter (library.isBound schemas target)).map (·.2)

theorem accepted_any {templates : List Template} {kind target : String} :
    (Registry.accepted schemas templates).any (fun template =>
      template.kind = kind && template.targets.any (·.target = target)) =
      (templates.find? (·.kind = kind)).any fun template =>
        (template.faults schemas).isEmpty && template.targets.any (·.target = target) := by
  rw [Bool.eq_iff_iff, List.any_eq_true]
  constructor
  · rintro ⟨template, member, both⟩
    rw [Bool.and_eq_true, decide_eq_true_eq] at both
    obtain ⟨rfl, binds⟩ := both
    obtain ⟨first, clean⟩ := Registry.mem_accepted.1 member
    rw [first, Option.any_some, clean, binds]
    rfl
  · cases first : templates.find? (·.kind = kind) with
    | none => simp
    | some template =>
      have same : template.kind = kind := by simpa using List.find?_some first
      subst same
      rw [Option.any_some, Bool.and_eq_true, List.isEmpty_iff]
      rintro ⟨clean, binds⟩
      exact ⟨template, Registry.mem_accepted.2 ⟨first, clean⟩, by simp only [binds, decide_true,
        Bool.and_self]⟩

theorem boundTo_entries {registration : RegisteredTemplate} {constraint : Constraint}
    (registered : RegisteredTemplate.ofTemplate schemas template = .ok registration) :
    (BindingTable.boundTo ⟨if Binding.isSound registration constraint then
      Binding.entries registration constraint else []⟩ target).map (·.constraint) =
      if (template.parameterFaults schemas constraint ++ constraint.globFaults).isEmpty &&
        template.targets.any (·.target = target.name) then [constraint] else [] := by
  obtain ⟨_, distinct, _⟩ := RegisteredTemplate.targets_of_ofTemplate registered
  by_cases sound : Binding.isSound registration constraint = true
  · have none := (Binding.isSound_iff registered).1 sound
    obtain ⟨rule, parsed⟩ := MatchRule.ofConstraint_of_clean (List.append_eq_nil_iff.1 none).2
    rw [if_pos sound, Binding.entries, parsed, none]
    simp only [BindingTable.boundTo_map distinct, RegisteredTemplate.mem_targets registered,
      List.isEmpty_nil, Bool.true_and]
    split <;> rfl
  · have faulty : template.parameterFaults schemas constraint ++ constraint.globFaults ≠ [] :=
      fun none => sound ((Binding.isSound_iff registered).2 none)
    rw [if_neg sound, List.isEmpty_eq_false_iff.2 faulty]
    rfl

theorem boundTo_boundAfter (entry : List Constraint × Constraint) :
    (BindingTable.boundTo ⟨Binding.boundAfter (library.registry schemas) entry⟩ target).map
      (·.constraint) = if library.isBound schemas target.name entry then [entry.2] else [] := by
  rw [isBound, accepted_any, Binding.boundAfter, Binding.faults]
  cases met : entry.1.any (·.qualifiedName = entry.2.qualifiedName) with
  | true => simp [BindingTable.boundTo]
  | false =>
    simp only [Bool.false_eq_true, if_false]
    rw [(library.registry_reflects schemas).find?_eq, Constraint.faults]
    cases first : library.templates.find? (·.kind = entry.2.kind) with
    | none => simp [BindingTable.boundTo]
    | some template =>
      cases registered : RegisteredTemplate.ofTemplate schemas template with
      | error errors =>
        obtain ⟨rfl, faulty⟩ := RegisteredTemplate.ofTemplate_eq_error.1 registered
        simp [BindingTable.boundTo, registered, Except.toOption, faulty]
      | ok registration =>
        obtain ⟨clean, _⟩ := RegisteredTemplate.ofTemplate_eq_ok.1 registered
        simp only [Option.bind_some, registered, Except.toOption, Option.any_some, clean, if_true,
          List.isEmpty_nil, Bool.true_and]
        exact boundTo_entries registered

theorem boundTo_eq (schemas : Schema.Compiler) (library : PolicyLibrary) (target : Target) :
    ((library.bindings schemas).table.boundTo target).map (·.constraint) =
      library.boundConstraints schemas target.name := by
  have table : (library.bindings schemas).table = ⟨(withEarlier [] library.constraints).flatMap
      (Binding.boundAfter (library.registry schemas))⟩ :=
    congrArg BindingTable.mk (library.bindings_entries schemas)
  rw [table, boundConstraints]
  induction withEarlier [] library.constraints with
  | nil => rfl
  | cons entry rest ih =>
    rw [List.flatMap_cons, BindingTable.boundTo_append, List.map_append, ih, boundTo_boundAfter,
      List.filter_cons]
    split <;> rfl

/-! Units. -/

def preambleOf (schemas : Schema.Compiler) (library : PolicyLibrary) (target : String) : String :=
  Target.renderPreamble target
    (Target.BoundSet.ofConstraints (library.boundConstraints schemas target))
    (((Target.ofName? target).map Target.guards).getD [])

/-- The modules that a template has for a binding: the libraries of the binding, and last its
source. -/
def bindingModules (template : Template) (binding : TargetBinding) : List PolicyModule :=
  let place := template.path ++ "#" ++ binding.target
  binding.libraries.zipIdx.map (fun (source, index) =>
    { name := place ++ "/libs/" ++ toString index, source, role := .library }) ++
  [{ name := place, source := binding.source, role := .template }]

def unitFor (schemas : Schema.Compiler) (library : PolicyLibrary) (template : Template)
    (binding : TargetBinding) : CompileUnit where
  template := template.kind
  target := binding.target
  modules :=
    { name := binding.target ++ "/preamble.rego"
      source := library.preambleOf schemas binding.target
      role := .preamble } ::
    (Compilation.sortedModules library.modules).map (fun library =>
      { name := library.path, source := library.source, role := .library }) ++
    bindingModules template binding

theorem ownModules_eq (distinct : (template.targets.map (·.target)).Nodup) {binding : TargetBinding}
    (member : binding ∈ template.targets) (named : target.name = binding.target) :
    Compilation.ownModules template target = bindingModules template binding := by
  have found : template.targets.find? (·.target = target.name) = some binding :=
    named ▸ find?_key_of_mem distinct member
  rw [Compilation.ownModules, found]
  simp only [bindingModules, named]

theorem compileUnit_eq (distinct : (template.targets.map (·.target)).Nodup)
    {binding : TargetBinding} (member : binding ∈ template.targets)
    (named : target.name = binding.target) :
    Compilation.compileUnit template target
      (target.preamble (Target.BoundSet.ofConstraints
        (((library.bindings schemas).table.boundTo target).map (·.constraint))))
      (Compilation.sortedModules library.modules) = library.unitFor schemas template binding := by
  have known : Target.ofName? binding.target = some target := Target.ofName?_eq_some.2 named
  rw [Compilation.compileUnit, ownModules_eq distinct member named, boundTo_eq, unitFor, preambleOf,
    known, named, Target.preamble, named]
  rfl

/-- One unit for each target of each registered template, by kind and then in the order of the
template's targets. -/
theorem units_eq_flatMap (schemas : Schema.Compiler) (library : PolicyLibrary) :
    Engine.units schemas library =
    ((Registry.accepted schemas library.templates).mergeSort fun first second =>
      first.kind ≤ second.kind).flatMap fun template =>
        template.targets.map (library.unitFor schemas template) := by
  rw [units_eq, pieces, Compilation.units,
    ← (library.registry_reflects schemas).templates_inKindOrder, List.flatMap_map,
    List.map_flatMap]
  refine List.flatMap_congr fun entry member => ?_
  obtain ⟨_, registered⟩ :=
    (library.registry_reflects schemas).mem_entries (Registry.mem_inKindOrder.1 member)
  obtain ⟨names, distinct, _⟩ := RegisteredTemplate.targets_of_ofTemplate registered
  have apart : (entry.template.targets.map (·.target)).Nodup :=
    names ▸ distinct.map fun _ _ => Target.name_injective
  rw [List.map_map]
  exact map_eq_map_of_keys names fun target binding bound named => compileUnit_eq apart bound named

theorem unitFor_template (schemas : Schema.Compiler) (library : PolicyLibrary)
    (template : Template) (binding : TargetBinding) :
    ∃ before last, (library.unitFor schemas template binding).modules = before ++ [last] ∧
      last.role = .template ∧ last.source = binding.source ∧
      ∀ other ∈ before, other.role ≠ .template := by
  refine ⟨_, _, (List.append_assoc _ _ _).symm, rfl, rfl, fun other member => ?_⟩
  simp only [List.cons_append, List.mem_cons, List.mem_append, List.mem_map] at member
  rcases member with rfl | ⟨_, _, rfl⟩ | ⟨_, _, rfl⟩ <;> simp

/-! Order. -/

theorem find?_kind_perm {templates others : List Template} (same : templates.Perm others)
    (distinct : (templates.map (·.kind)).Nodup) (kind : String) :
    templates.find? (·.kind = kind) = others.find? (·.kind = kind) := by
  rw [← List.head?_filter, ← List.head?_filter, filter_key_eq_of_perm same distinct]

theorem accepted_perm {templates others : List Template} (same : templates.Perm others)
    (distinct : (templates.map (·.kind)).Nodup) :
    (Registry.accepted schemas templates).Perm (Registry.accepted schemas others) := by
  refine (List.perm_ext_iff_of_nodup (Registry.accepted_kinds schemas templates).of_map
    (Registry.accepted_kinds schemas others).of_map).2 fun template => ?_
  rw [Registry.mem_accepted, Registry.mem_accepted, find?_kind_perm same distinct]

theorem unitFor_templates_perm {others : List Template} (same : library.templates.Perm others)
    (distinct : (library.templates.map (·.kind)).Nodup) :
    ({ library with templates := others } : PolicyLibrary).unitFor schemas =
      library.unitFor schemas := by
  have bound : ∀ target,
      ({ library with templates := others } : PolicyLibrary).isBound schemas target =
        library.isBound schemas target := by
    intro target
    funext entry
    simp only [isBound, accepted_any, Binding.faults, Constraint.faults,
      find?_kind_perm same distinct]
  funext template binding
  simp only [unitFor, preambleOf, boundConstraints, bound]

theorem units_templates_perm {others : List Template} (same : library.templates.Perm others)
    (distinct : (library.templates.map (·.kind)).Nodup) :
    Engine.units schemas { library with templates := others } = Engine.units schemas library := by
  have sorted := mergeSort_eq_of_perm Template.kind (fun _ _ => decide_eq_true_iff)
    (accepted_perm same distinct) (Registry.accepted_kinds schemas library.templates)
  rw [units_eq_flatMap, units_eq_flatMap, sorted, unitFor_templates_perm same distinct]

theorem units_modules_perm {others : List LibraryModule} (same : library.modules.Perm others)
    (distinct : (library.modules.map (·.path)).Nodup) :
    Engine.units schemas { library with modules := others } = Engine.units schemas library := by
  have sorted : Compilation.sortedModules library.modules = Compilation.sortedModules others :=
    mergeSort_eq_of_perm LibraryModule.path (fun _ _ => decide_eq_true_iff) same distinct
  have units : ({ library with modules := others } : PolicyLibrary).unitFor schemas =
      library.unitFor schemas := by
    funext template binding
    simp only [unitFor, sorted]
    rfl
  rw [units_eq_flatMap, units_eq_flatMap, units]

theorem units_distinct (schemas : Schema.Compiler) (library : PolicyLibrary) :
    ((Engine.units schemas library).map fun unit => (unit.template, unit.target)).Nodup := by
  have keys : ((library.pieces schemas).map Compilation.key).Nodup :=
    Compilation.units_keys_nodup (library.registry_reflects schemas)
  rw [units_eq, List.map_map]
  refine keys.of_map.map_on fun piece here other there same => ?_
  obtain ⟨template, target⟩ := Prod.mk.inj same
  rw [Compilation.target_of_mem_units here, Compilation.target_of_mem_units there] at target
  exact List.inj_on_of_nodup_map keys here there
    (Prod.ext (Target.name_injective target) template)

/-- Building compiles one unit for each target of each registered template, by kind and then in the
order of the template's targets. A unit is the preamble, which names the constraints bound to the
target, the modules of the library by path, the libraries of the binding and last its source. The
order of templates of distinct kinds and of modules of distinct paths does not show in the units. -/
theorem units_composed {Artifact : Type} (schemas : Schema.Compiler) (runtime : Runtime Artifact)
    (library : PolicyLibrary) :
    Engine.build schemas runtime library = PolicyErrors.orValue
      (library.documentFaults schemas ++
        (Compilation.compileAll runtime (library.pieces schemas)).2)
      { runtime
        table := (library.bindings schemas).table
        artifacts := (Compilation.compileAll runtime (library.pieces schemas)).1 } ∧
    (library.pieces schemas).map (·.2) = Engine.units schemas library ∧
    (Engine.units schemas library =
      ((Registry.accepted schemas library.templates).mergeSort fun first second =>
        first.kind ≤ second.kind).flatMap fun template =>
          template.targets.map (library.unitFor schemas template)) ∧
    ((Engine.units schemas library).map fun unit => (unit.template, unit.target)).Nodup ∧
    (∀ template binding, ∃ before last,
      (library.unitFor schemas template binding).modules = before ++ [last] ∧
      last.role = .template ∧ last.source = binding.source ∧
      ∀ other ∈ before, other.role ≠ .template) ∧
    ((Compilation.sortedModules library.modules).Pairwise fun first second =>
      first.path ≤ second.path) ∧
    (∀ path, (Compilation.sortedModules library.modules).filter (·.path = path) =
      library.modules.filter (·.path = path)) ∧
    (∀ target : Target, ((library.bindings schemas).table.boundTo target).map (·.constraint) =
      library.boundConstraints schemas target.name) ∧
    (∀ constraints, Ascending (Target.BoundSet.ofConstraints constraints) ∧
      ∀ kind names, (kind, names) ∈ Target.BoundSet.ofConstraints constraints ↔
        names ≠ [] ∧ names = (constraints.filter (·.kind = kind)).map (·.displayName)) ∧
    (∀ others : List Template, library.templates.Perm others →
      (library.templates.map (·.kind)).Nodup →
      Engine.units schemas { library with templates := others } = Engine.units schemas library) ∧
    ∀ others : List LibraryModule, library.modules.Perm others →
      (library.modules.map (·.path)).Nodup →
      Engine.units schemas { library with modules := others } = Engine.units schemas library := by
  have built := build_eq schemas runtime library
  rw [faults, units_eq, ← Compilation.compileAll_errors] at built
  exact ⟨built, rfl, units_eq_flatMap schemas library, units_distinct schemas library,
    unitFor_template schemas library,
    pairwise_mergeSort_key LibraryModule.path (fun _ _ => decide_eq_true_iff) library.modules,
    filter_mergeSort_key LibraryModule.path (fun _ _ => decide_eq_true_iff) library.modules,
    boundTo_eq schemas library,
    fun constraints => ⟨(Target.BoundSet.ofConstraints_lookup constraints).1,
      fun _ _ => Target.BoundSet.mem_ofConstraints⟩,
    fun _ => units_templates_perm, fun _ => units_modules_perm⟩

def twins : PolicyLibrary where
  templates := probe.templates ++ probe.templates.map ({ · with kind := "Echo" })
  modules := [⟨"lib/time.rego", "package lib.time"⟩, ⟨"lib/core.rego", "package lib.core"⟩]
  constraints := probe.constraints

theorem units_composed_twins :
    Engine.units .draftFour { twins with templates := twins.templates.reverse } =
      Engine.units .draftFour twins ∧
    Engine.units .draftFour { twins with modules := twins.modules.reverse } =
      Engine.units .draftFour twins ∧
    ∀ kind ∈ ["Probe", "Echo"], ∃ unit ∈ Engine.units .draftFour twins,
      unit.template = kind ∧ unit.target = "admission.k8s.gatekeeper.sh" := by
  obtain ⟨_, _, units, _, _, _, _, _, _, templates, modules⟩ :=
    units_composed .draftFour (Scripted.runtime ⟨[], []⟩) twins
  have sound : ∀ template ∈ twins.templates, template.Sound .draftFour := by
    intro template member
    rcases List.mem_append.1 member with there | again
    · exact probe_sound.templates template there
    · obtain ⟨original, there, rfl⟩ := List.mem_map.1 again
      have same := probe_sound.templates original there
      exact ⟨same.schema, same.nonempty, same.known, same.distinct⟩
  have decides : ∀ template ∈ twins.templates,
      twins.templates.find? (·.kind = template.kind) = some template ∧
      ∃ binding ∈ template.targets, binding.target = "admission.k8s.gatekeeper.sh" := by
    simp [twins, probe]
  refine ⟨templates _ (List.reverse_perm _).symm (by decide),
    modules _ (List.reverse_perm _).symm (by decide), fun kind member => ?_⟩
  obtain ⟨template, here, rfl⟩ : ∃ template ∈ twins.templates, template.kind = kind :=
    List.mem_map.1 member
  obtain ⟨first, binding, bound, named⟩ := decides template here
  have registered : template ∈ Registry.accepted .draftFour twins.templates :=
    Registry.mem_accepted.2 ⟨first, Template.faults_eq_nil.2 (sound template here)⟩
  refine ⟨twins.unitFor .draftFour template binding, ?_, rfl, named⟩
  rw [units, List.mem_flatMap]
  exact ⟨template, List.mem_mergeSort.2 registered, List.mem_map_of_mem bound⟩

end PolicyLibrary

end PolicyReview
