import PolicyReview.Engine.Scripted
import PolicyReview.Proofs.Asset
import PolicyReview.Proofs.Engine.Construction
import PolicyReview.Schema.Parameters

/-! Completeness of an engine. Every constraint of its library is bound to each target of its
template, and whatever is bound has an artifact; no review finds one missing. -/

namespace PolicyReview

theorem BindingTable.boundTo_append (first second : List (Target × BoundConstraint))
    (target : Target) :
    boundTo ⟨first ++ second⟩ target = boundTo ⟨first⟩ target ++ boundTo ⟨second⟩ target :=
  List.filterMap_append

theorem BindingTable.boundTo_map {targets : List Target} (distinct : targets.Nodup)
    (bound : BoundConstraint) (target : Target) :
    boundTo ⟨targets.map (·, bound)⟩ target = if target ∈ targets then [bound] else [] := by
  unfold boundTo
  induction targets with
  | nil => rfl
  | cons first rest ih =>
    obtain ⟨new, distinct⟩ := List.nodup_cons.1 distinct
    have later := ih distinct
    rw [List.map_cons, List.filterMap_cons]
    by_cases same : first = target
    · subst same
      simp only [new, if_false] at later
      simp [later]
    · simp [same, Ne.symm same, later]

namespace PolicyLibrary

/-- Whether a template of the constraint's kind binds the target. -/
def binds (library : PolicyLibrary) (target : Target) (constraint : Constraint) : Bool :=
  library.templates.any fun template =>
    template.kind = constraint.kind && template.targets.any (·.target = target.name)

variable {schemas : Schema.Compiler} {library : PolicyLibrary} {template : Template}
  {constraint : Constraint} {target : Target}

theorem Sound.template_of (sound : library.Sound schemas)
    (member : constraint ∈ library.constraints) :
    ∃ template ∈ library.templates, template.kind = constraint.kind ∧
      library.templates.find? (·.kind = constraint.kind) = some template ∧
      ∀ other ∈ library.templates, other.kind = constraint.kind → other = template := by
  obtain ⟨template, _, found, _⟩ := (sound.constraints constraint member).parameters
  have here := List.mem_of_find?_eq_some found
  have kind : template.kind = constraint.kind := by simpa using List.find?_some found
  exact ⟨template, here, kind, found, fun other there same =>
    List.inj_on_of_nodup_map sound.kinds there here (same.trans kind.symm)⟩

theorem binds_eq (here : template ∈ library.templates) (kind : template.kind = constraint.kind)
    (unique : ∀ other ∈ library.templates, other.kind = constraint.kind → other = template)
    (target : Target) :
    library.binds target constraint = template.targets.any (·.target = target.name) := by
  rw [Bool.eq_iff_iff, binds, List.any_eq_true]
  constructor
  · rintro ⟨other, there, both⟩
    rw [Bool.and_eq_true, decide_eq_true_eq] at both
    rw [← unique other there both.1]
    exact both.2
  · intro bound
    exact ⟨template, here, by simp only [kind, decide_true, Bool.true_and, bound]⟩

theorem Sound.registered (sound : library.Sound schemas) (member : template ∈ library.templates) :
    ∃ entry, RegisteredTemplate.ofTemplate schemas template = .ok entry := by
  have clean := Template.faults_eq_nil.2 (sound.templates template member)
  cases decided : RegisteredTemplate.ofTemplate schemas template with
  | ok entry => exact ⟨entry, rfl⟩
  | error errors =>
    obtain ⟨rfl, faulty⟩ := RegisteredTemplate.ofTemplate_eq_error.1 decided
    exact absurd clean faulty

theorem Sound.find? (sound : library.Sound schemas) (member : constraint ∈ library.constraints) :
    ∃ entry, (library.registry schemas).find? constraint.kind = some entry ∧ entry.targets.Nodup ∧
      entry.template.kind = constraint.kind ∧
      ∀ target, target ∈ entry.targets ↔ library.binds target constraint = true := by
  obtain ⟨template, here, kind, found, unique⟩ := sound.template_of member
  obtain ⟨entry, registered⟩ := sound.registered here
  obtain ⟨_, distinct, _⟩ := RegisteredTemplate.targets_of_ofTemplate registered
  obtain ⟨_, same, _⟩ := RegisteredTemplate.ofTemplate_eq_ok.1 registered
  refine ⟨entry, ?_, distinct, by rw [same, kind], fun target => ?_⟩
  · rw [(library.registry_reflects schemas).find?_eq, found]
    simp [registered, Except.toOption]
  rw [RegisteredTemplate.mem_targets registered, binds_eq here kind unique]

theorem Sound.boundEntries (sound : library.Sound schemas)
    (member : constraint ∈ library.constraints) :
    ∃ rule, MatchRule.ofConstraint constraint = .ok rule ∧ ∀ target,
      BindingTable.boundTo ⟨Binding.boundEntries (library.registry schemas) constraint⟩ target =
        if library.binds target constraint then [⟨constraint, rule⟩] else [] := by
  obtain ⟨entry, found, distinct, _, targets⟩ := sound.find? member
  have globs := Constraint.globFaults_eq_nil.2 (sound.constraints constraint member).patterns
  obtain ⟨rule, parsed⟩ := MatchRule.ofConstraint_of_clean globs
  refine ⟨rule, parsed, fun target => ?_⟩
  simp only [Binding.boundEntries, found, Binding.entries, parsed]
  rw [BindingTable.boundTo_map distinct]
  simp only [targets]

theorem Sound.boundTo_tableOf (sound : library.Sound schemas) (target : Target)
    {items : List Constraint} (inside : ∀ item ∈ items, item ∈ library.constraints) :
    ((Binding.tableOf (library.registry schemas) items).boundTo target).map (·.constraint) =
        items.filter (library.binds target) ∧
      ∀ bound ∈ (Binding.tableOf (library.registry schemas) items).boundTo target,
        MatchRule.ofConstraint bound.constraint = .ok bound.rule := by
  induction items with
  | nil => exact ⟨rfl, by simp [Binding.tableOf, BindingTable.boundTo]⟩
  | cons constraint rest ih =>
    obtain ⟨rule, parsed, here⟩ := sound.boundEntries (inside constraint (by simp))
    obtain ⟨later, parses⟩ := ih fun item member => inside item (by simp [member])
    have split : (Binding.tableOf (library.registry schemas) (constraint :: rest)).boundTo target =
        (if library.binds target constraint then [⟨constraint, rule⟩] else []) ++
          (Binding.tableOf (library.registry schemas) rest).boundTo target := by
      rw [← here, Binding.tableOf, List.flatMap_cons, BindingTable.boundTo_append]
      rfl
    rw [split]
    cases bind : library.binds target constraint with
    | true => simpa [bind, later, parsed] using parses
    | false => simpa [bind, later] using parses

theorem Sound.boundTo (sound : library.Sound schemas) (target : Target) :
    ((library.bindings schemas).table.boundTo target).map (·.constraint) =
        library.constraints.filter (library.binds target) ∧
      ∀ bound ∈ (library.bindings schemas).table.boundTo target,
        MatchRule.ofConstraint bound.constraint = .ok bound.rule := by
  have clean := documentFaults_eq_nil.2 sound
  rw [documentFaults, List.append_eq_nil_iff] at clean
  rw [(library.bindings_reflects schemas).table clean.2]
  exact sound.boundTo_tableOf target fun _ member => member

theorem Sound.unit (sound : library.Sound schemas) (member : constraint ∈ library.constraints)
    (bind : library.binds target constraint = true) :
    ∃ unit, (target, unit) ∈ library.pieces schemas ∧ unit.template = constraint.kind ∧
      unit.target = target.name ∧ ∀ other ∈ Engine.units schemas library,
        other.template = constraint.kind → other.target = target.name → other = unit := by
  obtain ⟨entry, found, _, kind, targets⟩ := sound.find? member
  have inside : (target, constraint.kind) ∈ (library.pieces schemas).map Compilation.key := by
    rw [pieces, Compilation.units_keys, List.mem_flatMap]
    exact ⟨entry, Registry.mem_inKindOrder.2 (List.mem_of_find?_eq_some found),
      List.mem_map.2 ⟨target, (targets target).2 bind, by rw [kind]⟩⟩
  obtain ⟨⟨place, unit⟩, there, same⟩ := List.mem_map.1 inside
  obtain ⟨rfl, minted⟩ : place = target ∧ unit.template = constraint.kind := Prod.mk.inj same
  refine ⟨unit, there, minted, Compilation.target_of_mem_units there, ?_⟩
  intro other also again name
  obtain ⟨⟨other, _⟩, elsewhere, rfl⟩ := List.mem_map.1 (units_eq schemas library ▸ also)
  obtain rfl : other = place :=
    Target.name_injective ((Compilation.target_of_mem_units elsewhere).symm.trans name)
  have equal := List.inj_on_of_nodup_map
    (Compilation.units_keys_nodup (library.registry_reflects schemas)) elsewhere there
    (Prod.ext rfl (again.trans minted.symm))
  exact (Prod.mk.inj equal).2

/-- A library of one template for both targets and two constraints of its kind. -/
def probe : PolicyLibrary where
  templates := [{
    path := "templates/probe.yaml", apiVersion := "v1", metadata := { name := "probe" }
    kind := "Probe", schema := .object [("type", .string "object")]
    targets := [⟨"admission.k8s.gatekeeper.sh", "package probe", []⟩,
      ⟨"validation.gcp.forsetisecurity.org", "package probe", []⟩] }]
  constraints := [
    { path := "constraints/all.yaml", apiVersion := "v1", kind := "Probe"
      metadata := { name := "all" }, spec := {} },
    { path := "constraints/narrow.yaml", apiVersion := "v1", kind := "Probe"
      metadata := { name := "narrow" }
      spec := { matchSpec := { target := ["organizations/1/**"], exclude := ["**/folders/2"] } } }]

theorem probe_schema : Schema.Compiler.draftFour.parameters (.object [("type", .string "object")]) =
    .ok (Schema.ParameterSchema.reports ⟨.object [("type", .string "object")]⟩) := by
  have closed : Schema.structural (.object [("type", .string "object")]) =
      .object [("type", .string "object")] := by
    simp [Schema.structural, Schema.structuralKeywords, Schema.structuralArgument, Schema.holds,
      Schema.close, List.lookup_cons, List.lookup_nil]
  rw [Schema.Compiler.parameters, closed]
  rfl

theorem probe_sound : probe.Sound .draftFour where
  kinds := by decide
  names := by decide
  templates := by
    simp only [probe, List.forall_mem_singleton]
    exact ⟨⟨_, probe_schema⟩, by simp, by simpa using ⟨⟨.admission, rfl⟩, .cloudAsset, rfl⟩,
      by decide⟩
  constraints := by
    intro constraint member
    have patterns : ∀ other ∈ probe.constraints, other.globFaults = [] := by decide
    have parameters : ∀ other ∈ probe.constraints, ∃ template,
        probe.templates.find? (·.kind = other.kind) = some template ∧
        template.schema = .object [("type", .string "object")] ∧
        other.spec.parameters = .object [] := by
      simp [probe]
    obtain ⟨template, found, schema, empty⟩ := parameters constraint member
    exact ⟨⟨template, _, found, (congrArg _ schema).trans probe_schema, by rw [empty]; rfl⟩,
      Constraint.globFaults_eq_nil.1 (patterns constraint member)⟩

theorem probe_builds {Artifact : Type} (runtime : Runtime Artifact)
    (compiles : ∀ unit, ∃ artifact, runtime.compile unit = .ok artifact) :
    ∃ engine, Engine.build .draftFour runtime probe = .ok engine := by
  have clean : probe.faults .draftFour runtime = [] :=
    faults_eq_nil.2 ⟨probe_sound, fun unit _ => compiles unit⟩
  exact ⟨_, build_eq_ok.2 ⟨clean, rfl⟩⟩

end PolicyLibrary

namespace Engine

variable {Artifact : Type} {engine : Engine Artifact} {schemas : Schema.Compiler}
  {runtime : Runtime Artifact} {library : PolicyLibrary}

@[simp] theorem map_outcome_eq_error {Result Other : Type} {run : Run Artifact Result}
    {f : Result → Other} {stop : Stop} :
    (run.map f).outcome = .error stop ↔ run.outcome = .error stop := by
  unfold Run.map
  cases run.outcome <;> simp [Except.map]

/-- The engine has an artifact for every constraint of the list on the target. -/
def Holds (engine : Engine Artifact) (target : Target) (bounds : List BoundConstraint) : Prop :=
  ∀ bound ∈ bounds, ∃ artifact, engine.artifacts.find? target bound.constraint.kind = some artifact

theorem message_ne_missing (error : RuntimeError) :
    error.message ≠ "no compiled template for constraint kind" := by
  intro same
  cases error with
  | compile diagnostic =>
    have start : "compile error: ".toList <+:
        "no compiled template for constraint kind".toList :=
      ⟨diagnostic.toList, by rw [← String.toList_append]; exact congrArg String.toList same⟩
    exact absurd start (by decide)
  | evaluate diagnostic =>
    have start : "evaluation error: ".toList <+:
        "no compiled template for constraint kind".toList :=
      ⟨diagnostic.toList, by rw [← String.toList_append]; exact congrArg String.toList same⟩
    exact absurd start (by decide)

theorem evaluateFrom_ne_missing (signal : Signal) (asset : Asset) (review : Json) {target : Target}
    {bounds : List BoundConstraint} (held : engine.Holds target bounds)
    (name constraint : String) (look : Nat) (fired : Bool) :
    (engine.evaluateFrom signal asset target review look fired bounds).outcome ≠
      .error (.failed (.evaluatorFailure name constraint
        "no compiled template for constraint kind")) := by
  induction bounds generalizing look fired with
  | nil => simp [evaluateFrom]
  | cons bound rest ih =>
    obtain ⟨artifact, found⟩ := held bound (by simp)
    have later := ih fun other member => held other (by simp [member])
    rw [evaluateFrom]
    split
    · simp [Run.failed]
    split
    · simp only [found, Run.after]
      split
      · simp
      next error _ => simp [Run.failed, message_ne_missing error]
      · rw [Ne, map_outcome_eq_error]
        exact later _ _
    · exact later _ _

theorem review_ne_missing (held : ∀ target, engine.Holds target (engine.table.boundTo target))
    (signal : Signal) (input : Json) (name constraint : String) :
    (engine.review signal input).outcome ≠ .error (.failed (.evaluatorFailure name constraint
      "no compiled template for constraint kind")) := by
  unfold review
  split
  next error unread =>
    cases Asset.ofJson_error unread <;> simp [Run.failed]
  split
  · simp [Run.failed]
  next asset _ _ target review _ =>
    rw [Ne, map_outcome_eq_error]
    exact evaluateFrom_ne_missing signal asset review (held target) name constraint 0 false

theorem sound_of_build (built : Engine.build schemas runtime library = .ok engine) :
    library.Sound schemas :=
  (PolicyLibrary.faults_eq_nil.1 (PolicyLibrary.build_eq_ok.1 built).1).1

theorem boundTo_of_build (built : Engine.build schemas runtime library = .ok engine)
    (target : Target) :
    (engine.table.boundTo target).map (·.constraint) =
        library.constraints.filter (library.binds target) ∧
      ∀ bound ∈ engine.table.boundTo target,
        MatchRule.ofConstraint bound.constraint = .ok bound.rule := by
  obtain ⟨_, rfl⟩ := PolicyLibrary.build_eq_ok.1 built
  exact (sound_of_build built).boundTo target

theorem artifact_of_build (built : Engine.build schemas runtime library = .ok engine)
    {target : Target} {bound : BoundConstraint} (member : bound ∈ engine.table.boundTo target) :
    ∃ unit ∈ Engine.units schemas library, unit.template = bound.constraint.kind ∧
      unit.target = target.name ∧ (∀ other ∈ Engine.units schemas library,
        other.template = bound.constraint.kind → other.target = target.name → other = unit) ∧
      ∃ artifact, runtime.compile unit = .ok artifact ∧
        engine.artifacts.find? target bound.constraint.kind = some artifact := by
  obtain ⟨constraints, _⟩ := boundTo_of_build built target
  obtain ⟨clean, rfl⟩ := PolicyLibrary.build_eq_ok.1 built
  obtain ⟨sound, compiles⟩ := PolicyLibrary.faults_eq_nil.1 clean
  have inside : bound.constraint ∈ library.constraints.filter (library.binds target) :=
    constraints ▸ List.mem_map_of_mem member
  obtain ⟨here, bind⟩ := List.mem_filter.1 inside
  obtain ⟨unit, piece, kind, name, unique⟩ := sound.unit here bind
  have place : unit ∈ Engine.units schemas library := List.mem_map.2 ⟨_, piece, rfl⟩
  obtain ⟨artifact, compiled⟩ := compiles unit place
  refine ⟨unit, place, kind, name, unique, artifact, compiled, ?_⟩
  rw [← kind]
  exact Compilation.compileAll_find?
    (Compilation.units_keys_nodup (library.registry_reflects schemas)) piece compiled

theorem holds_of_build (built : Engine.build schemas runtime library = .ok engine)
    (target : Target) :
    engine.Holds target (engine.table.boundTo target) := by
  intro bound member
  obtain ⟨_, _, _, _, _, artifact, _, found⟩ := artifact_of_build built member
  exact ⟨artifact, found⟩

/-- Building binds every constraint once to each target of its template and to no other, in library
order and with its own globs, and compiles an artifact for whatever it binds. -/
theorem build_complete (built : Engine.build schemas runtime library = .ok engine) :
    (∀ constraint ∈ library.constraints, ∃ template ∈ library.templates,
      template.kind = constraint.kind ∧
      (∀ other ∈ library.templates, other.kind = constraint.kind → other = template) ∧
      ∀ target, library.binds target constraint = template.targets.any (·.target = target.name)) ∧
    (∀ target, (engine.table.boundTo target).map (·.constraint) =
      library.constraints.filter (library.binds target)) ∧
    (∀ target, ((engine.table.boundTo target).map BoundConstraint.name).Nodup) ∧
    (∀ target, ∀ bound ∈ engine.table.boundTo target,
      bound.rule.Parses bound.constraint.spec.matchSpec ∧
      ∃ unit ∈ Engine.units schemas library, unit.template = bound.constraint.kind ∧
        unit.target = target.name ∧ (∀ other ∈ Engine.units schemas library,
          other.template = bound.constraint.kind → other.target = target.name → other = unit) ∧
        ∃ artifact, runtime.compile unit = .ok artifact ∧
          engine.artifacts.find? target bound.constraint.kind = some artifact) ∧
    ∀ signal input name constraint, (engine.review signal input).outcome ≠
      .error (.failed (.evaluatorFailure name constraint
        "no compiled template for constraint kind")) := by
  have sound := sound_of_build built
  refine ⟨fun constraint member => ?_, fun target => (boundTo_of_build built target).1,
    fun target => ?_, fun target bound member => ⟨?_, artifact_of_build built member⟩,
    review_ne_missing (holds_of_build built)⟩
  · obtain ⟨template, here, kind, _, unique⟩ := sound.template_of member
    exact ⟨template, here, kind, unique, PolicyLibrary.binds_eq here kind unique⟩
  · have names : (engine.table.boundTo target).map BoundConstraint.name =
        (library.constraints.filter (library.binds target)).map Constraint.qualifiedName := by
      rw [← (boundTo_of_build built target).1, List.map_map]
      rfl
    rw [names]
    exact sound.names.sublist (List.filter_sublist.map _)
  · exact (MatchRule.parses_of_ofConstraint ((boundTo_of_build built target).2 bound member)).2

theorem build_complete_probe : ∃ engine,
    Engine.build .draftFour (Scripted.runtime ⟨[], []⟩) PolicyLibrary.probe = .ok engine ∧
    (engine.table.boundTo .admission).map (·.constraint) = PolicyLibrary.probe.constraints ∧
    ∀ signal input name constraint, (engine.review signal input).outcome ≠
      .error (.failed (.evaluatorFailure name constraint
        "no compiled template for constraint kind")) := by
  obtain ⟨engine, built⟩ := PolicyLibrary.probe_builds (Scripted.runtime ⟨[], []⟩) fun _ => ⟨_, rfl⟩
  obtain ⟨_, bound, _, _, held⟩ := build_complete built
  exact ⟨engine, built, (bound .admission).trans rfl, held⟩

end Engine

end PolicyReview
