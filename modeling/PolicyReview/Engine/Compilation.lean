import PolicyReview.Engine.Binding
import PolicyReview.Target.Preamble

/-! Compilation of templates. Every registered template is compiled once for each target that it
binds, together with the target's preamble, the library modules sorted by path and its own
libraries. What fails is reported and the rest is compiled all the same. -/

namespace PolicyReview

structure ArtifactTable (Artifact : Type) where
  entries : List ((Target × String) × Artifact) := []

namespace ArtifactTable

def find? {Artifact : Type} (table : ArtifactTable Artifact) (target : Target) (kind : String) :
    Option Artifact :=
  table.entries.lookup (target, kind)

end ArtifactTable

namespace Compilation

def sortedModules (modules : List LibraryModule) : List LibraryModule :=
  modules.mergeSort fun a b => a.path ≤ b.path

def ownModules (template : Template) (target : Target) : List PolicyModule :=
  match template.targets.find? (·.target = target.name) with
  | none => []
  | some binding =>
    let place := template.path ++ "#" ++ target.name
    binding.libraries.zipIdx.map (fun (source, index) =>
      { name := place ++ "/libs/" ++ toString index, source, role := .library }) ++
    [{ name := place, source := binding.source, role := .template }]

def compileUnit (template : Template) (target : Target) (preamble : String)
    (modules : List LibraryModule) : CompileUnit where
  template := template.kind
  target := target.name
  modules :=
    { name := target.name ++ "/preamble.rego", source := preamble, role := .preamble } ::
    modules.map (fun library =>
      { name := library.path, source := library.source, role := .library }) ++
    ownModules template target

/-- Every unit to compile, by kind and then in the order of the template's targets. -/
def units (registry : Registry) (modules : List LibraryModule) (table : BindingTable) :
    List (Target × CompileUnit) :=
  let sorted := sortedModules modules
  registry.inKindOrder.flatMap fun entry => entry.targets.map fun target =>
    let bound := Target.BoundSet.ofConstraints ((table.boundTo target).map (·.constraint))
    (target, compileUnit entry.template target (target.preamble bound) sorted)

/-- Compiles units in order; the artifacts of those that compile, and the other errors. -/
def compileAll {Artifact : Type} (runtime : Runtime Artifact)
    (units : List (Target × CompileUnit)) : ArtifactTable Artifact × PolicyErrors :=
  let compiled := units.map fun (target, unit) => (target, unit, runtime.compile unit)
  (⟨compiled.filterMap fun (target, unit, result) =>
      result.toOption.map ((target, unit.template), ·)⟩,
    compiled.filterMap fun (_, unit, result) =>
      match result with
      | .ok _ => none
      | .error error => some (.compileError unit.template unit.target error.message))

end Compilation

end PolicyReview
