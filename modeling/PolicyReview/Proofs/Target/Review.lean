import Mathlib.Data.Option.Basic
import PolicyReview.Proofs.Asset.Envelope
import PolicyReview.Proofs.Rego.Language

/-! Reviews of targets. No two targets take the same asset, so that the order in which they are asked
does not count; and what a target reviews passes every test of the target's own guard. -/

namespace PolicyReview

namespace Target

variable {asset : Asset} {review : Json}

/-! Routing. -/

theorem cloudAsset_review? (taken : cloudAsset.review? asset = some review) :
    isServiceType asset.assetType = true ∧ review = asset.envelope := by
  rw [review?] at taken
  by_cases service : isServiceType asset.assetType = true
  · rw [if_pos service] at taken
    exact ⟨service, (Option.some.inj taken).symm⟩
  · rw [if_neg service] at taken
    cases taken

/-- Whatever the object leaves out, the request for it has a kind, a name and an object. -/
theorem admission_review? (taken : admission.review? asset = some review) :
    isServiceType asset.assetType = false ∧ ∃ group kind version name namespaced object,
      review = .object [
        ("kind", .object [
          ("group", .string group), ("kind", .string kind), ("version", .string version)]),
        ("name", .string name),
        ("namespace", .string namespaced),
        ("object", .object object),
        ("operation", .string "CREATE")] := by
  rw [review?, admissionReview?] at taken
  obtain ⟨⟨⟩, guarded, taken⟩ := Option.bind_eq_some_iff.1 taken
  obtain ⟨object, -, taken⟩ := Option.bind_eq_some_iff.1 taken
  obtain ⟨apiVersion, -, taken⟩ := Option.bind_eq_some_iff.1 taken
  obtain ⟨kind, -, taken⟩ := Option.bind_eq_some_iff.1 taken
  obtain ⟨metadata, -, taken⟩ := Option.bind_eq_some_iff.1 taken
  obtain ⟨annotations, -, written⟩ := Option.bind_eq_some_iff.1 taken
  exact ⟨((Option.guard_eq_some' _).1 guarded).2, _, _, _, _, _, _, (Option.some.inj written).symm⟩

theorem isServiceType_of_review? {target : Target} (taken : target.review? asset = some review) :
    isServiceType asset.assetType = decide (target = cloudAsset) := by
  cases target with
  | cloudAsset => exact (cloudAsset_review? taken).1
  | admission => exact (admission_review? taken).1

theorem review?_unique {first second : Target} {other : Json}
    (taken : first.review? asset = some review) (again : second.review? asset = some other) :
    first = second := by
  have same := (isServiceType_of_review? taken).symm.trans (isServiceType_of_review? again)
  cases first <;> cases second <;> first | rfl | cases same

theorem findSome?_review? {order : List Target} (every : ∀ target, target ∈ order)
    {found : Target × Json} :
    order.findSome? (fun target => (target.review? asset).map (target, ·)) = some found ↔
      found.1.review? asset = some found.2 := by
  constructor
  · intro first
    obtain ⟨target, -, taken⟩ := List.exists_of_findSome?_eq_some first
    obtain ⟨review, asked, rfl⟩ := Option.map_eq_some_iff.1 taken
    exact asked
  · intro taken
    have some : (order.findSome? fun target =>
        (target.review? asset).map (target, ·)).isSome = true :=
      List.findSome?_isSome_iff.2 ⟨found.1, every _, by rw [taken]; rfl⟩
    obtain ⟨⟨target, review⟩, first⟩ := Option.isSome_iff_exists.1 some
    obtain ⟨other, -, asked⟩ := List.exists_of_findSome?_eq_some first
    obtain ⟨_, again, same⟩ := Option.map_eq_some_iff.1 asked
    obtain ⟨rfl, rfl⟩ := Prod.mk.inj same
    obtain rfl := review?_unique again taken
    rw [first, Option.some.inj (again.symm.trans taken)]

theorem mem_all (target : Target) : target ∈ all := by
  cases target <;> decide

theorem findSome?_review?_perm {order : List Target} (same : order.Perm all) (asset : Asset) :
    order.findSome? (fun target => (target.review? asset).map (target, ·)) = route? asset :=
  Option.ext fun _ =>
    (findSome?_review? fun target => same.mem_iff.2 (mem_all target)).trans
      (findSome?_review? mem_all).symm

theorem route?_eq_some {target : Target} :
    route? asset = some (target, review) ↔ target.review? asset = some review :=
  findSome?_review? mem_all

/-! Guards. -/

/-- The tests that the guard of a target makes. -/
def tests : Target → List Rego.Test
  | cloudAsset => [
    ⟨.string, ["review", "name"]⟩,
    ⟨.string, ["review", "asset_type"]⟩,
    ⟨.string, ["review", "ancestry_path"]⟩]
  | admission => [
    ⟨.object, ["review", "object"]⟩,
    ⟨.string, ["review", "kind", "kind"]⟩,
    ⟨.string, ["review", "name"]⟩]

theorem guards_eq (target : Target) : target.guards = target.tests.map Rego.Test.text := by
  cases target <;> decide

theorem isProper_of_tests (target : Target) : ∀ test ∈ target.tests, test.IsProper := by
  cases target <;> simp only [tests, Rego.Test.IsProper, Rego.IsName] <;> decide

theorem passes_of_review? {target : Target} {input : Json}
    (taken : target.review? asset = some review) (held : input.field? "review" = some review) :
    ∀ test ∈ target.tests, test.Passes input := by
  have below (path : List String) : input.at? ("review" :: path) = review.at? path := by
    rw [Json.at?, List.foldlM_cons, held]
    rfl
  suffices every : ∀ test ∈ target.tests, ∃ path, test.path = "review" :: path ∧
      ∃ value, review.at? path = some value ∧ test.kind.Fits value by
    intro test member
    obtain ⟨path, split, value, found, fits⟩ := every test member
    exact ⟨value, by rw [split, below, found], fits⟩
  cases target with
  | cloudAsset =>
    obtain ⟨-, rfl⟩ := cloudAsset_review? taken
    have apart := asset.payloadKind.fieldName_notMem
    simp only [List.mem_cons, not_or] at apart
    have path := asset.field?_envelope_of_ne (Ne.symm apart.2.2.1)
    have kind := asset.field?_envelope_of_ne (Ne.symm apart.2.1)
    have name := asset.field?_envelope_of_ne (Ne.symm apart.1)
    intro test member
    simp only [tests, List.mem_cons, List.not_mem_nil, or_false] at member
    rcases member with rfl | rfl | rfl
    · exact ⟨_, rfl, .string asset.name, by simp [Json.at?, name], _, rfl⟩
    · exact ⟨_, rfl, .string asset.assetType, by simp [Json.at?, kind], _, rfl⟩
    · exact ⟨_, rfl, .string asset.ancestry, by simp [Json.at?, path], _, rfl⟩
  | admission =>
    obtain ⟨-, _, kind, _, name, _, object, rfl⟩ := admission_review? taken
    intro test member
    simp only [tests, List.mem_cons, List.not_mem_nil, or_false] at member
    rcases member with rfl | rfl | rfl
    · exact ⟨_, rfl, .object object, rfl, _, rfl⟩
    · exact ⟨_, rfl, .string kind, rfl, _, rfl⟩
    · exact ⟨_, rfl, .string name, rfl, _, rfl⟩

end Target

end PolicyReview
