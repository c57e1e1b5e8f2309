import PolicyReview.Target
import PolicyReview.Proofs.Asset
import PolicyReview.Proofs.Json.Order
import PolicyReview.Proofs.Ancestry.Canonical

/-! Envelopes of assets. An asset that was read has a canonical path and a payload that is not null,
so that its envelope holds four fields with values and reads back as the asset. -/

namespace PolicyReview

namespace PayloadKind

theorem fieldName_injective : Function.Injective fieldName := by
  intro kind other same
  cases kind <;> cases other <;> first | rfl | exact absurd same (by decide)

theorem fieldName_notMem (kind : PayloadKind) :
    kind.fieldName ∉ ["name", "asset_type", "ancestry_path", "ancestors"] := by
  cases kind <;> decide

end PayloadKind

namespace Asset

variable {value : Json} {asset : Asset} {name path : String} {kind : PayloadKind} {payload : Json}

/-! Reading. -/

theorem canonicalize_of_pathOfAncestors (derived : pathOfAncestors value = .ok path) :
    Ancestry.canonicalize path = path := by
  unfold pathOfAncestors at derived
  split at derived
  · rw [← Except.ok.inj derived]
    rfl
  · split at derived
    · rw [← Except.ok.inj derived]
      exact Ancestry.canonicalize_canonicalize _
    · cases derived
  · cases derived

theorem canonical_of_deriveAncestry (derived : deriveAncestry name value = .ok path) :
    Ancestry.canonicalize path = path ∧ path ≠ "" := by
  cases inherited : pathOfAncestors value with
  | error fault =>
    rw [deriveAncestry, inherited] at derived
    cases derived
  | ok inner =>
    have settled : ∀ own, Ancestry.canonicalize own = own →
        Ancestry.canonicalize (if inner ≠ "" then inner else own) =
          if inner ≠ "" then inner else own := fun own canonical => by
      split
      · exact canonicalize_of_pathOfAncestors inherited
      · exact canonical
    have canonical :=
      settled _ (Ancestry.canonicalize_canonicalize (value.textField "ancestry_path"))
    rw [deriveAncestry, inherited] at derived
    dsimp only at derived
    generalize (if inner ≠ "" then inner else _) = shown at derived canonical
    split at derived
    · cases derived
    next filled =>
      rw [← Except.ok.inj derived]
      exact ⟨canonical, filled⟩

theorem singlePayload_eq_ok :
    singlePayload name value = .ok (kind, payload) ↔ payloads value = [(kind, payload)] := by
  unfold singlePayload
  split
  next single found => simp [found]
  next many => simpa using fun single => many _ single

theorem isNull_of_payloads (single : payloads value = [(kind, payload)]) :
    payload.isNull = false := by
  have member : (kind, payload) ∈ payloads value := by simp [single]
  obtain ⟨other, -, found⟩ := List.mem_filterMap.1 member
  obtain ⟨shown, there, same⟩ := Option.map_eq_some_iff.1 found
  obtain ⟨rfl, rfl⟩ := Prod.mk.inj same
  simpa using (Option.filter_eq_some_iff.1 there).2

/-! Writing. -/

def envelopeEntries (asset : Asset) : Json.Fields := [
  ("name", .string asset.name),
  ("asset_type", .string asset.assetType),
  ("ancestry_path", .string asset.ancestry),
  (asset.payloadKind.fieldName, asset.payload)]

theorem envelopeEntries_distinct (asset : Asset) :
    (asset.envelopeEntries.map (·.1)).Nodup := by
  have apart := asset.payloadKind.fieldName_notMem
  simp only [List.mem_cons, not_or] at apart
  simp [envelopeEntries, Ne.symm apart.1, Ne.symm apart.2.1, Ne.symm apart.2.2.1]

theorem field?_envelope (asset : Asset) (name : String) : asset.envelope.field? name =
    if name = asset.payloadKind.fieldName then some asset.payload
    else if name = "ancestry_path" then some (.string asset.ancestry)
    else if name = "asset_type" then some (.string asset.assetType)
    else if name = "name" then some (.string asset.name)
    else none := by
  have written : asset.envelope.field? name = asset.envelopeEntries.reverse.lookup name :=
    Json.lookup_fieldsOf
  rw [written]
  change List.lookup name [_, _, _, _] = _
  simp only [lookup_cons_eq_ite, List.lookup_nil]

theorem field?_envelope_of_ne (asset : Asset) {name : String}
    (other : name ≠ asset.payloadKind.fieldName) : asset.envelope.field? name =
    if name = "ancestry_path" then some (.string asset.ancestry)
    else if name = "asset_type" then some (.string asset.assetType)
    else if name = "name" then some (.string asset.name)
    else none := by
  rw [field?_envelope, if_neg other]

theorem payloads_envelope (filled : asset.payload.isNull = false) :
    payloads asset.envelope = [(asset.payloadKind, asset.payload)] := by
  have only : ∀ kind : PayloadKind, present? kind.fieldName asset.envelope =
      if kind = asset.payloadKind then some asset.payload else none := by
    intro kind
    by_cases same : kind = asset.payloadKind
    · simp [present?, field?_envelope, same, filled]
    · have other : kind.fieldName ≠ asset.payloadKind.fieldName := fun equal =>
        same (PayloadKind.fieldName_injective equal)
      have apart := kind.fieldName_notMem
      simp only [List.mem_cons, not_or] at apart
      simp [present?, field?_envelope_of_ne asset other, apart, same]
  simp only [payloads, only]
  cases asset.payloadKind <;> rfl

theorem describes_envelope (named : asset.name ≠ "") (typed : asset.assetType ≠ "")
    (canonical : Ancestry.canonicalize asset.ancestry = asset.ancestry)
    (placed : asset.ancestry ≠ "") (filled : asset.payload.isNull = false) :
    Describes asset.envelope asset := by
  have apart := asset.payloadKind.fieldName_notMem
  simp only [List.mem_cons, List.not_mem_nil, or_false, not_or] at apart
  obtain ⟨name, type, path, ancestors⟩ := apart
  have orphan : pathOfAncestors asset.envelope = .ok "" := by
    rw [pathOfAncestors, present?, field?_envelope_of_ne asset (Ne.symm ancestors)]
    rfl
  have shown : asset.envelope.textField "ancestry_path" = asset.ancestry := by
    rw [Json.textField, field?_envelope_of_ne asset (Ne.symm path)]
    rfl
  constructor
  · exact ⟨_, rfl⟩
  · rw [Json.textField, field?_envelope_of_ne asset (Ne.symm name)]
    rfl
  · exact named
  · rw [Json.textField, field?_envelope_of_ne asset (Ne.symm type)]
    rfl
  · exact typed
  · rw [deriveAncestry, orphan]
    simp [shown, canonical, placed]
  · exact singlePayload_eq_ok.2 (payloads_envelope filled)

/-- The envelope of an asset that was read holds the asset's four fields, none of them null, and
reads back as the asset; so does what the cloud asset target reviews. -/
theorem envelope_faithful (read : ofJson value = .ok asset) :
    ofJson asset.envelope = .ok asset ∧
    (∃ fields, asset.envelope = .object fields ∧
      fields.Perm [
        ("name", .string asset.name),
        ("asset_type", .string asset.assetType),
        ("ancestry_path", .string asset.ancestry),
        (asset.payloadKind.fieldName, asset.payload)] ∧
      (fields.map (·.1)).Nodup ∧ ∀ field ∈ fields, field.2.isNull = false) ∧
    Ancestry.canonicalize asset.ancestry = asset.ancestry ∧
    ∀ review, Target.cloudAsset.review? asset = some review → ofJson review = .ok asset := by
  have described := ofJson_eq_ok.1 read
  obtain ⟨canonical, placed⟩ := canonical_of_deriveAncestry described.ancestry
  have filled := isNull_of_payloads (singlePayload_eq_ok.1 described.payload)
  have same : ofJson asset.envelope = .ok asset :=
    ofJson_eq_ok.2 (describes_envelope described.named described.typed canonical placed filled)
  have fields := Json.fieldsOf_perm (envelopeEntries_distinct asset)
  refine ⟨same, ⟨_, rfl, fields, ?_, fun field member => ?_⟩, canonical, fun review reviewed => ?_⟩
  · exact (fields.map (·.1)).nodup_iff.2 (envelopeEntries_distinct asset)
  · have inside := fields.mem_iff.1 member
    simp only [envelopeEntries, List.mem_cons, List.not_mem_nil, or_false] at inside
    rcases inside with rfl | rfl | rfl | rfl
    · rfl
    · rfl
    · rfl
    · exact filled
  · rw [Target.review?] at reviewed
    split at reviewed
    · cases reviewed
      exact same
    · cases reviewed

/-- An asset in loose spelling, with a path that its ancestors outdo and a payload that is null. -/
def looseBucket : Json := .object [
  ("ancestors", Json.strings ["Project/9", "", "ORGS//1"]),
  ("ancestry_path", .string "folders/2"),
  ("asset_type", .string "storage.googleapis.com/Bucket"),
  ("iam_policy", .null),
  ("name", .string "bucket"),
  ("resource", .object [("data", .null)])]

theorem envelope_faithful_loose : ∃ asset, ofJson looseBucket = .ok asset ∧
    asset.ancestry = "organizations/1/projects/9" ∧
    ofJson asset.envelope = .ok asset ∧
    Target.cloudAsset.review? asset = some asset.envelope := by
  have read : ofJson looseBucket = .ok {
      name := "bucket", assetType := "storage.googleapis.com/Bucket"
      ancestry := "organizations/1/projects/9", payloadKind := .resource
      payload := .object [("data", .null)] } := rfl
  exact ⟨_, read, rfl, (envelope_faithful read).1, rfl⟩

end Asset

end PolicyReview
