import PolicyReview.Asset

/-! Reading of assets. Whatever is wrong with an asset, the error names the asset and is about its
shape or about its ancestry. -/

namespace PolicyReview.Asset

variable {value : Json} {name : String} {error : ReviewError}

/-- An error that reading an asset of this name can give. -/
inductive ReadError (name : String) : ReviewError → Prop where
  | malformed (fault : AssetFault) : ReadError name (.malformedAsset name fault)
  | ancestry : ReadError name (.missingAncestry name)

theorem deriveAncestry_error (failed : deriveAncestry name value = .error error) :
    ReadError name error := by
  cases derived : pathOfAncestors value with
  | error fault =>
    simp only [deriveAncestry, derived, Except.error.injEq] at failed
    exact failed ▸ .malformed fault
  | ok path =>
    simp only [deriveAncestry, derived] at failed
    generalize (if path ≠ "" then path else _) = shown at failed
    by_cases empty : shown = ""
    · rw [if_pos empty, Except.error.injEq] at failed
      exact failed ▸ .ancestry
    · rw [if_neg empty] at failed
      cases failed

theorem singlePayload_error (failed : singlePayload name value = .error error) :
    ReadError name error := by
  unfold singlePayload at failed
  split at failed
  · cases failed
  next many _ =>
    rw [Except.error.injEq] at failed
    exact failed ▸ .malformed _

theorem ofJson_error (failed : ofJson value = .error error) :
    ReadError (value.textField "name") error := by
  unfold ofJson at failed
  split at failed
  next fields =>
    generalize (Json.object fields).textField "name" = name at *
    dsimp only at failed
    split at failed
    · obtain rfl : .malformedAsset name .missingName = error := Except.error.inj failed
      exact .malformed _
    split at failed
    · obtain rfl : .malformedAsset name .missingType = error := Except.error.inj failed
      exact .malformed _
    cases derived : deriveAncestry name (.object fields) with
    | error other =>
      rw [derived] at failed
      obtain rfl : other = error := Except.error.inj failed
      exact deriveAncestry_error derived
    | ok ancestry =>
      cases single : singlePayload name (.object fields) with
      | error other =>
        rw [derived, single] at failed
        obtain rfl : other = error := Except.error.inj failed
        exact singlePayload_error single
      | ok payload =>
        rw [derived, single] at failed
        cases failed
  next other =>
    obtain rfl : .malformedAsset "" .notObject = error := Except.error.inj failed
    have unnamed : value.textField "name" = "" := by
      cases value with
      | object fields => exact absurd rfl (other fields)
      | _ => rfl
    rw [unnamed]
    exact .malformed _

structure Describes (value : Json) (asset : Asset) : Prop where
  isObject : ∃ fields, value = .object fields
  name : value.textField "name" = asset.name
  named : asset.name ≠ ""
  assetType : value.textField "asset_type" = asset.assetType
  typed : asset.assetType ≠ ""
  ancestry : deriveAncestry asset.name value = .ok asset.ancestry
  payload : singlePayload asset.name value = .ok (asset.payloadKind, asset.payload)

theorem ofJson_eq_ok {asset : Asset} : ofJson value = .ok asset ↔ Describes value asset := by
  constructor
  · intro read
    unfold ofJson at read
    split at read
    next fields =>
      generalize shown : (Json.object fields).textField "name" = name at *
      dsimp only at read
      split at read
      · cases read
      next named =>
      split at read
      · cases read
      next typed =>
      cases derived : deriveAncestry name (.object fields) with
      | error other => rw [derived] at read; cases read
      | ok ancestry =>
        cases single : singlePayload name (.object fields) with
        | error other => rw [derived, single] at read; cases read
        | ok payload =>
          rw [derived, single] at read
          obtain rfl := Except.ok.inj read
          exact ⟨⟨fields, rfl⟩, shown, named, rfl, typed, derived, single⟩
    next => cases read
  · rintro ⟨⟨fields, rfl⟩, shown, named, kind, typed, derived, single⟩
    obtain ⟨name, assetType, ancestry, payloadKind, payload⟩ := asset
    dsimp only at *
    unfold ofJson
    simp only [shown, kind, if_neg named, if_neg typed, derived, single]
    rfl

theorem name_of_ofJson {asset : Asset} (read : ofJson value = .ok asset) :
    asset.name = value.textField "name" :=
  (ofJson_eq_ok.1 read).name.symm

end PolicyReview.Asset
