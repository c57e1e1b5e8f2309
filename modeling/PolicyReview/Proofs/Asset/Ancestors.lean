import PolicyReview.Proofs.Ancestry.Composition
import PolicyReview.Proofs.Asset.Rules

/-! Assets whose place is given by a list of ancestors, the nearest first. The list says the same as
the path of its entries joined from the outermost on. -/

namespace PolicyReview.Asset

variable {entries : List String} {listed placed : Json} {name : String}

/-- The two values are of one asset, whose place the first one gives as a list of the entries, from
the last one on, and the second one as their path. -/
structure SamePlace (entries : List String) (listed placed : Json) : Prop where
  ancestors : listed.field? "ancestors" = some (Json.strings entries.reverse)
  pathless : listed.field? "ancestry_path" = none
  path : placed.field? "ancestry_path" = some (.string (Ancestry.join entries))
  unlisted : placed.field? "ancestors" = none
  others : ∀ name, name ≠ "ancestors" → name ≠ "ancestry_path" →
    listed.field? name = placed.field? name

theorem SamePlace.deriveAncestry_eq (same : SamePlace entries listed placed) (name : String) :
    deriveAncestry name listed = deriveAncestry name placed := by
  have inner : Inherits listed (Ancestry.canonicalize (Ancestry.join entries)) := by
    have given := Inherits.listed same.ancestors
    rwa [Ancestry.ofAncestors, List.reverse_reverse] at given
  have read : readPath (Ancestry.canonicalize (Ancestry.join entries)) listed =
      readPath "" placed := by
    have nowhere : listed.textField "ancestry_path" = "" := by
      rw [Json.textField, same.pathless]
      rfl
    rw [readPath, readPath, nowhere, Json.textField_of_string same.path,
      if_neg (show ¬"" ≠ "" from not_not.2 rfl)]
    split
    next => rfl
    next empty => exact (not_not.1 empty).symm
  rw [Asset.deriveAncestry_eq inner, Asset.deriveAncestry_eq (.absent same.unlisted), read]

/-- An ancestor list of whole pairs of a name and an id gives its canonical entries, the outermost
first, and any ancestor list gives the asset, or the error, that its entries give as a path. -/
theorem ofJson_ancestors (entries : List String) :
    ((∀ entry ∈ entries, Even (Ancestry.segments entry).length) →
      Ancestry.ofAncestors entries.reverse =
        Ancestry.join ((entries.map Ancestry.canonicalize).filter (· ≠ ""))) ∧
    ∀ listed placed, SamePlace entries listed placed → ofJson listed = ofJson placed := by
  refine ⟨Ancestry.ofAncestors_reverse, fun listed placed same => ?_⟩
  have shape : listed.object?.isSome = placed.object?.isSome := by
    have first := same.ancestors
    have second := same.path
    cases listed with
    | object fields =>
      cases placed with
      | object others => rfl
      | _ => cases second
    | _ => cases first
  exact ofJson_congr_of_derived shape same.deriveAncestry_eq fun name _ => same.others name

def projectEntries : List String := ["//ORG/1/", "/", "Folder/A//folders/2", "project/9/"]

def projectFields : Json.Fields :=
  [("asset_type", .string "storage.googleapis.com/Bucket"), ("name", .string "bucket"),
    ("resource", .object [])]

theorem ofJson_ancestors_project :
    let listed := Json.object
      (("ancestors", Json.strings projectEntries.reverse) :: projectFields)
    let placed := Json.object
      (("ancestry_path", .string (Ancestry.join projectEntries)) :: projectFields)
    (∀ entry ∈ projectEntries, Even (Ancestry.segments entry).length) ∧
    Ancestry.ofAncestors projectEntries.reverse =
      "organizations/1/folders/A/folders/2/projects/9" ∧
    SamePlace projectEntries listed placed ∧ ofJson listed = ofJson placed ∧
    (ofJson placed).toOption.map (·.ancestry) =
      some "organizations/1/folders/A/folders/2/projects/9" := by
  obtain ⟨composed, alike⟩ := ofJson_ancestors projectEntries
  have even : ∀ entry ∈ projectEntries, Even (Ancestry.segments entry).length := by
    decide +kernel
  have same : SamePlace projectEntries
      (.object (("ancestors", Json.strings projectEntries.reverse) :: projectFields))
      (.object (("ancestry_path", .string (Ancestry.join projectEntries)) :: projectFields)) := by
    refine ⟨rfl, rfl, rfl, rfl, fun name unlisted pathless => ?_⟩
    rw [Json.field?, Json.field?, lookup_cons_eq_ite, lookup_cons_eq_ite, if_neg unlisted,
      if_neg pathless]
  refine ⟨even, ?_, same, alike _ _ same, ?_⟩
  · rw [composed even]
    decide +kernel
  · decide +kernel

end PolicyReview.Asset
