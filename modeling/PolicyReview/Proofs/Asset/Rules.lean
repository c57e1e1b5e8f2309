import PolicyReview.Proofs.Asset.Envelope
import PolicyReview.Proofs.Fallible
import PolicyReview.Proofs.Json.Field
import PolicyReview.Proofs.Rules
import Mathlib.Data.List.Nodup

/-! The rules on assets. A JSON value is an asset when it is an object with a name, a type, ancestors
that can be read, a path that is not empty and exactly one payload; otherwise the first of these
rules that it breaks is reported. Nothing but the fields that the rules are about is looked at. -/

namespace PolicyReview

namespace Asset

variable {value other : Json} {name path : String} {kind : PayloadKind} {payload : Json}

/-! Ancestry. -/

/-- The path of the ancestors of a value, empty when none are given. -/
inductive Inherits (value : Json) : String → Prop where
  | absent (none : value.field? "ancestors" = none) : Inherits value ""
  | null (null : value.field? "ancestors" = some .null) : Inherits value ""
  | listed {ancestors : List String}
    (given : value.field? "ancestors" = some (Json.strings ancestors)) :
    Inherits value (Ancestry.ofAncestors ancestors)

/-- The path of a value: that of its ancestors, or its own when that is empty. -/
inductive Located (value : Json) : String → Prop where
  | inherited {path : String} (inherits : Inherits value path) (filled : path ≠ "") :
    Located value path
  | own {text : String} (inherits : Inherits value "")
    (given : value.field? "ancestry_path" = some (.string text)) :
    Located value (Ancestry.canonicalize text)

theorem pathOfAncestors_eq_ok : pathOfAncestors value = .ok path ↔ Inherits value path := by
  unfold pathOfAncestors present?
  constructor
  · intro derived
    cases given : value.field? "ancestors" with
    | none =>
      rw [given] at derived
      obtain rfl := Except.ok.inj derived
      exact .absent given
    | some field =>
      rw [given] at derived
      cases field with
      | null =>
        obtain rfl := Except.ok.inj derived
        exact .null given
      | array items =>
        simp only [Option.filter_some, Json.isNull, Bool.not_false, if_true] at derived
        split at derived
        next ancestors read =>
          obtain rfl := Except.ok.inj derived
          rw [Json.mapM_string?_eq_some.1 read] at given
          exact .listed given
        next => cases derived
      | _ => cases derived
  · intro inherits
    cases inherits with
    | absent none => rw [none]; rfl
    | null null => rw [null]; rfl
    | @listed ancestors given =>
      have read : (ancestors.map Json.string).mapM Json.string? = some ancestors :=
        Json.mapM_string?_eq_some.2 rfl
      rw [given]
      simp only [Option.filter_some, Json.strings, Json.isNull, Bool.not_false, if_true, read]

theorem pathOfAncestors_unread (unread : ¬∃ path, Inherits value path) :
    pathOfAncestors value = .error .badAncestors := by
  cases derived : pathOfAncestors value with
  | ok path => exact absurd ⟨path, pathOfAncestors_eq_ok.1 derived⟩ unread
  | error fault =>
    unfold pathOfAncestors at derived
    split at derived
    · cases derived
    · split at derived
      · cases derived
      · exact derived.symm
    · exact derived.symm

theorem Inherits.unique (first : Inherits value path) {again : String}
    (second : Inherits value again) : path = again :=
  Except.ok.inj ((pathOfAncestors_eq_ok.2 first).symm.trans (pathOfAncestors_eq_ok.2 second))

def readPath (inner : String) (value : Json) : String :=
  if inner ≠ "" then inner else Ancestry.canonicalize (value.textField "ancestry_path")

theorem deriveAncestry_eq {inner : String} (inherits : Inherits value inner) (name : String) :
    deriveAncestry name value = if readPath inner value = "" then .error (.missingAncestry name)
      else .ok (readPath inner value) := by
  rw [deriveAncestry, pathOfAncestors_eq_ok.2 inherits]
  rfl

theorem located_iff {inner : String} (inherits : Inherits value inner) (filled : path ≠ "") :
    Located value path ↔ readPath inner value = path := by
  unfold readPath
  constructor
  · intro located
    cases located with
    | inherited again _ =>
      rw [inherits.unique again, if_pos filled]
    | own empty given =>
      rw [inherits.unique empty, if_neg (not_not.2 rfl), Json.textField_of_string given]
  · intro derived
    split at derived
    next some => exact .inherited (derived ▸ inherits) filled
    next empty =>
      rw [not_not.1 empty] at inherits
      have given : value.textField "ancestry_path" ≠ "" := by
        intro none
        rw [none] at derived
        exact filled derived.symm
      rw [← derived]
      exact .own inherits ((Json.textField_eq given).1 rfl)

theorem deriveAncestry_of_located (located : Located value path) (filled : path ≠ "")
    (name : String) : deriveAncestry name value = .ok path := by
  obtain ⟨inner, inherits⟩ : ∃ inner, Inherits value inner := by
    cases located with
    | inherited inherits => exact ⟨_, inherits⟩
    | own inherits => exact ⟨_, inherits⟩
  rw [deriveAncestry_eq inherits, (located_iff inherits filled).1 located, if_neg filled]

theorem located_of_deriveAncestry (derived : deriveAncestry name value = .ok path) :
    Located value path ∧ path ≠ "" := by
  obtain ⟨inner, inherits⟩ : ∃ inner, Inherits value inner := by
    by_contra unread
    rw [deriveAncestry, pathOfAncestors_unread unread] at derived
    cases derived
  rw [deriveAncestry_eq inherits] at derived
  by_cases empty : readPath inner value = ""
  · rw [if_pos empty] at derived
    cases derived
  · rw [if_neg empty, Except.ok.injEq] at derived
    rw [derived] at empty
    exact ⟨(located_iff inherits empty).2 derived, empty⟩

theorem deriveAncestry_unread (unread : ¬∃ path, Inherits value path) (name : String) :
    deriveAncestry name value = .error (.malformedAsset name .badAncestors) := by
  rw [deriveAncestry, pathOfAncestors_unread unread]

theorem deriveAncestry_nowhere {inner : String} (inherits : Inherits value inner)
    (nowhere : ¬∃ path, Located value path ∧ path ≠ "") (name : String) :
    deriveAncestry name value = .error (.missingAncestry name) := by
  rw [deriveAncestry_eq inherits]
  apply if_pos
  by_contra filled
  exact nowhere ⟨_, (located_iff inherits filled).2 rfl, filled⟩

/-! Payloads. -/

def Carries (value : Json) (kind : PayloadKind) (payload : Json) : Prop :=
  value.field? kind.fieldName = some payload ∧ payload ≠ .null

def carried (value : Json) : List PayloadKind :=
  PayloadKind.all.filter fun kind => (value.field? kind.fieldName).any fun field => !field.isNull

theorem present?_eq_some : present? name value = some payload ↔
    value.field? name = some payload ∧ payload ≠ .null := by
  rw [present?, Option.filter_eq_some_iff]
  cases payload <;> simp [Json.isNull]

theorem mem_payloads : (kind, payload) ∈ payloads value ↔ Carries value kind payload := by
  rw [payloads, List.mem_filterMap]
  constructor
  · rintro ⟨other, -, found⟩
    obtain ⟨field, there, same⟩ := Option.map_eq_some_iff.1 found
    obtain ⟨rfl, rfl⟩ := Prod.mk.inj same
    exact present?_eq_some.1 there
  · intro carries
    refine ⟨kind, by cases kind <;> decide, ?_⟩
    rw [present?_eq_some.2 carries]
    rfl

theorem kinds_payloads (value : Json) : (payloads value).map (·.1) = carried value := by
  unfold payloads carried
  induction PayloadKind.all with
  | nil => rfl
  | cons kind rest ih =>
    cases given : value.field? kind.fieldName with
    | none => simp [present?, given, ← ih]
    | some field => cases empty : field.isNull <;> simp [present?, given, empty, ← ih]

theorem singlePayload_iff : singlePayload name value = .ok (kind, payload) ↔
    Carries value kind payload ∧ ∀ other, (∃ field, Carries value other field) → other = kind := by
  rw [singlePayload_eq_ok]
  constructor
  · intro found
    have only : ∀ {other field}, Carries value other field →
        (other, field) = (kind, payload) := fun carries => by
      have member := mem_payloads.2 carries
      rw [found] at member
      exact List.mem_singleton.1 member
    refine ⟨mem_payloads.1 (found ▸ List.mem_singleton_self _), ?_⟩
    rintro other ⟨field, carries⟩
    exact congrArg Prod.fst (only carries)
  · rintro ⟨carries, only⟩
    apply List.perm_singleton.1
    have distinct : (payloads value).Nodup := by
      apply List.Nodup.of_map (·.1)
      rw [kinds_payloads]
      exact List.Nodup.filter _ (by decide)
    apply (List.perm_ext_iff_of_nodup distinct (List.nodup_singleton _)).2
    rintro ⟨other, field⟩
    rw [mem_payloads, List.mem_singleton]
    constructor
    · intro there
      obtain rfl := only other ⟨field, there⟩
      rw [Option.some.inj (there.1.symm.trans carries.1)]
    · intro same
      obtain ⟨rfl, rfl⟩ := Prod.mk.inj same
      exact carries

theorem singlePayload_refused
    (refused : ¬∃! kind : PayloadKind, ∃ payload, Carries value kind payload) :
    singlePayload name value =
      .error (.malformedAsset name (.payloadCount ((carried value).map PayloadKind.fieldName))) := by
  cases single : singlePayload name value with
  | ok payload =>
    obtain ⟨carries, only⟩ := singlePayload_iff.1 single
    exact absurd ⟨payload.1, ⟨payload.2, carries⟩, only⟩ refused
  | error error =>
    unfold singlePayload at single
    split at single
    · cases single
    · rw [← single, ← kinds_payloads, List.map_map]
      rfl

/-! Rules. -/

/-- The rules on assets, in the order in which they are applied. -/
inductive Rule where
  | object
  | named
  | typed
  | ancestors
  | ancestry
  | payload
  deriving DecidableEq

namespace Rule

def order : List Rule := [.object, .named, .typed, .ancestors, .ancestry, .payload]

def Holds (value : Json) : Rule → Prop
  | .object => ∃ fields, value = .object fields
  | .named => ∃ name, value.field? "name" = some (.string name) ∧ name ≠ ""
  | .typed => ∃ type, value.field? "asset_type" = some (.string type) ∧ type ≠ ""
  | .ancestors => ∃ path, Inherits value path
  | .ancestry => ∃ path, Located value path ∧ path ≠ ""
  | .payload => ∃! kind : PayloadKind, ∃ payload, Carries value kind payload

/-- What is reported of a value that breaks the rule and keeps the rules before it. -/
def error (value : Json) : Rule → ReviewError
  | .object => .malformedAsset "" .notObject
  | .named => .malformedAsset "" .missingName
  | .typed => .malformedAsset (value.textField "name") .missingType
  | .ancestors => .malformedAsset (value.textField "name") .badAncestors
  | .ancestry => .missingAncestry (value.textField "name")
  | .payload => .malformedAsset (value.textField "name")
    (.payloadCount ((carried value).map PayloadKind.fieldName))

end Rule

/-- The value has the fields of the asset. -/
structure Shows (value : Json) (asset : Asset) : Prop where
  object : ∃ fields, value = .object fields
  name : value.field? "name" = some (.string asset.name)
  named : asset.name ≠ ""
  assetType : value.field? "asset_type" = some (.string asset.assetType)
  typed : asset.assetType ≠ ""
  ancestry : Located value asset.ancestry
  placed : asset.ancestry ≠ ""
  payload : Carries value asset.payloadKind asset.payload
  single : ∀ kind, (∃ payload, Carries value kind payload) → kind = asset.payloadKind

theorem ofJson_object (fields : Json.Fields) : ofJson (.object fields) =
    let value := Json.object fields
    let name := value.textField "name"
    if name = "" then .error (.malformedAsset name .missingName)
    else if value.textField "asset_type" = "" then .error (.malformedAsset name .missingType)
    else deriveAncestry name value >>= fun ancestry =>
      singlePayload name value >>= fun payload => .ok
        ⟨name, value.textField "asset_type", ancestry, payload.1, payload.2⟩ := by
  unfold ofJson
  dsimp only
  split
  · rfl
  split
  · rfl
  · rfl

theorem ofJson_enforces (value : Json) :
    Enforces (ofJson value) Rule.order (Rule.Holds value) (Rule.error value) := by
  refine .cons (fun other => ?_) fun ⟨fields, same⟩ => ?_
  · cases value with
    | object fields => exact absurd ⟨fields, rfl⟩ other
    | _ => rfl
  subst same
  refine .cons (fun unnamed => ?_) fun ⟨name, given, named⟩ => ?_
  · rw [ofJson_object, if_pos (Json.textField_eq_empty.2 unnamed),
      Json.textField_eq_empty.2 unnamed]
    rfl
  rw [← Json.textField_of_string given] at named
  have object := ofJson_object fields
  dsimp only at object
  rw [if_neg named] at object
  refine .cons (fun untyped => ?_) fun ⟨type, given, typed⟩ => ?_
  · rw [object, if_pos (Json.textField_eq_empty.2 untyped)]
    rfl
  rw [← Json.textField_of_string given] at typed
  rw [if_neg typed] at object
  refine .cons (fun unread => ?_) fun ⟨inner, inherits⟩ => ?_
  · rw [object, deriveAncestry_unread unread]
    rfl
  refine .cons (fun nowhere => ?_) fun ⟨path, located, filled⟩ => ?_
  · rw [object, deriveAncestry_nowhere inherits nowhere]
    rfl
  rw [deriveAncestry_of_located located filled, ok_bind] at object
  refine .cons (fun refused => ?_) fun ⟨kind, ⟨payload, carries⟩, only⟩ => ?_
  · rw [object, singlePayload_refused refused]
    rfl
  · rw [singlePayload_iff.2 ⟨carries, only⟩] at object
    exact .done object

theorem ofJson_eq_ok_iff {asset : Asset} : ofJson value = .ok asset ↔ Shows value asset := by
  rw [ofJson_eq_ok]
  constructor
  · rintro ⟨object, name, named, type, typed, derived, single⟩
    obtain ⟨located, placed⟩ := located_of_deriveAncestry derived
    obtain ⟨carries, only⟩ := singlePayload_iff.1 single
    exact ⟨object, (Json.textField_eq named).1 name, named, (Json.textField_eq typed).1 type, typed,
      located, placed, carries, only⟩
  · rintro ⟨object, name, named, type, typed, located, placed, carries, only⟩
    exact ⟨object, Json.textField_of_string name, named, Json.textField_of_string type, typed,
      deriveAncestry_of_located located placed _, singlePayload_iff.2 ⟨carries, only⟩⟩

/-- The names of the fields that the rules are about. -/
def fieldsRead : List String :=
  ["name", "asset_type", "ancestors", "ancestry_path"] ++ PayloadKind.all.map PayloadKind.fieldName

theorem ofJson_congr_of_derived (shape : other.object?.isSome = value.object?.isSome)
    (derived : ∀ name, deriveAncestry name other = deriveAncestry name value)
    (same : ∀ name ∈ fieldsRead, name ≠ "ancestors" → name ≠ "ancestry_path" →
      other.field? name = value.field? name) :
    ofJson other = ofJson value := by
  have named : other.textField "name" = value.textField "name" := by
    rw [Json.textField, Json.textField, same "name" (by decide) (by decide) (by decide)]
  have typed : other.textField "asset_type" = value.textField "asset_type" := by
    rw [Json.textField, Json.textField, same "asset_type" (by decide) (by decide) (by decide)]
  have single : ∀ name, singlePayload name other = singlePayload name value := by
    intro name
    have carried : payloads other = payloads value := by
      unfold payloads
      apply List.filterMap_congr
      intro kind member
      have read : kind.fieldName ∈ fieldsRead :=
        List.mem_append_right _ (List.mem_map_of_mem member)
      rw [present?, same _ read (by cases kind <;> decide) (by cases kind <;> decide)]
      rfl
    rw [singlePayload, carried]
    rfl
  cases value with
  | object fields =>
    cases other with
    | object others =>
      rw [ofJson_object, ofJson_object]
      simp only [named, typed, derived, single]
    | _ => cases shape
  | _ =>
    cases other with
    | object others => cases shape
    | _ => rfl

theorem ofJson_congr (shape : other.object?.isSome = value.object?.isSome)
    (same : ∀ name ∈ fieldsRead, other.field? name = value.field? name) :
    ofJson other = ofJson value := by
  refine ofJson_congr_of_derived shape (fun name => ?_) fun name read _ _ => same name read
  have path : other.textField "ancestry_path" = value.textField "ancestry_path" := by
    rw [Json.textField, Json.textField, same "ancestry_path" (by decide)]
  simp only [deriveAncestry, pathOfAncestors, present?, same "ancestors" (by decide), path]

/-- A value is read as the asset whose fields it has, and fails for the first rule that it breaks; no
field that the rules are not about counts. Only a value whose ancestors can be read and that has
no path fails for its ancestry. -/
theorem ofJson_rules (value : Json) :
    (∀ asset, ofJson value = .ok asset ↔ Shows value asset) ∧
    Enforces (ofJson value) Rule.order (Rule.Holds value) (Rule.error value) ∧
    (∀ name, ofJson value = .error (.missingAncestry name) →
      (∃ path, Inherits value path) ∧ ∀ path, Located value path → path = "") ∧
    ∀ other : Json, other.object?.isSome = value.object?.isSome →
      (∀ name ∈ fieldsRead, other.field? name = value.field? name) →
      ofJson other = ofJson value := by
  have enforces := ofJson_enforces value
  refine ⟨fun asset => ofJson_eq_ok_iff, enforces, fun name failed => ?_,
    fun other shape same => ofJson_congr shape same⟩
  obtain ⟨rule, found, same⟩ := (enforces.refuses _).1 failed
  cases rule with
  | ancestry =>
    obtain ⟨broken, before⟩ := found.earlier
    refine ⟨before .ancestors (by decide), fun path located => ?_⟩
    by_contra filled
    exact broken ⟨path, located, filled⟩
  | _ => cases same

end Asset

end PolicyReview
