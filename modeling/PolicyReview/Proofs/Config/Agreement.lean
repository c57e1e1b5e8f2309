import PolicyReview.Proofs.Config.Shape
import PolicyReview.Proofs.Fallible
import Mathlib.Data.String.Basic

/-! Where the checks of a configuration and its schema agree. The checks look at texts without the
blanks around them, the schema looks at them as they stand: a configuration that passes the checks
is valid once its texts are trimmed, and as it stands when the blanks make no location too long and
no endpoint starts with one. -/

namespace PolicyReview

theorem Json.isRecord_object {rules : List Rule} {required : List String} {members : Json.Fields} :
    Json.IsRecord rules required (.object members) ↔
      (∀ member ∈ members, member.1 ∈ rules.map (·.1)) ∧
      (∀ name ∈ required, ∃ value, members.lookup name = some value) ∧
      ∀ rule ∈ rules, ∀ value, members.lookup rule.1 = some value → rule.2 value := by
  rw [isRecord_iff_closed]
  constructor
  · intro closed
    exact ⟨closed.named, closed.present, closed.valid⟩
  · rintro ⟨named, present, valid⟩
    exact ⟨named, present, valid⟩

theorem Text.length_le_utf8ByteSize (text : String) : text.length ≤ text.utf8ByteSize := by
  rw [← String.utf8Len_toList, ← String.length_toList]
  induction text.toList with
  | nil => exact Nat.le_refl 0
  | cons c rest ih =>
    rw [List.length_cons, String.utf8Len_cons]
    exact Nat.add_le_add ih c.utf8Size_pos

namespace Config

variable {config : Config}

/-- The texts of the listed locations, and that of the library. -/
def locationTexts (config : Config) : List String :=
  config.policy.paths ++ config.policy.libraryPath.toList

/-- Settings within the bounds, looked at as they stand. -/
structure Fits (config : Config) : Prop where
  workers : ∀ count ∈ config.engine.workerCount, 1 ≤ count ∧ count ≤ maxWorkerCount
  some : config.policy.paths ≠ []
  few : config.policy.paths.length ≤ maxPaths
  locations : ∀ text ∈ config.locationTexts, text ≠ "" ∧ text.length ≤ maxPathLength
  regions : ∀ region ∈ config.store.region, region ≠ ""
  endpoints : ∀ endpoint ∈ config.store.endpoint, StartsAsWeb endpoint

theorem isWorkerCount_nat {count : Nat} :
    IsWorkerCount (Json.nat count) ↔ 1 ≤ count ∧ count ≤ maxWorkerCount := by
  have order : ∀ m n : Int, (Number.int m).order (.int n) = compare m n := fun m n => by
    simp [Number.order, Number.ratio]
  simp only [IsWorkerCount, Json.nat, Json.int, Json.number.injEq, exists_eq_left', order, ne_eq,
    compare_lt_iff_lt, compare_gt_iff_gt, not_lt, show (Number.int count).isWhole = true by
    simp [Number.isWhole, Number.ratio], true_and]
  omega

theorem isEngine_toJson {settings : EngineSettings} : IsEngine settings.toJson ↔
    ∀ count ∈ settings.workerCount, 1 ≤ count ∧ count ≤ maxWorkerCount := by
  have number : ∀ count : Nat, Json.nat count ≠ .null := fun _ => Json.noConfusion
  rw [IsEngine, EngineSettings.toJson, Json.isRecord_object]
  cases settings.workerCount <;> simp [IsNullOr, isWorkerCount_nat, number]

theorem isLocation_string {text : String} :
    IsLocation (.string text) ↔ text ≠ "" ∧ text.length ≤ maxPathLength := by
  simp [IsLocation]

theorem areLocations_strings {texts : List String} : AreLocations (Json.strings texts) ↔
    texts ≠ [] ∧ texts.length ≤ maxPaths ∧
      ∀ text ∈ texts, text ≠ "" ∧ text.length ≤ maxPathLength := by
  simp [AreLocations, Json.strings, isLocation_string]

theorem isPolicy_toJson {settings : PolicySettings} : IsPolicy settings.toJson ↔
    settings.paths ≠ [] ∧ settings.paths.length ≤ maxPaths ∧
      ∀ text ∈ settings.paths ++ settings.libraryPath.toList,
        text ≠ "" ∧ text.length ≤ maxPathLength := by
  have members : IsPolicy settings.toJson ↔
      (∀ path ∈ settings.libraryPath.toList, IsLocation (.string path)) ∧
        AreLocations (Json.strings settings.paths) := by
    rw [IsPolicy, PolicySettings.toJson, Json.isRecord_object]
    cases settings.libraryPath <;> simp [IsNullOr, List.lookup_cons]
  simp only [members, areLocations_strings, isLocation_string, List.forall_mem_append]
  constructor
  · rintro ⟨library, some, few, listed⟩
    exact ⟨some, few, listed, library⟩
  · rintro ⟨some, few, listed, library⟩
    exact ⟨library, some, few, listed⟩

theorem isObjectStore_toJson {settings : ObjectStoreSettings} : IsObjectStore settings.toJson ↔
    (∀ region ∈ settings.region, region ≠ "") ∧
      ∀ endpoint ∈ settings.endpoint, StartsAsWeb endpoint := by
  rw [IsObjectStore, ObjectStoreSettings.toJson, Json.isRecord_object]
  cases settings.region <;> cases settings.endpoint <;>
    simp [IsNullOr, IsFlag, IsEndpoint, Document.IsName, List.lookup_cons, and_comm]

theorem shape_toJson : Shape config.toJson ↔ config.Fits := by
  have sections : Shape config.toJson ↔ IsEngine config.engine.toJson ∧
      (∀ settings ∈ config.objectStore, IsObjectStore settings.toJson) ∧
      IsPolicy config.policy.toJson := by
    rw [Shape, Config.toJson, Json.isRecord_object]
    cases config.objectStore <;> simp [IsNullOr, List.lookup_cons, ObjectStoreSettings.toJson]
  have store : (∀ settings ∈ config.objectStore, IsObjectStore settings.toJson) ↔
      (∀ region ∈ config.store.region, region ≠ "") ∧
        ∀ endpoint ∈ config.store.endpoint, StartsAsWeb endpoint := by
    rw [Config.store]
    cases config.objectStore <;> simp [isObjectStore_toJson]
  rw [sections, store, isEngine_toJson, isPolicy_toJson]
  constructor
  · rintro ⟨workers, ⟨regions, endpoints⟩, some, few, locations⟩
    exact ⟨workers, some, few, locations, regions, endpoints⟩
  · rintro ⟨workers, some, few, locations, regions, endpoints⟩
    exact ⟨workers, ⟨regions, endpoints⟩, some, few, locations⟩

/-! What passes the checks. -/

theorem validateLocation_ok {setting : LocationSetting} {text : String}
    (passed : PolicySettings.validateLocation setting text = .ok ()) :
    Text.trim text ≠ "" ∧ (Text.trim text).length ≤ maxPathLength := by
  rw [PolicySettings.validateLocation, unless_eq_ok, unless_eq_ok, not_lt] at passed
  obtain ⟨some, short, -⟩ := passed
  exact ⟨some, (Text.length_le_utf8ByteSize _).trans short⟩

theorem policy_validate_ok {settings : PolicySettings} (passed : settings.validate = .ok ()) :
    settings.paths ≠ [] ∧ settings.paths.length ≤ maxPaths ∧
      ∀ text ∈ settings.paths ++ settings.libraryPath.toList,
        Text.trim text ≠ "" ∧ (Text.trim text).length ≤ maxPathLength := by
  have texts : settings.locationSettings.map (·.2) =
      settings.paths ++ settings.libraryPath.toList := by
    simp [PolicySettings.locationSettings, PolicySettings.pathSettings, Function.comp_def]
  rw [PolicySettings.validate, unless_eq_ok, unless_eq_ok, not_lt, List.isEmpty_iff] at passed
  obtain ⟨some, few, each⟩ := passed
  refine ⟨some, few, fun text inside => ?_⟩
  rw [← texts] at inside
  obtain ⟨⟨setting, text⟩, listed, rfl⟩ := List.mem_map.1 inside
  exact validateLocation_ok (forM_eq_ok.1 each _ listed)

theorem engine_validate_ok {settings : EngineSettings} (passed : settings.validate = .ok ()) :
    ∀ count ∈ settings.workerCount, 1 ≤ count ∧ count ≤ maxWorkerCount := by
  rintro count given
  rw [EngineSettings.validate, Option.mem_def.1 given] at passed
  by_contra outside
  simp [outside] at passed

theorem objectStore_validate_ok {settings : ObjectStoreSettings}
    (passed : settings.validate = .ok ()) :
    (∀ region ∈ settings.region, Text.trim region ≠ "") ∧
      ∀ endpoint ∈ settings.endpoint, StartsAsWeb (Text.trim endpoint) := by
  obtain ⟨⟨⟩, region, endpoint⟩ := bind_eq_ok.1 passed
  refine ⟨fun text given blank => ?_, fun text given => ?_⟩
  · rw [Option.mem_def] at given
    simp [ObjectStoreSettings.validateRegion, given, blank] at region
  · rw [ObjectStoreSettings.validateEndpoint, Option.mem_def.1 given] at endpoint
    by_contra other
    simp only [StartsAsWeb, Text.trim, String.toList_ofList, ← List.isPrefixOf_iff_prefix, not_or]
      at other
    dsimp only at endpoint
    rw [if_neg other.1, if_neg other.2] at endpoint
    cases endpoint

theorem store_validate_ok (passed : config.objectStore.forM ObjectStoreSettings.validate = .ok ()) :
    (∀ region ∈ config.store.region, Text.trim region ≠ "") ∧
      ∀ endpoint ∈ config.store.endpoint, StartsAsWeb (Text.trim endpoint) := by
  rw [Config.store]
  cases given : config.objectStore with
  | none => simp
  | some settings => exact objectStore_validate_ok (by rwa [given] at passed)

/-- The configuration with its locations and its endpoint trimmed. -/
def trimmed (config : Config) : Config where
  engine := config.engine
  policy := ⟨config.policy.paths.map Text.trim, config.policy.libraryPath.map Text.trim⟩
  objectStore := config.objectStore.map fun settings =>
    { settings with endpoint := settings.endpoint.map Text.trim }

theorem locationTexts_trimmed :
    config.trimmed.locationTexts = config.locationTexts.map Text.trim := by
  rw [locationTexts, locationTexts, trimmed, List.map_append]
  cases config.policy.libraryPath <;> rfl

theorem store_trimmed : config.trimmed.store =
    { config.store with endpoint := config.store.endpoint.map Text.trim } := by
  rw [store, store, trimmed]
  cases config.objectStore <;> rfl

/-- The checks and the schema differ only where blanks count: a configuration that passes the
checks is valid when its texts are trimmed, and as it stands exactly when no location is too long
with its blanks and the endpoint starts as a web address does. -/
theorem accepted_valid_iff (accepted : config.validate = .ok ()) :
    PolicyReview.Schema.isValid .twentyTwenty Schema.config config.trimmed.toJson = true ∧
    (PolicyReview.Schema.isValid .twentyTwenty Schema.config config.toJson = true ↔
      (∀ text ∈ config.locationTexts, text.length ≤ maxPathLength) ∧
      ∀ endpoint ∈ config.store.endpoint, StartsAsWeb endpoint) := by
  obtain ⟨⟨⟩, engine, rest⟩ := bind_eq_ok.1 accepted
  obtain ⟨⟨⟩, policy, store⟩ := bind_eq_ok.1 rest
  have workers := engine_validate_ok engine
  obtain ⟨some, few, locations⟩ := policy_validate_ok policy
  obtain ⟨regions, endpoints⟩ := store_validate_ok store
  have filled : ∀ {text}, Text.trim text ≠ "" → text ≠ "" := by
    rintro _ left rfl
    exact left rfl
  rw [Schema.isValid_config, Schema.isValid_config, shape_toJson, shape_toJson]
  refine ⟨?_, fun fits => ?_, fun ⟨short, web⟩ => ?_⟩
  · refine ⟨workers, by simpa [trimmed] using some, by simpa [trimmed] using few, ?_, ?_, ?_⟩
    · rw [locationTexts_trimmed, List.forall_mem_map]
      exact locations
    · rw [store_trimmed]
      exact fun region given => filled (regions region given)
    · rw [store_trimmed]
      simpa using endpoints
  · exact ⟨fun text inside => (fits.locations text inside).2, fits.endpoints⟩
  · exact ⟨workers, some, few,
      fun text inside => ⟨filled (locations text inside).1, short text inside⟩,
      fun region given => filled (regions region given), web⟩

/-- A configuration whose texts have blanks around them. -/
def padded : Config where
  engine := ⟨some 4⟩
  policy := ⟨["policies ", "s3://fleet/policies"], some " library"⟩
  objectStore := some ⟨some "eu-west-3", some " http://127.0.0.1:9000", true, true⟩

theorem accepted_valid_iff_padded : padded.validate = .ok () ∧
    PolicyReview.Schema.isValid .twentyTwenty Schema.config padded.trimmed.toJson = true ∧
    (PolicyReview.Schema.isValid .twentyTwenty Schema.config padded.toJson = true ↔
      (∀ text ∈ padded.locationTexts, text.length ≤ maxPathLength) ∧
      ∀ endpoint ∈ padded.store.endpoint, StartsAsWeb endpoint) :=
  have accepted : padded.validate = .ok () := rfl
  ⟨accepted, accepted_valid_iff accepted⟩

/-- A blank before the endpoint passes the checks and is refused by the schema. -/
theorem accepted_invalid : padded.validate = .ok () ∧
    PolicyReview.Schema.isValid .twentyTwenty Schema.config padded.toJson = false := by
  refine ⟨rfl, Bool.eq_false_iff.2 fun valid => ?_⟩
  have web := (shape_toJson.1 ((Schema.isValid_config _).1 valid)).endpoints
    " http://127.0.0.1:9000" rfl
  rcases web with web | web
  all_goals
    revert web
    decide

end Config

end PolicyReview
