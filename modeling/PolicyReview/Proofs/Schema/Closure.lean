import PolicyReview.Proofs.Schema.Tightening

/-! Accepted parameters are closed. Validation goes from a schema and a value to the schemas and the
parts below them, and whatever it reaches in a structural schema it accepts; so an object that it
reaches with a schema that lists its properties, and is not open by its own word, has no others. -/

namespace PolicyReview.Schema

variable {root value schema part argument : Json} {fields members : Json.Fields}
  {keyword name : String} {fuel : Nat}

/-- A schema and the part of a value that validation asks it about, by way of listed properties,
items, further properties and conjunctions; no schema on the way has a reference. -/
inductive Reaches (root value : Json) : Json → Json → Prop
  | whole : Reaches root value root value
  | property {fields members : Json.Fields} {name : String} {schema part : Json}
    (within : Reaches root value (.object fields) (.object members))
    (plain : fields.lookup "$ref" = none)
    (listed : (mapOf "properties" fields).lookup name = some schema)
    (member : members.lookup name = some part) : Reaches root value schema part
  | item {fields : Json.Fields} {items : List Json} {schema part : Json}
    (within : Reaches root value (.object fields) (.array items))
    (plain : fields.lookup "$ref" = none) (found : fields.lookup "items" = some schema)
    (single : ∀ schemas, schema ≠ .array schemas) (inside : part ∈ items) :
    Reaches root value schema part
  | further {fields members schema : Json.Fields} {name : String} {part : Json}
    (within : Reaches root value (.object fields) (.object members))
    (plain : fields.lookup "$ref" = none)
    (found : fields.lookup "additionalProperties" = some (.object schema))
    (member : (name, part) ∈ members)
    (unlisted : name ∉ (mapOf "properties" fields).map (·.1))
    (unmatched : ∀ source ∈ (mapOf "patternProperties" fields).map (·.1),
      ∀ pattern, Pattern.read? source = some pattern → pattern.isIn name = false) :
    Reaches root value (.object schema) part
  | conjunct {fields : Json.Fields} {schemas : List Json} {schema part : Json}
    (within : Reaches root value (.object fields) part) (plain : fields.lookup "$ref" = none)
    (found : fields.lookup "allOf" = some (.array schemas)) (inside : schema ∈ schemas) :
    Reaches root value schema part

theorem passes_of_accepted (plain : fields.lookup "$ref" = none)
    (found : fields.lookup keyword = some argument)
    (accepted : violations .four root (fuel + 1) (.object fields) part = []) :
    validateKeyword .four (violations .four root fuel) fields keyword argument part = [] := by
  have all : effective .four fields = ordered fields := by
    simp only [effective, plain, Option.bind_none]
  have inside : (keyword, argument) ∈ ordered fields := by
    rw [ordered, List.mem_append, List.mem_filter, List.mem_filter, ← and_or_left]
    exact ⟨mem_of_lookup found, by simp [ne_or_eq]⟩
  simp only [violations, all, List.flatMap_eq_nil_iff] at accepted
  have passed := accepted _ inside
  split at passed
  next here =>
    dsimp only at here
    rw [← here, found] at plain
    cases plain
  · exact passed

/-! The keywords of a structural schema. -/

theorem structural_object (fields : Json.Fields) :
    structural (.object fields) = .object (counterpartFields .one fields) := by
  rw [← structuralArgument_one, structuralArgument_object]

theorem mapOf_counterpartFields (named : holds keyword = .named) :
    mapOf keyword (counterpartFields .one fields) = rewritten .named (mapOf keyword fields) := by
  unfold mapOf
  cases found : fields.lookup keyword with
  | none =>
    rcases lookup_counterpartFields_none .one found with none | ⟨rfl, -⟩
    · rw [none]
      rfl
    · cases named
  | some argument =>
    rw [lookup_counterpartFields .one found, Holds.under, named]
    cases argument with
    | object members => rw [structuralArgument_object]; rfl
    | array items => rw [structuralArgument_array (by decide)]; rfl
    | _ => simp [structuralArgument, Json.object?, rewritten]

theorem passes_structural (plain : fields.lookup "$ref" = none)
    (accepted : ∃ fuel, violations .four root fuel (structural (.object fields)) part = []) :
    ∃ fuel, ∀ {keyword argument}, (counterpartFields .one fields).lookup keyword = some argument →
      validateKeyword .four (violations .four root fuel) (counterpartFields .one fields) keyword
        argument part = [] := by
  obtain ⟨fuel, accepted⟩ := accepted
  rw [structural_object] at accepted
  cases fuel with
  | zero => cases accepted
  | succ fuel =>
    refine ⟨fuel, fun found => passes_of_accepted ?_ found accepted⟩
    exact (lookup_counterpartFields_none .one plain).resolve_right fun added =>
      absurd added.1 (by decide)

theorem Reaches.accepted (reached : Reaches root value schema part)
    (accepted : violations .four (structural root) fuel (structural root) value = []) :
    ∃ fuel, violations .four (structural root) fuel (structural schema) part = [] := by
  induction reached with
  | whole => exact ⟨fuel, accepted⟩
  | @property fields members name schema part within plain listed member ih =>
    obtain ⟨fuel, passes⟩ := passes_structural plain ih
    have listed' : (name, structural schema) ∈ mapOf "properties" (counterpartFields .one fields) := by
      rw [mapOf_counterpartFields rfl]
      refine mem_of_lookup ?_
      rw [lookup_rewritten, listed, Option.map_some, Holds.under, structuralArgument_one]
    obtain ⟨argument, found, inside⟩ := exists_of_mem_mapOf listed'
    exact ⟨fuel, validate_named.1 (passes found) name _ inside part member⟩
  | @item fields items schema part within plain found single inside ih =>
    obtain ⟨fuel, passes⟩ := passes_structural plain ih
    have found' : (counterpartFields .one fields).lookup "items" = some (structural schema) := by
      rw [lookup_counterpartFields .one found, ← structuralArgument_one]
      rfl
    have single' : ∀ schemas, structural schema ≠ .array schemas := by
      cases schema with
      | object fields => simp [structural_object]
      | array schemas => exact absurd rfl (single schemas)
      | _ => simp [structural]
    exact ⟨fuel, (validate_each single').1 (passes found') part inside⟩
  | @further fields members schema name part within plain found member unlisted unmatched ih =>
    obtain ⟨fuel, passes⟩ := passes_structural plain ih
    have found' : (counterpartFields .one fields).lookup "additionalProperties" =
        some (structural (.object schema)) := by
      rw [lookup_counterpartFields .one found, ← structuralArgument_one]
      rfl
    have uncovered : (name, part) ∈ uncovered (counterpartFields .one fields) members := by
      rw [mem_uncovered, mapOf_counterpartFields rfl, mapOf_counterpartFields rfl, names_rewritten]
      refine ⟨member, unlisted, fun source other inside => unmatched source ?_⟩
      rw [← names_rewritten .named]
      exact List.mem_map_of_mem inside
    have admitted := validate_additional.1 (passes found') name part uncovered
    rw [structural_object] at admitted ⊢
    exact ⟨fuel, admitted⟩
  | @conjunct fields schemas schema part within plain found inside ih =>
    obtain ⟨fuel, passes⟩ := passes_structural plain ih
    have found' : (counterpartFields .one fields).lookup "allOf" =
        some (.array (schemas.map structural)) := by
      rw [lookup_counterpartFields .one found, ← structuralArgument_listed]
      rfl
    exact ⟨fuel, validate_allOf.1 (passes found') _ (List.mem_map_of_mem inside)⟩

theorem lookup_close_of_open {named : Json.Fields}
    (found : fields.lookup "properties" = some (.object named))
    (unsaid : fields.lookup "additionalProperties" = none)
    (unpatterned : fields.lookup "patternProperties" = none) :
    (counterpartFields .one fields).lookup "additionalProperties" = some (.bool false) := by
  have closes : (((rewritten .one fields).lookup "properties").bind Json.object?).isSome &&
      ((rewritten .one fields).lookup "additionalProperties").isNone &&
      ((rewritten .one fields).lookup "patternProperties").isNone := by
    rw [lookup_rewritten, lookup_rewritten, lookup_rewritten, found, unsaid, unpatterned,
      Option.map_some, structuralArgument_object]
    rfl
  rw [counterpartFields, close, if_pos closes, Json.insertField_eq, lookup_insertEntry, if_pos rfl]

/-- Accepted parameters have no property beside the listed ones, at any depth: not in an object that
validation reaches with a schema that lists properties and neither refers to another schema nor
says anything of further properties, by a schema for them or by patterns. -/
theorem listed_of_accepted {parameters : ParameterSchema} {named : Json.Fields}
    (compiled : ParameterSchema.compile schema = .ok parameters)
    (accepted : parameters.violations value = [])
    (reached : Reaches schema value (.object fields) (.object members))
    (plain : fields.lookup "$ref" = none)
    (found : fields.lookup "properties" = some (.object named))
    (unsaid : fields.lookup "additionalProperties" = none)
    (unpatterned : fields.lookup "patternProperties" = none) :
    ∀ name ∈ members.map (·.1), name ∈ named.map (·.1) := by
  intro name inside
  obtain ⟨⟨name, part⟩, member, rfl⟩ := List.mem_map.1 inside
  have closed := (ParameterSchema.compile_eq_ok.1 compiled).1
  rw [ParameterSchema.violations, validate, closed] at accepted
  obtain ⟨fuel, passes⟩ := passes_structural plain (reached.accepted accepted)
  have refused := validate_additional.1
    (passes (lookup_close_of_open found unsaid unpatterned)) name part
  by_contra unlisted
  have uncovered : (name, part) ∈ uncovered (counterpartFields .one fields) members := by
    rw [mem_uncovered, mapOf_counterpartFields rfl, mapOf_counterpartFields rfl, names_rewritten]
    refine ⟨member, ?_, ?_⟩
    · rwa [mapOf, found]
    · simp [mapOf, unpatterned, rewritten]
  exact Bool.false_ne_true (refused uncovered)

def limit : Json.Fields :=
  [("properties", .object [("min", .object [("type", .string "integer")])])]

def rules : Json :=
  .object [("properties", .object [("rules", .object [("items", .object [("allOf",
    .array [.object [("additionalProperties", .object limit)]])])])])]

def diskRules : Json :=
  .object [("rules", .array [.object [("disk", .object [("min", Json.int 3)])]])]

set_option maxRecDepth 2000 in
theorem listed_of_accepted_rules : ∃ parameters value members,
    ParameterSchema.compile rules = .ok parameters ∧ parameters.violations value = [] ∧
      Reaches rules value (.object limit) (.object members) ∧ members.map (·.1) = ["min"] ∧
      ∀ name ∈ members.map (·.1), name ∈ ["min"] := by
  have before : "additionalProperties" < "properties" := by decide
  have closed : structural rules = .object [("additionalProperties", .bool false),
      ("properties", .object [("rules", .object [("items", .object [("allOf", .array [.object
        [("additionalProperties", .object [("additionalProperties", .bool false),
          ("properties", .object [("min", .object [("type", .string "integer")])])])]])])])])] := by
    simp [rules, limit, structural, structuralKeywords, structuralArgument, structuralItems,
      structuralNamed, holds, close, List.lookup_cons, List.lookup_nil, Json.object?,
      Json.insertField, before]
  have compiled : ParameterSchema.compile rules = .ok ⟨structural rules⟩ :=
    ParameterSchema.compile_eq_ok.2 ⟨rfl, by rw [closed]; rfl⟩
  have accepted : ParameterSchema.violations ⟨structural rules⟩ diskRules = [] := by
    rw [closed]
    rfl
  have listed : Reaches rules diskRules _ _ := .property .whole rfl
    (show (mapOf "properties" _).lookup "rules" = some (.object [("items", _)]) from rfl)
    (show List.lookup "rules" _ = some (.array [_]) from rfl)
  have item := listed.item rfl rfl (by simp) List.mem_cons_self
  have disk := (item.conjunct rfl rfl List.mem_cons_self).further rfl rfl List.mem_cons_self
    (by simp [mapOf, List.lookup_cons]) (by simp [mapOf, List.lookup_cons])
  exact ⟨_, _, _, compiled, accepted, disk, rfl,
    listed_of_accepted compiled accepted disk rfl rfl rfl rfl⟩

end PolicyReview.Schema
