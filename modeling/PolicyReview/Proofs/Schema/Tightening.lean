import PolicyReview.Schema.Parameters
import PolicyReview.Proofs.Schema.Progress
import PolicyReview.Proofs.Schema.Structural

/-! What structural schemas refuse. Closing a schema makes it stricter, and with it every schema
whose acceptance rests on its acceptance. Under `not` and `oneOf` acceptance rests on refusal, so
that a schema that is closed there can make the whole more permissive; where none is, the
structural schema accepts nothing that the schema it was made from refuses. -/

namespace PolicyReview.Schema

inductive Sign where
  | plus
  | minus
  deriving DecidableEq, Repr

def Sign.neg : Sign → Sign
  | plus => minus
  | minus => plus

inductive Turns : String → Sign → Sign → Prop
  | direct {keyword : String} {sign : Sign} (direct : keyword ≠ "not") : Turns keyword sign sign
  | reversed {keyword : String} {sign : Sign} (reversed : keyword = "not" ∨ keyword = "oneOf") :
    Turns keyword sign sign.neg

/-- A schema that validation comes to, with what it is in the structural schema. -/
inductive Part (root : Json) : Sign → Json → Json → Prop
  | whole : Part root .plus root (structural root)
  | argument {sign sign' : Sign} {fields fields' : Json.Fields} {keyword : String}
    {argument argument' schema schema' : Json}
    (within : Part root sign (.object fields) (.object fields'))
    (plain : reference? fields = none)
    (found : fields.lookup keyword = some argument)
    (found' : fields'.lookup keyword = some argument')
    (turns : Turns keyword sign sign')
    (pair : Pair (reading keyword argument) argument argument' schema schema') :
    Part root sign' schema schema'
  | reference {sign : Sign} {fields fields' : Json.Fields} {reference : String}
    {target target' : Json} (within : Part root sign (.object fields) (.object fields'))
    (referred : reference? fields = some reference)
    (resolved : resolve? root reference = some target)
    (resolved' : resolve? (structural root) reference = some target') :
    Part root sign target target'

/-- Nothing is added to a schema whose acceptance counts against that of the whole: neither to its
keywords, nor to the names under them, nor by way of a reference that led nowhere. -/
structure Spared (root : Json) : Prop where
  keywords : ∀ {fields fields'}, Part root .minus (.object fields) (.object fields') →
    reference? fields = none → SameNames fields fields'
  names : ∀ {fields fields' keyword named named'},
    Part root .minus (.object fields) (.object fields') → reference? fields = none →
    fields.lookup keyword = some (.object named) →
    fields'.lookup keyword = some (.object named') →
    reading keyword (.object named) = .named → SameNames named named'
  references : ∀ {fields fields' reference}, Part root .minus (.object fields) (.object fields') →
    reference? fields = some reference → resolve? root reference = none →
    resolve? (structural root) reference = none

variable {root schema schema' value : Json} {sign : Sign} {fuel : Nat}
  {fields fields' : Json.Fields} {reference : String}

namespace Part

theorem counterpart (part : Part root sign schema schema') : Counterpart schema schema' := by
  induction part with
  | whole => exact .root root
  | argument within plain found found' turns pair ih =>
    obtain ⟨held, same⟩ := ih
    rw [structuralArgument_object] at same
    obtain rfl := Json.object.inj same
    rw [lookup_counterpartFields held found] at found'
    exact pair.counterpart ⟨_, (Option.some.inj found').symm⟩
  | reference within referred resolved resolved' =>
    obtain ⟨target', led, counterpart⟩ := (Counterpart.root root).resolve? resolved
    obtain rfl := Option.some.inj (led.symm.trans resolved')
    exact counterpart

theorem mem_parts (part : Part root sign schema schema') : schema ∈ root.parts := by
  induction part with
  | whole => exact root.self_mem_parts
  | argument within plain found found' turns pair ih =>
    exact Json.mem_parts_trans (Json.mem_parts_trans pair.mem_parts _
      (Json.mem_parts_of_field (mem_of_lookup found))) root ih
  | reference within referred resolved => exact mem_parts_of_resolve? resolved

end Part

theorem reference?_counterpartFields {held : Holds} :
    reference? (counterpartFields held fields) = reference? fields := by
  unfold reference?
  cases found : fields.lookup "$ref" with
  | none =>
    rcases lookup_counterpartFields_none held found with none | ⟨other, -⟩
    · rw [none]
    · exact absurd other (by decide)
  | some argument =>
    rw [lookup_counterpartFields held found]
    generalize held.under "$ref" = taken
    cases argument with
    | object fields => rw [structuralArgument_object]; rfl
    | array items =>
      by_cases listed : taken = .listed
      · rw [listed, structuralArgument_listed]; rfl
      · rw [structuralArgument_array listed]
    | _ => cases taken <;> simp [structuralArgument, structural]

def Sign.Hands (sign : Sign) (whole structural : Prop) : Prop :=
  match sign with
  | plus => structural → whole
  | minus => whole → structural

section Step

variable {held : Holds} {V V' : Validator}

theorem Part.matches_plus (ordered : root.Ordered)
    (part : Part root .plus (.object fields) (.object (counterpartFields held fields)))
    (plain : reference? fields = none)
    (ih : ∀ {sign schema schema'} (value : Json), Part root sign schema schema' →
      sign.Hands (V schema value = []) (V' schema' value = [])) :
    Matches (Agree V' V value) (counterpartFields held fields) fields := by
  have inOrder : (Json.object fields).Ordered := ordered.of_mem_parts part.mem_parts
  refine ⟨counterpartFields_ascending held inOrder.1, inOrder.1, ?_, ?_⟩
  · intro keyword argument found
    have found' := lookup_counterpartFields held found
    refine ⟨_, found', (taken held keyword argument).corresponds_back (inOrder.of_lookup found)
      fun pair => ⟨(pair.counterpart ⟨_, rfl⟩).shape, fun direct value _ => ?_,
        fun reversed value _ => ?_⟩⟩
    · exact ih value (.argument part plain found found' (.direct direct) pair)
    · exact ih value (.argument part plain found found' (.reversed reversed) pair)
  · intro keyword other absent
    exact (lookup_counterpartFields_none held absent).resolve_right fun added => other added.1

theorem Part.matches_minus (ordered : root.Ordered) (spared : Spared root)
    (part : Part root .minus (.object fields) (.object (counterpartFields held fields)))
    (plain : reference? fields = none)
    (ih : ∀ {sign schema schema'} (value : Json), Part root sign schema schema' →
      sign.Hands (V schema value = []) (V' schema' value = [])) :
    Matches (Agree V V' value) fields (counterpartFields held fields) := by
  have inOrder : (Json.object fields).Ordered := ordered.of_mem_parts part.mem_parts
  refine ⟨inOrder.1, counterpartFields_ascending held inOrder.1, ?_, ?_⟩
  · intro keyword argument' found'
    cases found : fields.lookup keyword with
    | none =>
      rw [spared.keywords part plain keyword found] at found'
      cases found'
    | some argument =>
      obtain rfl := Option.some.inj (found'.symm.trans (lookup_counterpartFields held found))
      refine ⟨argument, rfl, (taken held keyword argument).corresponds_forth
        (inOrder.of_lookup found) ?_ fun pair => ⟨(pair.counterpart ⟨_, rfl⟩).shape.symm,
          fun direct value _ => ?_, fun reversed value _ => ?_⟩⟩
      · rintro named named' rfl same reads
        rw [same] at found'
        exact spared.names part plain found found' reads
      · exact ih value (.argument part plain found found' (.direct direct) pair)
      · exact ih value (.argument part plain found found' (.reversed reversed) pair)
  · intro keyword _ none
    cases found : fields.lookup keyword with
    | none => rfl
    | some argument =>
      rw [lookup_counterpartFields held found] at none
      cases none

end Step

theorem Part.hands (ordered : root.Ordered) (spared : Spared root) (fuel : Nat) (value : Json)
    (part : Part root sign schema schema') :
    sign.Hands (violations .four root fuel schema value = [])
      (violations .four (structural root) fuel schema' value = []) := by
  induction fuel generalizing sign schema schema' value with
  | zero => cases sign <;> exact fun accepted => by cases accepted
  | succ fuel ih =>
    obtain ⟨held, rfl⟩ := part.counterpart
    cases schema with
    | object fields =>
      rw [structuralArgument_object] at part ⊢
      have inOrder : (Json.object fields).Ordered := ordered.of_mem_parts part.mem_parts
      have inOrder' := counterpartFields_ascending held inOrder.1
      have same : reference? (counterpartFields held fields) = reference? fields :=
        reference?_counterpartFields
      cases referred : reference? fields with
      | some reference =>
        rw [violations_reference inOrder.1 referred,
          violations_reference inOrder' (same.trans referred)]
        cases sign with
        | plus =>
          intro accepted target resolved
          obtain ⟨target', resolved', -⟩ := (Counterpart.root root).resolve? resolved
          exact ih value (.reference part referred resolved resolved')
            (accepted target' resolved')
        | minus =>
          intro accepted target' resolved'
          cases resolved : resolve? root reference with
          | none =>
            rw [spared.references part referred resolved] at resolved'
            cases resolved'
          | some target =>
            exact ih value (.reference part referred resolved resolved')
              (accepted target resolved)
      | none =>
        cases sign with
        | plus =>
          exact (part.matches_plus ordered referred ih).violations_handed (same.trans referred)
            referred
        | minus =>
          exact (part.matches_minus ordered spared referred ih).violations_handed referred
            (same.trans referred)
    | array items =>
      have kept : ∃ items', structuralArgument held (.array items) = .array items' := by
        by_cases listed : held = .listed
        · exact ⟨_, listed ▸ structuralArgument_listed items⟩
        · exact ⟨_, structuralArgument_array listed items⟩
      obtain ⟨items', kept⟩ := kept
      rw [kept]
      cases sign <;> exact fun _ => rfl
    | bool verdict =>
      have kept : structuralArgument held (.bool verdict) = .bool verdict := by
        cases held <;> simp [structuralArgument, structural]
      rw [kept]
      cases verdict <;> cases sign <;> exact id
    | null | number _ | string _ =>
      cases held <;> simp only [structuralArgument, structural] <;> cases sign <;> exact id

/-! Schemas that are spared. -/

theorem sameNames_counterpartFields {held : Holds} (unnamed : fields.lookup "properties" = none) :
    SameNames fields (counterpartFields held fields) := by
  intro name absent
  cases held with
  | one =>
    have kept : close (rewritten .one fields) = rewritten .one fields := by
      rw [close, lookup_rewritten, unnamed]
      rfl
    rw [counterpartFields, kept, lookup_rewritten, absent, Option.map_none]
  | _ => exact lookup_rewritten.trans (by rw [absent, Option.map_none])

structure IsBare (fields : Json.Fields) : Prop where
  plain : reference? fields = none
  unnamed : ∀ keyword argument, fields.lookup keyword = some argument →
    reading keyword argument ≠ .named

def BareUnderTurns (root : Json) : Prop :=
  ∀ fields keyword argument, .object fields ∈ root.parts → keyword = "not" ∨ keyword = "oneOf" →
    fields.lookup keyword = some argument → ∀ inner, .object inner ∈ argument.parts → IsBare inner

theorem Part.under_turn (bare : BareUnderTurns root) (part : Part root .minus schema schema') :
    ∃ fields keyword argument, .object fields ∈ root.parts ∧
      (keyword = "not" ∨ keyword = "oneOf") ∧ fields.lookup keyword = some argument ∧
      schema ∈ argument.parts := by
  suffices turned : ∀ {sign schema schema'}, Part root sign schema schema' → sign = .minus →
      ∃ fields keyword argument, .object fields ∈ root.parts ∧
        (keyword = "not" ∨ keyword = "oneOf") ∧ fields.lookup keyword = some argument ∧
        schema ∈ argument.parts from turned part rfl
  intro sign schema schema' part negative
  induction part with
  | whole => cases negative
  | @argument _ _ fields _ keyword argument _ _ _ within plain found found' turns pair ih =>
    cases turns with
    | direct =>
      obtain ⟨outer, turning, above, listed, turns, there, inside⟩ := ih negative
      exact ⟨outer, turning, above, listed, turns, there, Json.mem_parts_trans
        (Json.mem_parts_trans pair.mem_parts _ (Json.mem_parts_of_field (mem_of_lookup found)))
        above inside⟩
    | reversed turns =>
      exact ⟨fields, keyword, argument, within.mem_parts, turns, found, pair.mem_parts⟩
  | reference within referred _ _ ih =>
    obtain ⟨outer, turning, above, listed, turns, there, inside⟩ := ih negative
    rw [(bare outer turning above listed turns there _ inside).plain] at referred
    cases referred

theorem spared_of_bare (bare : BareUnderTurns root) : Spared root := by
  have isBare : ∀ {fields schema'}, Part root .minus (.object fields) schema' → IsBare fields :=
    fun part => by
      obtain ⟨outer, turning, above, listed, turns, there, inside⟩ := part.under_turn bare
      exact bare outer turning above listed turns there _ inside
  refine ⟨fun part _ => ?_, fun part _ found _ reads => ?_, fun part referred => ?_⟩
  · obtain ⟨held, same⟩ := part.counterpart
    rw [structuralArgument_object] at same
    obtain rfl := Json.object.inj same
    refine sameNames_counterpartFields (Option.eq_none_iff_forall_ne_some.2 ?_)
    exact fun argument found => (isBare part).unnamed "properties" argument found rfl
  · exact absurd reads ((isBare part).unnamed _ _ found)
  · rw [(isBare part).plain] at referred
    cases referred

/-! Parameter schemas. -/

theorem ParameterSchema.compile_eq_ok {parameters : ParameterSchema} :
    ParameterSchema.compile schema = .ok parameters ↔
      parameters.schema = structural schema ∧ checkSchema (structural schema) = .ok () := by
  obtain ⟨closed⟩ := parameters
  change (checkSchema (structural schema)).map (fun _ => ParameterSchema.mk (structural schema)) =
    .ok ⟨closed⟩ ↔ _
  cases checkSchema (structural schema) <;> simp [Except.map, eq_comm]

/-- A parameter schema that is spared admits only values that are valid under the schema that it was
made from: at every bound of the visits, and by the bound that validation has for itself. -/
theorem structural_tightens {parameters : ParameterSchema} (ordered : schema.Ordered)
    (spared : Spared schema) (compiled : ParameterSchema.compile schema = .ok parameters)
    (value : Json) :
    (∀ fuel, violations .four parameters.schema fuel parameters.schema value = [] →
      violations .four schema fuel schema value = []) ∧
    (Progressive schema → parameters.violations value = [] →
      isValid .four schema value = true) := by
  have closed := (ParameterSchema.compile_eq_ok.1 compiled).1
  have handed : ∀ fuel, violations .four parameters.schema fuel parameters.schema value = [] →
      violations .four schema fuel schema value = [] := fun fuel accepted => by
    rw [closed] at accepted
    exact Part.hands ordered spared fuel value .whole accepted
  refine ⟨handed, fun progressive accepted => ?_⟩
  have larger : enough schema value ≤ enough parameters.schema value := by
    have sizes := size_le_structuralArgument .one schema
    rw [structuralArgument_one, ← closed] at sizes
    exact Nat.mul_le_mul_right _ (Nat.succ_le_succ sizes)
  exact (isValid_iff ordered progressive larger).2 (handed _ accepted)

def limits : Json :=
  .object [("not", .object [("required", .array [.string "legacy"])]),
    ("properties", .object [("range",
      .object [("properties", .object [("depth", .object [("type", .string "integer")])])])])]

theorem structural_tightens_limits : ∃ parameters value,
    ParameterSchema.compile limits = .ok parameters ∧ parameters.violations value = [] ∧
      isValid .four limits value = true := by
  have before : "additionalProperties" < "properties" ∧ "additionalProperties" < "not" := by decide
  have closed : structural limits = .object [("additionalProperties", .bool false),
      ("not", .object [("required", .array [.string "legacy"])]),
      ("properties", .object [("range", .object [("additionalProperties", .bool false),
        ("properties", .object [("depth", .object [("type", .string "integer")])])])])] := by
    simp [limits, structural, structuralKeywords, structuralArgument, structuralNamed, holds, close,
      List.lookup_cons, List.lookup_nil, Json.object?, Json.insertField, before]
  have compiled : ParameterSchema.compile limits = .ok ⟨structural limits⟩ :=
    ParameterSchema.compile_eq_ok.2 ⟨rfl, by rw [closed]; rfl⟩
  have accepted : ParameterSchema.violations ⟨structural limits⟩
      (.object [("range", .object [("depth", Json.int 3)])]) = [] := by
    rw [closed]
    rfl
  have ordered : limits.Ordered := by
    simp only [limits, Json.Ordered, Json.OrderedFields, Json.OrderedItems, Ascending]
    decide
  have objects : ∀ fields, .object fields ∈ limits.parts → reference? fields = none ∧
      ∀ keyword argument, keyword = "not" ∨ keyword = "oneOf" →
        fields.lookup keyword = some argument →
          argument = .object [("required", .array [.string "legacy"])] := by
    intro fields inside
    simp only [limits, Json.parts, Json.partsOfFields, Json.partsOfItems, List.cons_append,
      List.nil_append, List.append_nil, List.mem_cons, List.not_mem_nil, Json.object.injEq,
      reduceCtorEq, or_false, false_or] at inside
    rcases inside with rfl | rfl | rfl | rfl | rfl | rfl <;>
      refine ⟨rfl, fun keyword argument turns found => ?_⟩ <;> rcases turns with rfl | rfl <;>
        first | exact (Option.some.inj found).symm | cases found
  have bare : BareUnderTurns limits := by
    intro fields keyword argument inside turns found inner within
    obtain rfl := (objects fields inside).2 keyword argument turns found
    obtain rfl : inner = [("required", .array [.string "legacy"])] := by
      simpa [Json.parts, Json.partsOfFields, Json.partsOfItems] using within
    refine ⟨rfl, fun keyword argument found => ?_⟩
    obtain ⟨rfl, rfl⟩ : keyword = "required" ∧ argument = .array [.string "legacy"] := by
      simpa using mem_of_lookup found
    simp [reading]
  have progressive : Progressive limits :=
    progressive_of_plain fun fields inside => (objects fields inside).1
  exact ⟨_, _, compiled, accepted,
    (structural_tightens ordered (spared_of_bare bare) compiled _).2 progressive accepted⟩

/-- A schema that is closed under `not` forbids only what has no further properties. -/
def negated : Json := .object [("not", .object [("properties", .object [("a", .object [])])])]

/-- Alternatives that are closed exclude each other. -/
def alternatives : Json :=
  .object [("oneOf", .array [.object [("properties", .object [("a", .object [])])],
    .object [("properties", .object [("b", .object [])])]])]

/-- Under `not` and under `oneOf` closed schemas make the whole accept more. -/
theorem structural_loosens :
    (∃ parameters, ParameterSchema.compile negated = .ok parameters ∧
      parameters.violations (.object [("b", Json.int 1)]) = [] ∧
      isValid .four negated (.object [("b", Json.int 1)]) = false) ∧
    (∃ parameters, ParameterSchema.compile alternatives = .ok parameters ∧
      parameters.violations (.object [("a", Json.int 1)]) = [] ∧
      isValid .four alternatives (.object [("a", Json.int 1)]) = false) := by
  have before : "additionalProperties" < "properties" := by decide
  have closed : structural negated = .object [("not", .object
      [("additionalProperties", .bool false), ("properties", .object [("a", .object [])])])] := by
    simp [negated, structural, structuralKeywords, structuralArgument, structuralNamed, holds,
      close, List.lookup_cons, List.lookup_nil, Json.object?, Json.insertField, before]
  have closed' : structural alternatives = .object [("oneOf", .array [
      .object [("additionalProperties", .bool false), ("properties", .object [("a", .object [])])],
      .object [("additionalProperties", .bool false),
        ("properties", .object [("b", .object [])])]])] := by
    simp [alternatives, structural, structuralKeywords, structuralArgument, structuralItems,
      structuralNamed, holds, close, List.lookup_cons, List.lookup_nil, Json.object?,
      Json.insertField, before]
  constructor
  · refine ⟨⟨_⟩, ParameterSchema.compile_eq_ok.2 ⟨closed.symm, ?_⟩, rfl, rfl⟩
    rw [closed]
    rfl
  · refine ⟨⟨_⟩, ParameterSchema.compile_eq_ok.2 ⟨closed'.symm, ?_⟩, rfl, rfl⟩
    rw [closed']
    rfl

end PolicyReview.Schema
