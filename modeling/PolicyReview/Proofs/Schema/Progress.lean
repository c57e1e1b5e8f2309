import PolicyReview.Proofs.Json.Part
import PolicyReview.Proofs.Schema.Reference
import Mathlib.Data.List.Perm.Subperm
import Mathlib.Logic.Relation

/-! Schemas whose references make progress. No chain of schemas that are asked about one value comes
back to where it was, so that it is as short as the schema, and what validation finds does not
depend on the fuel once there is enough. -/

namespace PolicyReview.Schema

variable {root schema next value : Json} {fuel fuel' : Nat}

/-- What a schema says of a value rests on what the other one says of the same value. -/
inductive Beside (root : Json) : Json → Json → Prop
  | argument {fields : Json.Fields} {keyword : String} {argument schema : Json}
    (plain : reference? fields = none) (listed : (keyword, argument) ∈ fields)
    (among : keyword ∈ inPlace) (sub : Sub (reading keyword argument) argument schema) :
    Beside root (.object fields) schema
  | reference {fields : Json.Fields} {reference : String} {target : Json}
    (referred : reference? fields = some reference)
    (resolved : resolve? root reference = some target) : Beside root (.object fields) target

/-- What a schema says of a value rests on what the other one says of the members of the value. -/
inductive Below : Json → Json → Prop
  | argument {fields : Json.Fields} {keyword : String} {argument schema : Json}
    (listed : (keyword, argument) ∈ fields) (apart : keyword ∉ inPlace)
    (sub : Sub (reading keyword argument) argument schema) : Below (.object fields) schema

def Visit (root schema next : Json) : Prop := Beside root schema next ∨ Below schema next

/-- No schema that validation comes to rests on what it says itself of the same value. -/
def Progressive (root : Json) : Prop :=
  ∀ schema, Relation.ReflTransGen (Visit root) root schema →
    ¬Relation.TransGen (Beside root) schema schema

/-! Validation stays within the schema. -/

theorem Sub.mem_parts {held : Holds} {argument : Json} (sub : Sub held argument schema) :
    schema ∈ argument.parts := by
  cases sub with
  | self => exact schema.self_mem_parts
  | item inside => exact Json.mem_parts_of_item inside
  | member inside => exact Json.mem_parts_of_field inside

theorem mem_parts_of_resolve? {reference : String}
    (resolved : resolve? root reference = some schema) : schema ∈ root.parts := by
  obtain ⟨pointer, -, led⟩ := Option.bind_eq_some_iff.1 resolved
  exact Json.mem_parts_of_pointer? led

theorem Visit.mem_parts (visit : Visit root schema next) (inside : schema ∈ root.parts) :
    next ∈ root.parts := by
  rcases visit with (⟨plain, listed, among, sub⟩ | ⟨referred, resolved⟩) | ⟨listed, apart, sub⟩
  · exact Json.mem_parts_trans
      (Json.mem_parts_trans sub.mem_parts _ (Json.mem_parts_of_field listed)) root inside
  · exact mem_parts_of_resolve? resolved
  · exact Json.mem_parts_trans
      (Json.mem_parts_trans sub.mem_parts _ (Json.mem_parts_of_field listed)) root inside

theorem mem_parts_of_visits (visits : Relation.ReflTransGen (Visit root) root schema) :
    schema ∈ root.parts := by
  induction visits with
  | refl => exact root.self_mem_parts
  | tail _ visit ih => exact visit.mem_parts ih

theorem Sub.size_le {held : Holds} {argument : Json} (sub : Sub held argument schema) :
    schema.size ≤ argument.size := by
  cases sub with
  | self => exact Nat.le_refl _
  | item inside => exact Nat.le_of_lt (Json.size_lt_of_item inside)
  | member inside => exact Nat.le_of_lt (Json.size_lt_of_field inside)

theorem progressive_of_plain
    (plain : ∀ fields, .object fields ∈ root.parts → reference? fields = none) :
    Progressive root := by
  have smaller : ∀ {schema next}, schema ∈ root.parts → Beside root schema next →
      next.size < schema.size := by
    intro schema next inside beside
    cases beside with
    | argument _ listed _ sub => exact Nat.lt_of_le_of_lt sub.size_le (Json.size_lt_of_field listed)
    | reference referred =>
      rw [plain _ inside] at referred
      cases referred
  intro schema visits again
  have inside := mem_parts_of_visits visits
  suffices descends : ∀ {next}, Relation.TransGen (Beside root) schema next →
      next ∈ root.parts ∧ next.size < schema.size from
    Nat.lt_irrefl _ (descends again).2
  intro next chain
  induction chain with
  | single beside => exact ⟨Visit.mem_parts (.inl beside) inside, smaller inside beside⟩
  | tail _ beside ih =>
    exact ⟨Visit.mem_parts (.inl beside) ih.1, (smaller ih.1 beside).trans ih.2⟩

/-! The schemas that a value has been asked about so far. -/

/-- Validation has come to a schema, and at the value at hand it has been at others before. -/
structure Trail (root : Json) (seen : List Json) (schema : Json) : Prop where
  visits : Relation.ReflTransGen (Visit root) root schema
  distinct : seen.Nodup
  led : ∀ earlier ∈ seen, Relation.TransGen (Beside root) earlier schema
  inside : ∀ earlier ∈ seen, earlier ∈ root.parts

namespace Trail

variable {seen : List Json}

theorem start (root : Json) : Trail root [] root :=
  ⟨.refl, List.nodup_nil, fun _ none => (by cases none), fun _ none => (by cases none)⟩

theorem below (trail : Trail root seen schema) (below : Below schema next) : Trail root [] next :=
  ⟨trail.visits.tail (.inr below), List.nodup_nil, fun _ none => (by cases none),
    fun _ none => (by cases none)⟩

theorem notMem (trail : Trail root seen schema) (progressive : Progressive root) :
    schema ∉ seen :=
  fun again => progressive schema trail.visits (trail.led schema again)

theorem beside (trail : Trail root seen schema) (progressive : Progressive root)
    (beside : Beside root schema next) : Trail root (schema :: seen) next where
  visits := trail.visits.tail (.inl beside)
  distinct := List.nodup_cons.2 ⟨trail.notMem progressive, trail.distinct⟩
  led := List.forall_mem_cons.2
    ⟨.single beside, fun earlier member => (trail.led earlier member).tail beside⟩
  inside := List.forall_mem_cons.2 ⟨mem_parts_of_visits trail.visits, trail.inside⟩

theorem room (trail : Trail root seen schema) (progressive : Progressive root) :
    seen.length < root.size := by
  have distinct : (schema :: seen).Nodup :=
    List.nodup_cons.2 ⟨trail.notMem progressive, trail.distinct⟩
  have inside : schema :: seen ⊆ root.parts :=
    List.forall_mem_cons.2 ⟨mem_parts_of_visits trail.visits, trail.inside⟩
  have bounded := (List.subperm_of_subset distinct inside).length_le
  rwa [List.length_cons, Json.length_parts] at bounded

end Trail

/-! Fuel. -/

def budget (root : Json) (seen : List Json) (value : Json) : Nat :=
  root.size - seen.length + (root.size + 1) * value.size

theorem Member.size_lt {part : Json} (member : Member value part) : part.size < value.size := by
  cases member with
  | item inside => exact Json.size_lt_of_item inside
  | field inside => exact Json.size_lt_of_field inside

theorem budget_below {seen : List Json} {part : Json} (room : seen.length < root.size)
    (smaller : part.size < value.size) : budget root [] part < budget root seen value := by
  have step : (root.size + 1) * (part.size + 1) ≤ (root.size + 1) * value.size :=
    Nat.mul_le_mul_left _ smaller
  rw [Nat.mul_succ] at step
  simp only [budget, List.length_nil]
  omega

theorem budget_beside (schema value : Json) {seen : List Json} (room : seen.length < root.size) :
    budget root (schema :: seen) value < budget root seen value := by
  simp only [budget, List.length_cons]
  omega

theorem violations_settled (ordered : root.Ordered) (progressive : Progressive root)
    {seen : List Json} (trail : Trail root seen schema) (enough : budget root seen value ≤ fuel)
    (enough' : budget root seen value ≤ fuel') :
    violations .four root fuel schema value = [] ↔
      violations .four root fuel' schema value = [] := by
  induction fuel generalizing fuel' seen schema value with
  | zero =>
    have room := trail.room progressive
    rw [budget] at enough
    omega
  | succ fuel ih =>
    have room := trail.room progressive
    obtain ⟨fuel', rfl⟩ : ∃ less, fuel' = less + 1 := by
      rw [budget] at enough'
      exact Nat.exists_eq_add_of_le' (by omega)
    have besides : ∀ {next}, Beside root schema next →
        (violations .four root fuel next value = [] ↔
          violations .four root fuel' next value = []) := fun beside => by
      have less := budget_beside schema value room
      exact ih (trail.beside progressive beside) (by omega) (by omega)
    have belows : ∀ {next part}, Below schema next → Member value part →
        (violations .four root fuel next part = [] ↔
          violations .four root fuel' next part = []) := fun below member => by
      have less := budget_below room member.size_lt
      exact ih (trail.below below) (by omega) (by omega)
    have inOrder : schema.Ordered := ordered.of_mem_parts (mem_parts_of_visits trail.visits)
    cases schema with
    | object fields =>
      cases referred : reference? fields with
      | some reference =>
        rw [violations_reference inOrder.1 referred, violations_reference inOrder.1 referred]
        exact forall₂_congr fun target resolved => besides (.reference referred resolved)
      | none =>
        have asked : ∀ {keyword argument next}, fields.lookup keyword = some argument →
            Sub (reading keyword argument) argument next → ∀ part, Asked keyword value part →
            (violations .four root fuel next part = [] ↔
              violations .four root fuel' next part = []) := by
          intro keyword argument next found sub part asked
          unfold Asked at asked
          split at asked
          next among =>
            rw [asked]
            exact besides (.argument referred (mem_of_lookup found) among sub)
          next apart => exact belows (.argument (mem_of_lookup found) apart sub) asked
        exact ⟨(Matches.of_asked inOrder.1 asked).violations_handed referred referred,
          (Matches.of_asked inOrder.1 fun found sub part here =>
            (asked found sub part here).symm).violations_handed referred referred⟩
    | bool verdict => cases verdict <;> exact Iff.rfl
    | _ => exact Iff.rfl

theorem isValid_iff (ordered : root.Ordered) (progressive : Progressive root)
    (plenty : enough root value ≤ fuel) :
    isValid .four root value = true ↔ violations .four root fuel root value = [] := by
  have spent : budget root [] value ≤ enough root value := by
    simp only [budget, enough, List.length_nil, Nat.mul_succ]
    omega
  rw [isValid, List.isEmpty_iff, validate]
  exact violations_settled ordered progressive (.start root) spent (Nat.le_trans spent plenty)

end PolicyReview.Schema
