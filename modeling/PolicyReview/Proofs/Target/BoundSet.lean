import PolicyReview.Target.Preamble
import PolicyReview.Proofs.Rego.Literal

/-! Bound sets in policy sources. What is written for a bound set is read as the object that spells it
out. -/

namespace PolicyReview.Target.BoundSet

open Rego

/-- The tokens after the name of an entry and its colon: its texts, and the entries after it. -/
def restTokens (texts : List String) : BoundSet → List Placed
  | [] => listTokens texts
  | (name, later) :: rest => listTokens texts ++ ⟨.nothing, .mark .comma⟩ ::
      ⟨.nothing, .quoted name⟩ :: ⟨.nothing, .mark .colon⟩ :: restTokens later rest

def entryTokens : BoundSet → List Placed
  | [] => []
  | (name, texts) :: rest =>
    ⟨.nothing, .quoted name⟩ :: ⟨.nothing, .mark .colon⟩ :: restTokens texts rest

/-- The tokens of a bound set after a gap. -/
def tokens (gap : Gap) (bound : BoundSet) : List Placed :=
  ⟨gap, .mark .openBrace⟩ :: entryTokens bound ++ [⟨.nothing, .mark .closeBrace⟩]

def expr (bound : BoundSet) : Expr :=
  .object (bound.map fun (name, texts) => (.ofText name, .array (texts.map .ofText)))

theorem reads_expr (bound : BoundSet) : bound.expr.reads = [] ∧ bound.expr.keys = [] := by
  have items : ∀ texts : List String, Expr.readsOfItems (texts.map .ofText) = [] ∧
      Expr.keysOfItems (texts.map .ofText) = [] := by
    intro texts
    induction texts with
    | nil => exact ⟨rfl, rfl⟩
    | cons text texts ih => exact ih
  rw [expr, Expr.reads, Expr.keys]
  induction bound with
  | nil => exact ⟨rfl, rfl⟩
  | cons entry bound ih =>
    obtain ⟨reads, keys⟩ := items entry.2
    rw [List.map_cons, Expr.readsOfEntries, Expr.keysOfEntries, Expr.reads, Expr.keys, reads, keys]
    exact ih

/-! Writing. -/

theorem chunk_entry (name : String) (texts : List String) :
    Chunk .nothing (Json.quote name ++ ':' :: (Json.strings texts).chars)
      (⟨.nothing, .quoted name⟩ :: ⟨.nothing, .mark .colon⟩ :: listTokens texts) .nothing := by
  have opening : Chunk .nothing [':', '[']
      [⟨.nothing, .mark .colon⟩, ⟨.nothing, .mark .openBracket⟩] .nothing :=
    .of_steps (Nat.le_refl 2) fun fuel _ => by cases fuel <;> rfl
  have closing : Chunk .nothing [']'] [⟨.nothing, .mark .closeBracket⟩] .nothing :=
    .of_steps (Nat.le_refl 1) fun fuel _ => by cases fuel <;> rfl
  exact (Chunk.quote .nothing name).append
    (opening.append ((chunk_items texts).append closing))

theorem chunk_entries (bound : BoundSet) :
    Chunk .nothing (Json.fieldChars (bound.map fun (name, texts) => (name, Json.strings texts)))
      (entryTokens bound) .nothing := by
  induction bound with
  | nil => exact .nil
  | cons entry rest ih =>
    cases rest with
    | nil => exact chunk_entry entry.1 entry.2
    | cons second rest => exact (chunk_entry entry.1 entry.2).append (chunk_comma.append ih)

theorem chunk_render (gap : Gap) (bound : BoundSet) :
    Chunk gap bound.toJson.render.toList (bound.tokens gap) .nothing := by
  have opening : Chunk gap ['{'] [⟨gap, .mark .openBrace⟩] .nothing :=
    .of_steps (Nat.le_refl 1) fun fuel _ => by cases fuel <;> rfl
  have closing : Chunk .nothing ['}'] [⟨.nothing, .mark .closeBrace⟩] .nothing :=
    .of_steps (Nat.le_refl 1) fun fuel _ => by cases fuel <;> rfl
  rw [Json.render, String.toList_ofList]
  exact opening.append ((chunk_entries bound).append closing)

theorem isPlain_render (bound : BoundSet) : Json.IsPlain bound.toJson.render.toList := by
  have bracketed {cs : List Char} {first last : Char} (plain : Json.IsPlain cs)
      (opens : 32 ≤ first.toNat) (closes : 32 ≤ last.toNat) :
      Json.IsPlain (first :: cs ++ [last]) :=
    Json.isPlain_cons.2 ⟨opens, plain.append (List.forall_mem_singleton.2 closes)⟩
  rw [Json.render, String.toList_ofList]
  refine bracketed (Json.isPlain_fieldChars fun field member => ?_) (by decide) (by decide)
  obtain ⟨entry, -, rfl⟩ := List.mem_map.1 member
  refine bracketed (Json.isPlain_itemChars fun item member => ?_) (by decide) (by decide)
  obtain ⟨text, -, rfl⟩ := List.mem_map.1 member
  exact Json.isPlain_quote text

/-! Reading. -/

variable {next : Placed} {fuel : Nat} {rest : List Placed}

def span (bound : BoundSet) : Nat := (bound.map fun entry => entry.2.length + 1).sum

theorem span_cons (entry : String × List String) (bound : BoundSet) :
    span (entry :: bound) = entry.2.length + 1 + span bound := List.sum_cons

theorem span_le (gap : Gap) (bound : BoundSet) : bound.span ≤ (bound.tokens gap).length := by
  have later : ∀ (texts : List String) (rest : BoundSet),
      texts.length + 1 + rest.span ≤ (restTokens texts rest).length := by
    intro texts rest
    have whole := length_le_listTokens texts
    induction rest generalizing texts with
    | nil => exact whole
    | cons entry rest ih =>
      have others := ih entry.2 (length_le_listTokens entry.2)
      rw [span_cons]
      simp only [restTokens, List.length_append, List.length_cons]
      omega
  cases bound with
  | nil => exact Nat.zero_le _
  | cons entry rest =>
    have entries := later entry.2 rest
    rw [span_cons]
    simp only [tokens, entryTokens, List.cons_append, List.length_append, List.length_cons]
    omega

theorem readEntries_tokens (name : String) (texts : List String) (later : BoundSet)
    (enough : texts.length + later.span + 9 ≤ fuel) :
    readEntries fuel (.ofText name)
        (restTokens texts later ++ ⟨.nothing, .mark .closeBrace⟩ :: rest) =
      some (((name, texts) :: later).map fun (name, texts) =>
        (Expr.ofText name, Expr.array (texts.map .ofText)), rest) := by
  induction later generalizing name texts fuel with
  | nil =>
    obtain ⟨fuel, rfl⟩ := Nat.exists_eq_add_of_le' enough
    change readEntries (fuel + (texts.length + 0 + 8) + 1) _ (listTokens texts ++ _) = _
    rw [readEntries, readExpr_list (.closeBrace .nothing) _ (by omega)]
    rfl
  | cons second later ih =>
    obtain ⟨fuel, rfl⟩ := Nat.exists_eq_add_of_le' enough
    have whole : restTokens texts (second :: later) ++ ⟨.nothing, .mark .closeBrace⟩ :: rest =
        listTokens texts ++ ⟨.nothing, .mark .comma⟩ :: ⟨.nothing, .quoted second.1⟩ ::
          ⟨.nothing, .mark .colon⟩ :: (restTokens second.2 later ++
            ⟨.nothing, .mark .closeBrace⟩ :: rest) := List.append_assoc _ _ _
    have name : readExpr (fuel + (texts.length + span (second :: later) + 8))
        (⟨.nothing, .quoted second.1⟩ :: ⟨.nothing, .mark .colon⟩ ::
          (restTokens second.2 later ++ ⟨.nothing, .mark .closeBrace⟩ :: rest)) =
            some (.ofText second.1, ⟨.nothing, .mark .colon⟩ ::
              (restTokens second.2 later ++ ⟨.nothing, .mark .closeBrace⟩ :: rest)) :=
      readExpr_text (.colon .nothing) .nothing second.1
    have others := span_cons second later
    change readEntries (fuel + (texts.length + span (second :: later) + 8) + 1) _ _ = _
    rw [whole, readEntries, readExpr_list (.comma .nothing) _ (by omega)]
    dsimp only
    rw [name]
    dsimp only
    rw [ih second.1 second.2 (by omega)]
    rfl

theorem readBraced_tokens (bound : BoundSet) (enough : bound.span + 9 ≤ fuel) :
    readBraced fuel (entryTokens bound ++ ⟨.nothing, .mark .closeBrace⟩ :: rest) =
      some (bound.expr, rest) := by
  obtain ⟨fuel, rfl⟩ := Nat.exists_eq_add_of_le' enough
  change readBraced (fuel + (bound.span + 8) + 1) _ = _
  cases bound with
  | nil => rfl
  | cons entry later =>
    have name : readExpr (fuel + (span (entry :: later) + 8)) (entryTokens (entry :: later) ++
        ⟨.nothing, .mark .closeBrace⟩ :: rest) = some (.ofText entry.1,
          ⟨.nothing, .mark .colon⟩ :: (restTokens entry.2 later ++
            ⟨.nothing, .mark .closeBrace⟩ :: rest)) :=
      readExpr_text (.colon .nothing) .nothing entry.1
    have others := span_cons entry later
    rw [readBraced, name]
    · dsimp only
      rw [readEntries_tokens entry.1 entry.2 later (by omega)]
      rfl
    · rintro _ _ ⟨⟩

theorem readExpr_tokens (ends : EndsBefore next) (gap : Gap) (bound : BoundSet)
    (enough : bound.span + 12 ≤ fuel) :
    readExpr fuel (bound.tokens gap ++ next :: rest) = some (bound.expr, next :: rest) := by
  obtain ⟨fuel, rfl⟩ := Nat.exists_eq_add_of_le' enough
  have braced : readBraced (fuel + (bound.span + 9))
      (entryTokens bound ++ ([⟨.nothing, .mark .closeBrace⟩] ++ next :: rest)) =
        some (bound.expr, next :: rest) := readBraced_tokens bound (by omega)
  change readExpr (fuel + (bound.span + 10) + 2) _ = _
  refine readExpr_of_term ends ?_
  change readTerm (fuel + (bound.span + 9) + 1) (⟨gap, .mark .openBrace⟩ ::
    (entryTokens bound ++ [⟨.nothing, .mark .closeBrace⟩] ++ next :: rest)) = _
  rw [readTerm, List.append_assoc, braced]
  exact readPath_of_ends ends _

end PolicyReview.Target.BoundSet
