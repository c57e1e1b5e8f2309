import PolicyReview.Rego.Module.Reader
import PolicyReview.Proofs.Rego.Chunk

/-! Literals of JSON in policy sources. A list of texts is read as the expression that spells it out,
wherever it stands before a mark or a line break. -/

namespace PolicyReview.Rego

/-- The expression that a quoted text stands for. -/
def Expr.ofText (text : String) : Expr := .literal (.string text)

def itemTokens : List String → List Placed
  | [] => []
  | [text] => [⟨.nothing, .quoted text⟩]
  | text :: rest => ⟨.nothing, .quoted text⟩ :: ⟨.nothing, .mark .comma⟩ :: itemTokens rest

def listTokens (texts : List String) : List Placed :=
  ⟨.nothing, .mark .openBracket⟩ :: itemTokens texts ++ [⟨.nothing, .mark .closeBracket⟩]

theorem length_le_listTokens (texts : List String) :
    texts.length + 1 ≤ (listTokens texts).length := by
  have items : texts.length ≤ (itemTokens texts).length := by
    fun_induction itemTokens texts <;> simp_all
    omega
  simp [listTokens]
  omega

theorem chunk_comma : Chunk .nothing [','] [⟨.nothing, .mark .comma⟩] .nothing :=
  .of_steps (Nat.le_refl 1) fun fuel _ => by cases fuel <;> rfl

theorem chunk_items (texts : List String) :
    Chunk .nothing (Json.itemChars (texts.map .string)) (itemTokens texts) .nothing := by
  induction texts with
  | nil => exact .nil
  | cons text rest ih =>
    cases rest with
    | nil => exact .quote .nothing text
    | cons second rest => exact (Chunk.quote .nothing text).append (chunk_comma.append ih)

/-- A token before which an expression ends, whatever expression it is. -/
inductive EndsBefore : Placed → Prop
  | comma (gap : Gap) : EndsBefore ⟨gap, .mark .comma⟩
  | colon (gap : Gap) : EndsBefore ⟨gap, .mark .colon⟩
  | closeBracket (gap : Gap) : EndsBefore ⟨gap, .mark .closeBracket⟩
  | closeBrace (gap : Gap) : EndsBefore ⟨gap, .mark .closeBrace⟩
  | closeParen (gap : Gap) : EndsBefore ⟨gap, .mark .closeParen⟩
  | line {word : String} (other : word ≠ "in") : EndsBefore ⟨.lineBreak, .word word⟩

variable {next : Placed} {fuel : Nat} {tokens rest : Tokens} {found : Expr}

theorem readPath_of_ends (ends : EndsBefore next) (base : Expr) :
    readPath (fuel + 1) base (next :: rest) = some (base, next :: rest) := by
  obtain ⟨gap, token⟩ := next
  cases gap <;> cases ends <;> rfl

theorem readExpr_of_term (ends : EndsBefore next)
    (read : readTerm fuel tokens = some (found, next :: rest)) :
    readExpr (fuel + 2) tokens = some (found, next :: rest) := by
  have compared : readCompared (fuel + 1) tokens = some (found, next :: rest) := by
    rw [readCompared, read]
    cases ends <;> rfl
  rw [readExpr, compared]
  cases ends with
  | line other =>
    simp [other]
  | _ => rfl

theorem readExpr_text (ends : EndsBefore next) (gap : Gap) (text : String) :
    readExpr (fuel + 3) (⟨gap, .quoted text⟩ :: next :: rest) =
      some (.ofText text, next :: rest) :=
  readExpr_of_term ends rfl

theorem readItems_texts (texts : List String) (enough : texts.length + 4 ≤ fuel) :
    readItems fuel .closeBracket
        (itemTokens texts ++ ⟨.nothing, .mark .closeBracket⟩ :: rest) =
      some (texts.map .ofText, rest) := by
  induction texts generalizing fuel with
  | nil =>
    obtain ⟨fuel, rfl⟩ := Nat.exists_eq_add_of_le' enough
    rfl
  | cons text later ih =>
    obtain ⟨fuel, rfl⟩ := Nat.exists_eq_add_of_le' enough
    cases later with
    | nil =>
      change readItems (fuel + 5) .closeBracket (⟨.nothing, .quoted text⟩ ::
        ⟨.nothing, .mark .closeBracket⟩ :: rest) = _
      rw [readItems, readExpr_text (.closeBracket .nothing)]
      rfl
    | cons second later =>
      change readItems (fuel + (later.length + 5) + 1) .closeBracket (⟨.nothing, .quoted text⟩ ::
        ⟨.nothing, .mark .comma⟩ :: (itemTokens (second :: later) ++ _)) = _
      rw [readItems, ← Nat.add_assoc, readExpr_text (.comma .nothing), if_neg (by simp)]
      change Option.map _ (readItems (fuel + later.length + 5) .closeBracket _) = _
      rw [ih (by simp)]
      rfl

theorem readExpr_list (ends : EndsBefore next) (texts : List String)
    (enough : texts.length + 7 ≤ fuel) :
    readExpr fuel (listTokens texts ++ next :: rest) =
      some (.array (texts.map .ofText), next :: rest) := by
  obtain ⟨fuel, rfl⟩ := Nat.exists_eq_add_of_le' enough
  change readExpr (fuel + texts.length + 5 + 2) _ = _
  refine readExpr_of_term ends ?_
  have items : readItems (fuel + texts.length + 4) .closeBracket
      (itemTokens texts ++ ([⟨.nothing, .mark .closeBracket⟩] ++ next :: rest)) =
        some (texts.map .ofText, next :: rest) := readItems_texts texts (by omega)
  change readTerm (fuel + texts.length + 4 + 1)
    (⟨.nothing, .mark .openBracket⟩ :: (itemTokens texts ++ [⟨.nothing, .mark .closeBracket⟩] ++
      next :: rest)) = _
  rw [readTerm, List.append_assoc, items]
  exact readPath_of_ends ends _

end PolicyReview.Rego
