import PolicyReview.Rego.Token
import PolicyReview.Proofs.Json.Quoted

/-! Chunks of sources. A chunk ends where no token is cut, so that its tokens are the same whatever
follows it, and a source that is put together from chunks has the tokens of all of them. What stands
at the end of a chunk after its last token is the gap before the next one. -/

namespace PolicyReview.Rego

variable {first second : List Char} {placed later : List Placed} {gap gap' gap'' : Gap}

def Token.listAfter (gap : Gap) : Nat → List Char → Option (List Placed)
  | 0, _ => none
  | fuel + 1, cs =>
    match skipGap gap false cs with
    | (_, []) => some []
    | (gap, rest) =>
      match next? rest with
      | some (token, rest) => (listFrom fuel rest).map (⟨gap, token⟩ :: ·)
      | none => none

theorem Token.listFrom_eq (fuel : Nat) (cs : List Char) :
    listFrom fuel cs = listAfter .nothing fuel cs := by
  cases fuel <;> rfl

/-- After a gap a text has these tokens and leaves another gap, whatever follows. -/
def Chunk (gap : Gap) (text : List Char) (placed : List Placed) (gap' : Gap) : Prop :=
  ∃ steps ≤ text.length, ∀ fuel rest, Token.listAfter gap (fuel + steps) (text ++ rest) =
    (Token.listAfter gap' fuel rest).map (placed ++ ·)

namespace Chunk

theorem nil : Chunk gap [] [] gap :=
  ⟨0, Nat.le_refl 0, fun _ _ => Option.map_id'.symm⟩

theorem append (one : Chunk gap first placed gap') (two : Chunk gap' second later gap'') :
    Chunk gap (first ++ second) (placed ++ later) gap'' := by
  obtain ⟨steps, few, found⟩ := one
  obtain ⟨steps', few', found'⟩ := two
  refine ⟨steps' + steps, by rw [List.length_append]; omega, fun fuel rest => ?_⟩
  rw [← Nat.add_assoc, List.append_assoc, found, found', Option.map_map]
  exact Option.map_congr fun tokens _ => (List.append_assoc placed later tokens).symm

theorem join {one two : String} (before : Chunk gap one.toList placed gap')
    (after : Chunk gap' two.toList later gap'') :
    Chunk gap (one ++ two).toList (placed ++ later) gap'' := by
  rw [String.toList_append]
  exact before.append after

/-- A text that is read token by token whatever follows it. -/
theorem of_steps (few : placed.length ≤ first.length)
    (found : ∀ fuel rest, Token.listAfter gap (fuel + placed.length) (first ++ rest) =
      placed.foldr (fun token tokens => tokens.map (token :: ·))
        (Token.listAfter gap' fuel rest)) :
    Chunk gap first placed gap' := by
  have joined : ∀ tokens : Option (List Placed),
      placed.foldr (fun token tokens => tokens.map (token :: ·)) tokens =
        tokens.map (placed ++ ·) := by
    intro tokens
    clear found few
    induction placed with
    | nil => exact Option.map_id'.symm
    | cons token placed ih => rw [List.foldr_cons, ih, Option.map_map]; rfl
  exact ⟨placed.length, few, fun fuel rest => (found fuel rest).trans (joined _)⟩

theorem quote (gap : Gap) (text : String) :
    Chunk gap (Json.quote text) [⟨gap, .quoted text⟩] .nothing := by
  refine ⟨1, by simp [Json.quote], fun fuel rest => ?_⟩
  have whole : Json.quote text ++ rest =
      '\x22' :: (text.toList.flatMap Json.escape ++ '\x22' :: rest) := by
    simp [Json.quote]
  have enough := Json.length_le_escape text.toList
  have begins : Token.next? ('\x22' :: (text.toList.flatMap Json.escape ++ '\x22' :: rest)) =
      some (.quoted text, rest) := by
    change Option.map _ (Json.readString? _ _ _) = _
    rw [Json.readString?_text (by rw [List.length_append]; omega)]
    simp
  have mark : ∀ cs, Token.skipGap gap false ('\x22' :: cs) = (gap, '\x22' :: cs) := fun _ => rfl
  rw [whole, Token.listAfter, mark]
  dsimp only
  rw [begins, ← Token.listFrom_eq]
  rfl

theorem quoted (gap : Gap) (text : String) :
    Chunk gap (Json.quoted text).toList [⟨gap, .quoted text⟩] .nothing := by
  rw [Json.quoted, String.toList_ofList]
  exact quote gap text

theorem list? {source : String} (chunk : Chunk .nothing source.toList placed gap) :
    Token.list? source.toList = some placed := by
  obtain ⟨steps, few, found⟩ := chunk
  have fuel : source.toList.length + 1 = source.toList.length - steps + 1 + steps := by omega
  have whole := found (source.toList.length - steps + 1) []
  rw [List.append_nil, ← fuel, ← Token.listFrom_eq] at whole
  exact whole.trans (congrArg some (List.append_nil placed))

end Chunk

end PolicyReview.Rego
