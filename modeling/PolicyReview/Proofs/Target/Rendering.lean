import PolicyReview.Proofs.Json.Field
import PolicyReview.Proofs.Json.ReadBack
import PolicyReview.Proofs.Target.BoundSet
import PolicyReview.Proofs.Text.Split
import PolicyReview.Record

/-! Lines of rendered preambles. The names that a preamble is rendered with stand on two lines, each
of which is the start of a definition and a JSON value that reads back as these names, and no other
line depends on them. -/

namespace PolicyReview.Target

open Json (IsPlain ReadsBack)

/-! Bound sets as JSON. -/

namespace BoundSet

def ofJson? (value : Json) : Option BoundSet :=
  value.object?.bind fun fields =>
    fields.mapM fun (kind, names) => (Record.strings? names).map (kind, ·)

theorem ofJson?_toJson (bound : BoundSet) : ofJson? bound.toJson = some bound := by
  have read (names : List String) : Record.strings? (Json.strings names) = some names :=
    Json.mapM_string?_eq_some.2 rfl
  rw [ofJson?, toJson, Json.object?, Option.bind_some]
  induction bound with
  | nil => rfl
  | cons entry rest ih => simp [List.mapM_cons, read, ih]

theorem readsBack_toJson {bound : BoundSet} (ascending : Ascending bound) (depth : Nat) :
    ReadsBack (depth + 2) bound.toJson := by
  refine Json.readsBack_object (List.pairwise_map.2 ascending) fun field member => ?_
  obtain ⟨entry, -, rfl⟩ := List.mem_map.1 member
  refine Json.readsBack_array fun item member => ?_
  obtain ⟨text, -, rfl⟩ := List.mem_map.1 member
  exact Json.readsBack_string depth text

end BoundSet

/-! Lines. -/

variable {target other : String} {bound bound' : BoundSet} {guard guard' : List String}

def lines (text : String) : List (List Char) := text.toList.splitOn '\n'

def closing (guard : List String) : String :=
  guardRule guard ++ "\n" ++ matchingNote ++ matchingRule

theorem getElem?_lines_closing (guard : List String) :
    (lines (closing guard))[0]? = some "valid_review if \x7b".toList := by
  have grouped (a b c d e f : String) :
      (a ++ b ++ c ++ d ++ e ++ f).toList = a.toList ++ (b ++ c ++ d ++ e ++ f).toList := by
    simp only [String.toList_append, List.append_assoc]
  have text : (closing guard).toList = "valid_review if \x7b\n".toList ++ _ :=
    grouped _ _ _ _ matchingNote matchingRule
  rw [lines, text]
  generalize String.toList (_ ++ matchingRule) = later
  have cut : "valid_review if \x7b\n".toList ++ later =
      "valid_review if \x7b".toList ++ '\n' :: later := rfl
  rw [cut, Text.splitOn_append_cons (by decide), List.getElem?_cons_zero]

theorem lines_renderPreamble (target : String) (bound : BoundSet) (guard : List String) :
    lines (renderPreamble target bound guard) =
      ["package target".toList, [], "import rego.v1".toList, [],
        "target_name := ".toList ++ Json.quote target, [],
        "bound_constraints := ".toList ++ bound.toJson.chars, []] ++ lines (closing guard) := by
  have text : (renderPreamble target bound guard).toList =
      "package target".toList ++ '\n' :: ([] ++ '\n' :: ("import rego.v1".toList ++ '\n' :: ([] ++
        '\n' :: (("target_name := ".toList ++ Json.quote target) ++ '\n' :: ([] ++
          '\n' :: (("bound_constraints := ".toList ++ bound.toJson.chars) ++ '\n' :: ([] ++
            '\n' :: (closing guard).toList))))))) := by
    have grouped (a b c d e f g h i : String) :
        a ++ b ++ c ++ d ++ e ++ f ++ d ++ g ++ "\n" ++ h ++ i =
          a ++ (b ++ (c ++ (d ++ (e ++ (f ++ (d ++ (g ++ "\n" ++ h ++ i))))))) := by
      simp only [String.append_assoc]
    have whole : renderPreamble target bound guard =
        "package target\n\nimport rego.v1\n\n" ++ ("target_name := " ++ (Json.quoted target ++
          ("\n\n" ++ ("bound_constraints := " ++ (bound.toJson.render ++
            ("\n\n" ++ closing guard)))))) :=
      grouped _ _ _ _ _ _ (guardRule guard) matchingNote matchingRule
    rw [whole]
    generalize closing guard = last
    have quoted : (Json.quoted target).toList = Json.quote target := String.toList_ofList
    have rendered : bound.toJson.render.toList = bound.toJson.chars := String.toList_ofList
    rw [String.toList_append, String.toList_append, String.toList_append, quoted,
      String.toList_append, String.toList_append, String.toList_append, rendered,
      String.toList_append]
    simp only [List.append_assoc]
    rfl
  have named : '\n' ∉ "target_name := ".toList ++ Json.quote target :=
    List.not_mem_append (by decide) (Json.isPlain_quote target).not_mem
  have listed : '\n' ∉ "bound_constraints := ".toList ++ bound.toJson.chars := by
    have plain := bound.isPlain_render
    rw [Json.render, String.toList_ofList] at plain
    exact List.not_mem_append (by decide) plain.not_mem
  rw [lines, text, Text.splitOn_append_cons (by decide), Text.splitOn_append_cons List.not_mem_nil,
    Text.splitOn_append_cons (by decide), Text.splitOn_append_cons List.not_mem_nil,
    Text.splitOn_append_cons named, Text.splitOn_append_cons List.not_mem_nil,
    Text.splitOn_append_cons listed, Text.splitOn_append_cons List.not_mem_nil]
  rfl

/-- Line `i` is the start and the text of a JSON value, in which there is no control character. -/
def DefinesAt (i : Nat) (start : String) (value : Json) (source : String) : Prop :=
  ∃ text : String, (lines source)[i]? = some (start ++ text).toList ∧ IsPlain text.toList ∧
    Json.read? text = some value

theorem DefinesAt.unique {i : Nat} {start source : String} {value value' : Json}
    (first : DefinesAt i start value source) (second : DefinesAt i start value' source) :
    value = value' := by
  obtain ⟨text, line, -, read⟩ := first
  obtain ⟨text', line', -, read'⟩ := second
  have same := Option.some.inj (line.symm.trans line')
  rw [String.toList_append, String.toList_append] at same
  rw [String.toList_injective (List.append_cancel_left same)] at read
  exact Option.some.inj (read.symm.trans read')

theorem definesAt_name (target : String) (bound : BoundSet) (guard : List String) :
    DefinesAt 4 "target_name := " (.string target) (renderPreamble target bound guard) := by
  refine ⟨Json.quoted target, ?_, ?_, ?_⟩
  · have quoted : (Json.quoted target).toList = Json.quote target := String.toList_ofList
    rw [lines_renderPreamble, String.toList_append, quoted]
    rfl
  · rw [Json.quoted, String.toList_ofList]
    exact Json.isPlain_quote target
  · exact (Json.readsBack_string Json.maxDepth target).read?_render

theorem definesAt_bound (target : String) (ascending : Ascending bound) (guard : List String) :
    DefinesAt 6 "bound_constraints := " bound.toJson (renderPreamble target bound guard) := by
  refine ⟨bound.toJson.render, ?_, bound.isPlain_render,
    (BoundSet.readsBack_toJson ascending _).read?_render⟩
  have rendered : bound.toJson.render.toList = bound.toJson.chars := String.toList_ofList
  rw [lines_renderPreamble, String.toList_append, rendered]
  rfl

/-- Whatever the names of a target and of the constraints bound to it, they are on two lines of the
preamble and can be read off these; all other lines are those of a preamble without them. -/
theorem renderPreamble_lossless (target : String) (bound : BoundSet) (guard : List String)
    (ascending : Ascending bound) :
    let source := renderPreamble target bound guard
    (∀ other, let plain := renderPreamble other [] guard
      (lines source).length = (lines plain).length ∧
        ∀ i, i ≠ 4 → i ≠ 6 → (lines source)[i]? = (lines plain)[i]?) ∧
    DefinesAt 4 "target_name := " (.string target) source ∧
    (∃ value, DefinesAt 6 "bound_constraints := " value source ∧
      BoundSet.ofJson? value = some bound) ∧
    ∀ other bound' guard', Ascending bound' → source = renderPreamble other bound' guard' →
      target = other ∧ bound = bound' := by
  have named := definesAt_name target bound guard
  have listed := definesAt_bound target ascending guard
  refine ⟨fun other => ⟨?_, fun i unnamed unlisted => ?_⟩, named,
    ⟨_, listed, bound.ofJson?_toJson⟩, fun other bound' guard' ascending' same => ?_⟩
  · rw [lines_renderPreamble, lines_renderPreamble, List.length_append, List.length_append]
    rfl
  · rw [lines_renderPreamble, lines_renderPreamble]
    match i with
    | 0 | 1 | 2 | 3 | 5 | 7 => rfl
    | 4 => exact absurd rfl unnamed
    | 6 => exact absurd rfl unlisted
    | i + 8 => rfl
  · rw [same] at named listed
    have names := named.unique (definesAt_name other bound' guard')
    have sets := congrArg BoundSet.ofJson? (listed.unique (definesAt_bound other ascending' guard'))
    rw [BoundSet.ofJson?_toJson, BoundSet.ofJson?_toJson] at sets
    exact ⟨Json.string.inj names, Option.some.inj sets⟩

def hostileBound : BoundSet :=
  [("Kind\\", ["a\x22]\x7d\n\nvalid_review := true\n", "\x00\r"]), ("Rest", [])]

theorem renderPreamble_lossless_hostile :
    let source := renderPreamble "t\x22\n# " hostileBound ["is_object(input.review)"]
    let plain := renderPreamble "t" [] ["is_object(input.review)"]
    Ascending hostileBound ∧ (lines source).length = (lines plain).length ∧
      (lines source)[8]? = some "valid_review if \x7b".toList ∧
      DefinesAt 4 "target_name := " (.string "t\x22\n# ") source ∧
      ∃ value, DefinesAt 6 "bound_constraints := " value source ∧
        BoundSet.ofJson? value = some hostileBound := by
  have ascending : Ascending hostileBound := by
    unfold Ascending
    decide +kernel
  obtain ⟨others, named, listed, -⟩ :=
    renderPreamble_lossless "t\x22\n# " hostileBound ["is_object(input.review)"] ascending
  obtain ⟨length, same⟩ := others "t"
  refine ⟨ascending, length, ?_, named, listed⟩
  rw [same 8 (by decide) (by decide), lines_renderPreamble, List.getElem?_append_right (by simp)]
  exact getElem?_lines_closing _

end PolicyReview.Target
