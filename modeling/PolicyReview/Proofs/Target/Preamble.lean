import PolicyReview.Proofs.Rego.ImportLine
import PolicyReview.Proofs.Target.BoundSet
import PolicyReview.Proofs.Target.Review

/-! Preambles among the sources of a unit. No line of a preamble gives a name to a path of data, so
that it is loaded as it was rendered. -/

namespace PolicyReview.Target

open Rego

theorem nameless_note : Nameless matchingNote.toList :=
  have first : Nameless
      "# matching_constraint only checks that the constraint is bound to this target.\n".toList :=
    .literal rfl (by decide +kernel)
  have second : Nameless
      "# Ancestry target/exclude globs are applied by the engine before evaluation,\n".toList :=
    .literal rfl (by decide +kernel)
  have third : Nameless
      "# so every review a template sees already matches its constraint.\n".toList :=
    .literal rfl (by decide +kernel)
  (first.join second).join third

theorem nameless_matching : Nameless matchingRule.toList :=
  have head : Nameless "matching_constraint(kind, name) if \x7b\n".toList :=
    .literal rfl (by decide +kernel)
  have each : Nameless "\tsome bound_name in bound_constraints[kind]\n".toList :=
    .literal rfl (by decide +kernel)
  have equal : Nameless "\tbound_name == name\n".toList := .literal rfl (by decide +kernel)
  have last : Nameless "\x7d\n".toList := .literal rfl (by decide +kernel)
  ((head.join each).join equal).join last

/-- No line of a preamble gives a name to a path of data. -/
theorem nameless_preamble (target : Target) (bound : BoundSet) :
    Nameless (target.preamble bound).toList := by
  have start : Nameless "package target\n\nimport rego.v1\n\n".toList :=
    .literal rfl (by decide +kernel)
  have name : Nameless ("target_name := " ++ Json.quoted target.name ++ "\n\n").toList := by
    have begins : ("target_name := " ++ Json.quoted target.name).toList.head? = some 't' := by
      rw [String.toList_append]
      rfl
    have quoted : (Json.quoted target.name).toList = Json.quote target.name := String.toList_ofList
    refine .line ?_ begins (by decide) (by decide)
    rw [String.toList_append, quoted]
    exact List.not_mem_append (by decide) (Json.isPlain_quote target.name).not_mem
  have listed : Nameless ("bound_constraints := " ++ bound.toJson.render ++ "\n\n").toList := by
    have begins : ("bound_constraints := " ++ bound.toJson.render).toList.head? = some 'b' := by
      rw [String.toList_append]
      rfl
    refine .line ?_ begins (by decide) (by decide)
    rw [String.toList_append]
    exact List.not_mem_append (by decide) bound.isPlain_render.not_mem
  have guard : Nameless (guardRule target.guards).toList := by
    cases target <;> exact .of_getLast? (by decide +kernel) (by decide +kernel)
  have empty : Nameless "\n".toList := .concat [] rfl
  have whole {a b c d e f g h : String} (first : Nameless a.toList)
      (second : Nameless (b ++ c ++ "\n\n").toList) (third : Nameless (d ++ e ++ "\n\n").toList)
      (fourth : Nameless f.toList) (fifth : Nameless g.toList) (sixth : Nameless h.toList) :
      Nameless (a ++ b ++ c ++ "\n\n" ++ d ++ e ++ "\n\n" ++ f ++ "\n" ++ g ++ h).toList := by
    have cut : a ++ b ++ c ++ "\n\n" ++ d ++ e ++ "\n\n" ++ f ++ "\n" ++ g ++ h =
        a ++ (b ++ c ++ "\n\n") ++ (d ++ e ++ "\n\n") ++ f ++ "\n" ++ g ++ h := by
      simp only [String.append_assoc]
    rw [cut]
    exact (((((first.join second).join third).join fourth).join empty).join fifth).join sixth
  exact whole start name listed guard nameless_note nameless_matching

theorem qualifyImports_preamble (target : Target) (bound : BoundSet) :
    qualifyImports (target.preamble bound) =
      renderPreamble target.name bound (target.tests.map Rego.Test.text) :=
  (nameless_preamble target bound).qualifyImports.trans (by rw [preamble, guards_eq])

end PolicyReview.Target
