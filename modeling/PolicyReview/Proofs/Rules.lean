import PolicyReview.Proofs.Fallible
import Mathlib.Logic.Basic

/-! Rules that are checked one after another. What keeps every rule is taken, and anything else is
refused for the first rule that it breaks. -/

namespace PolicyReview

variable {Rule α ε : Type} {holds : Rule → Prop} {error : Rule → ε} {check : Except ε α}
  {rule : Rule} {order : List Rule}

/-- The rule is broken, and all rules before it in the order hold. -/
inductive FirstBroken (holds : Rule → Prop) : List Rule → Rule → Prop where
  | here {rule : Rule} {rest : List Rule} (broken : ¬holds rule) :
    FirstBroken holds (rule :: rest) rule
  | later {first rule : Rule} {rest : List Rule} (kept : holds first)
    (found : FirstBroken holds rest rule) : FirstBroken holds (first :: rest) rule

theorem FirstBroken.earlier [DecidableEq Rule] (found : FirstBroken holds order rule) :
    ¬holds rule ∧ ∀ first ∈ order.takeWhile (· ≠ rule), holds first := by
  induction found with
  | here broken => simpa using broken
  | @later first rule rest kept _ ih =>
    refine ⟨ih.1, fun other member => ?_⟩
    rw [List.takeWhile_cons] at member
    split at member
    · rcases List.mem_cons.1 member with rfl | later
      · exact kept
      · exact ih.2 other later
    · cases member

theorem mapM_eq_error {β : Type} {fault : ε} {f : α → Except ε β} {items : List α} :
    items.mapM f = .error fault ↔ ∃ item,
      FirstBroken (fun item => ∃ result, f item = .ok result) items item ∧
        f item = .error fault := by
  induction items with
  | nil =>
    constructor
    · nofun
    · rintro ⟨_, ⟨⟩, _⟩
  | cons first rest ih =>
    rw [List.mapM_cons, bind_eq_error]
    constructor
    · rintro (failed | ⟨result, found, failed⟩)
      · refine ⟨first, .here ?_, failed⟩
        rintro ⟨result, found⟩
        rw [failed] at found
        cases found
      · obtain failed | ⟨_, _, ⟨⟩⟩ := bind_eq_error.1 failed
        obtain ⟨item, broken, failed⟩ := ih.1 failed
        exact ⟨item, .later ⟨result, found⟩ broken, failed⟩
    · rintro ⟨item, broken, failed⟩
      cases broken with
      | here => exact .inl failed
      | later found broken =>
        obtain ⟨result, found⟩ := found
        exact .inr ⟨result, found, bind_eq_error.2 (.inl (ih.2 ⟨item, broken, failed⟩))⟩

/-- The check takes what keeps every rule; otherwise its fault is the error of the first rule in
the order that is broken. -/
structure Enforces (check : Except ε α) (order : List Rule) (holds : Rule → Prop)
    (error : Rule → ε) : Prop where
  accepts : (∃ item, check = .ok item) ↔ ∀ rule ∈ order, holds rule
  refuses : ∀ fault, check = .error fault ↔
    ∃ rule, FirstBroken holds order rule ∧ error rule = fault

namespace Enforces

theorem done {item : α} (taken : check = .ok item) : Enforces check [] holds error where
  accepts := iff_of_true ⟨item, taken⟩ nofun
  refuses fault := by
    constructor
    · intro failed
      rw [taken] at failed
      cases failed
    · rintro ⟨_, found, _⟩
      cases found

theorem cons (refused : ¬holds rule → check = .error (error rule))
    (rest : holds rule → Enforces check order holds error) :
    Enforces check (rule :: order) holds error := by
  by_cases kept : holds rule
  · obtain ⟨accepts, refuses⟩ := rest kept
    constructor
    · rw [accepts, List.forall_mem_cons]
      exact (and_iff_right kept).symm
    · intro fault
      rw [refuses]
      constructor
      · rintro ⟨other, found, same⟩
        exact ⟨other, .later kept found, same⟩
      · rintro ⟨other, found, same⟩
        cases found with
        | here broken => exact absurd kept broken
        | later _ found => exact ⟨other, found, same⟩
  · have failed := refused kept
    constructor
    · constructor
      · rintro ⟨item, taken⟩
        rw [failed] at taken
        cases taken
      · intro all
        exact absurd (all rule List.mem_cons_self) kept
    · intro fault
      rw [failed, Except.error.injEq]
      constructor
      · intro same
        exact ⟨rule, .here kept, same⟩
      · rintro ⟨other, found, same⟩
        cases found with
        | here => exact same
        | later also => exact absurd also kept

end Enforces

end PolicyReview
