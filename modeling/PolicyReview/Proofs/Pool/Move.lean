import PolicyReview.Pool.System
import Mathlib.Data.List.Perm.Basic

/-! What each move of the pool does. A move is possible exactly when the lemma's conditions hold,
and the system after it is the one that the lemma gives. -/

namespace PolicyReview.Pool.System

variable {Artifact : Type} {engine : Engine Artifact} {workers : Nat} {system next : System}
  {batch position : Nat}

theorem take?_eq_some :
    system.take? batch = some next ↔ ∃ state index rest,
      system.batches[batch]? = some state ∧ state.held = none ∧ state.unsent = index :: rest ∧
      system.setBatch batch { state with held := some index, unsent := rest } = next := by
  simp only [take?, Option.bind_eq_bind, Option.bind_eq_some_iff]
  constructor
  · rintro ⟨state, here, same⟩
    split at same
    next index rest held unsent =>
      exact ⟨state, index, rest, here, held, unsent, Option.some.inj same⟩
    next => cases same
  · rintro ⟨state, index, rest, here, held, unsent, same⟩
    exact ⟨state, here, by simp [held, unsent, same]⟩

theorem enqueue?_eq_some :
    system.enqueue? workers batch = some next ↔ ∃ state index,
      system.batches[batch]? = some state ∧ state.held = some index ∧
      system.inbox.length < workers ∧
      { system with
        batches := system.batches.set batch { state with held := none }
        inbox := system.inbox ++ [⟨batch, index⟩] } = next := by
  simp only [enqueue?, Option.bind_eq_bind, Option.bind_eq_some_iff,
    Option.ite_none_right_eq_some, setBatch, Option.some.injEq, Option.pure_def]
  grind

theorem start?_eq_some :
    system.start? workers = some next ↔ ∃ job rest,
      system.inbox = job :: rest ∧ system.running.length < workers ∧
      { system with inbox := rest, running := system.running ++ [{ job }] } = next := by
  unfold start?
  split
  next empty => simp [empty]
  next job rest waiting => simp [waiting]

theorem look?_eq_some :
    system.look? position = some next ↔ ∃ entry state,
      system.running[position]? = some entry ∧
      system.batches[entry.job.batch]? = some state ∧
      { system with running :=
          system.running.set position { entry with looks := entry.looks ++ [state.fired] } } =
        next := by
  simp only [look?, Option.bind_eq_bind, Option.bind_eq_some_iff, Option.some.injEq,
    Option.pure_def]
  grind

theorem deliver?_eq_some :
    system.deliver? engine workers position = some next ↔ ∃ entry state asset,
      system.running[position]? = some entry ∧
      system.batches[entry.job.batch]? = some state ∧
      state.assets[entry.job.index]? = some asset ∧ state.waiting.length < workers ∧
      { system with
        batches := system.batches.set entry.job.batch { state with waiting := state.waiting ++
          [(reviewOne engine (signal entry.looks state.fired) entry.job.index asset).outcome] }
        running := system.running.eraseIdx position } = next := by
  simp only [deliver?, Option.bind_eq_bind, Option.bind_eq_some_iff,
    Option.ite_none_right_eq_some, setBatch, Option.some.injEq, Option.pure_def]
  grind

theorem collect?_eq_some :
    system.collect? batch = some next ↔ ∃ state outcome rest,
      system.batches[batch]? = some state ∧ state.waiting = outcome :: rest ∧
      system.setBatch batch
        { state with waiting := rest, collected := state.collected ++ [outcome] } = next := by
  simp only [collect?, Option.bind_eq_bind, Option.bind_eq_some_iff]
  constructor
  · rintro ⟨state, here, same⟩
    split at same
    next outcome rest waiting =>
      exact ⟨state, outcome, rest, here, waiting, Option.some.inj same⟩
    next => cases same
  · rintro ⟨state, outcome, rest, here, waiting, same⟩
    exact ⟨state, here, by simp [waiting, same]⟩

theorem fire?_eq_some :
    system.fire? batch = some next ↔ ∃ state,
      system.batches[batch]? = some state ∧
      system.setBatch batch { state with fired := true } = next := by
  simp only [fire?, Option.bind_eq_bind, Option.bind_eq_some_iff, Option.some.injEq,
    Option.pure_def]

@[simp] theorem setBatch_inbox (state : BatchState) :
    (system.setBatch batch state).inbox = system.inbox := rfl

@[simp] theorem setBatch_running (state : BatchState) :
    (system.setBatch batch state).running = system.running := rfl

/-- A batch after a change to one of them is the changed one or as it was. -/
theorem getElem?_set_cases {batches : List BatchState} {state found : BatchState} {other : Nat}
    (here : (batches.set batch state)[other]? = some found) :
    (other = batch ∧ found = state) ∨ (other ≠ batch ∧ batches[other]? = some found) := by
  rw [List.getElem?_set] at here
  grind

end PolicyReview.Pool.System
