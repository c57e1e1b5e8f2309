import PolicyReview.Proofs.Pool.Progress

/-! The outcomes of a batch. Each outcome that a worker delivers is that of a review of its own
asset, under what the token of its batch showed; while no token fires, none has shown to. -/

namespace PolicyReview.Pool

variable {Artifact : Type} {engine : Engine Artifact}

/-- Every outcome of a batch is that of a review of the asset at its index, under a token that
showed what `shows` allows. -/
def Reviewed (engine : Engine Artifact) (shows : Signal → Prop) (state : BatchState) : Prop :=
  ∀ outcome ∈ state.collected ++ state.waiting, ∃ asset signal,
    state.assets[outcome.index]? = some asset ∧ shows signal ∧
    outcome = (reviewOne engine signal outcome.index asset).outcome

namespace System

variable {workers : Nat} {system next : System} {batches : List (List Json)} {batch : Nat}
  {move : Move} {shows : Signal → Prop}

theorem reviewed_set (reviewed : ∀ state ∈ system.batches, Reviewed engine shows state)
    {changed : BatchState} (kept : Reviewed engine shows changed) :
    ∀ state ∈ system.batches.set batch changed, Reviewed engine shows state := by
  intro state member
  obtain old | rfl := List.mem_or_eq_of_mem_set member
  · exact reviewed state old
  · exact kept

theorem step_reviewed (step : system.step? engine workers move = some next)
    (shown : ∀ entry ∈ system.running, ∀ state ∈ system.batches,
      shows (signal entry.looks state.fired))
    (reviewed : ∀ state ∈ system.batches, Reviewed engine shows state) :
    ∀ state ∈ next.batches, Reviewed engine shows state := by
  cases move with
  | take batch =>
    obtain ⟨state, index, rest, here, _, _, rfl⟩ := take?_eq_some.1 step
    exact reviewed_set reviewed (reviewed state (List.mem_of_getElem? here))
  | enqueue batch =>
    obtain ⟨state, index, here, _, _, rfl⟩ := enqueue?_eq_some.1 step
    exact reviewed_set reviewed (reviewed state (List.mem_of_getElem? here))
  | start =>
    obtain ⟨job, rest, _, _, rfl⟩ := start?_eq_some.1 step
    exact reviewed
  | look position =>
    obtain ⟨entry, state, _, _, rfl⟩ := look?_eq_some.1 step
    exact reviewed
  | deliver position =>
    obtain ⟨entry, state, asset, running, here, asset_eq, _, rfl⟩ := deliver?_eq_some.1 step
    have member := List.mem_of_getElem? here
    refine reviewed_set reviewed fun outcome present => ?_
    rw [← List.append_assoc, List.mem_append, List.mem_singleton] at present
    obtain old | rfl := present
    · exact reviewed state member outcome old
    · refine ⟨asset, _, ?_, shown entry (List.mem_of_getElem? running) state member, ?_⟩
      · simpa using asset_eq
      · simp
  | collect batch =>
    obtain ⟨state, outcome, rest, here, waiting, rfl⟩ := collect?_eq_some.1 step
    have before := reviewed state (List.mem_of_getElem? here)
    refine reviewed_set reviewed fun other present => before other ?_
    simpa [waiting] using present
  | fire batch =>
    obtain ⟨state, here, rfl⟩ := fire?_eq_some.1 step
    exact reviewed_set reviewed (reviewed state (List.mem_of_getElem? here))

structure Unfired (system : System) : Prop where
  tokens : ∀ state ∈ system.batches, state.fired = false
  looks : ∀ entry ∈ system.running, ∀ look ∈ entry.looks, look = false

theorem Unfired.signal_eq (unfired : Unfired system) :
    ∀ entry ∈ system.running, ∀ state ∈ system.batches,
      signal entry.looks state.fired = Signal.quiet := by
  intro entry running state member
  funext look
  unfold signal Signal.quiet
  rw [unfired.tokens state member, List.getD_eq_getElem?_getD]
  cases seen : entry.looks[look]? with
  | none => rfl
  | some value => exact unfired.looks entry running value (List.mem_of_getElem? seen)

theorem Unfired.tokens_set (unfired : Unfired system) {changed : BatchState}
    (kept : changed.fired = false) :
    ∀ state ∈ system.batches.set batch changed, state.fired = false := by
  intro state member
  obtain old | rfl := List.mem_or_eq_of_mem_set member
  · exact unfired.tokens state old
  · exact kept

theorem step_unfired (unfired : Unfired system) (calm : ∀ batch, move ≠ .fire batch)
    (step : system.step? engine workers move = some next) : Unfired next := by
  have tokens := unfired.tokens
  cases move with
  | take batch =>
    obtain ⟨state, index, rest, here, _, _, rfl⟩ := take?_eq_some.1 step
    exact ⟨unfired.tokens_set (tokens state (List.mem_of_getElem? here)), unfired.looks⟩
  | enqueue batch =>
    obtain ⟨state, index, here, _, _, rfl⟩ := enqueue?_eq_some.1 step
    exact ⟨unfired.tokens_set (tokens state (List.mem_of_getElem? here)), unfired.looks⟩
  | start =>
    obtain ⟨job, rest, _, _, rfl⟩ := start?_eq_some.1 step
    refine ⟨tokens, fun entry member look seen => ?_⟩
    obtain old | rfl := by simpa using member
    · exact unfired.looks entry old look seen
    · cases seen
  | look position =>
    obtain ⟨entry, state, running, here, rfl⟩ := look?_eq_some.1 step
    refine ⟨tokens, fun other member look seen => ?_⟩
    obtain old | rfl := List.mem_or_eq_of_mem_set member
    · exact unfired.looks other old look seen
    · obtain old | rfl := by simpa using seen
      · exact unfired.looks entry (List.mem_of_getElem? running) look old
      · exact tokens state (List.mem_of_getElem? here)
  | deliver position =>
    obtain ⟨entry, state, asset, _, here, _, _, rfl⟩ := deliver?_eq_some.1 step
    exact ⟨unfired.tokens_set (tokens state (List.mem_of_getElem? here)),
      fun other member => unfired.looks other (List.mem_of_mem_eraseIdx member)⟩
  | collect batch =>
    obtain ⟨state, outcome, rest, here, _, rfl⟩ := collect?_eq_some.1 step
    exact ⟨unfired.tokens_set (tokens state (List.mem_of_getElem? here)), unfired.looks⟩
  | fire batch => exact absurd rfl (calm batch)

/-- Moves that fire no token. -/
def Calm (move : Move) : Prop := ∀ batch, move ≠ .fire batch

theorem begin_unfired (batches : List (List Json)) : Unfired (ofBatches batches) :=
  ⟨by simp [ofBatches, BatchState.ofAssets], by simp [ofBatches]⟩

theorem Reachable.unfired (reachable : Reachable engine workers Calm batches system) :
    Unfired system := by
  induction reachable with
  | begin => exact begin_unfired batches
  | move _ calm step unfired => exact step_unfired unfired calm step

theorem Reachable.reviewed (reachable : Reachable engine workers Calm batches system) :
    ∀ state ∈ system.batches, Reviewed engine (· = Signal.quiet) state := by
  induction reachable with
  | begin => simp [ofBatches, BatchState.ofAssets, Reviewed]
  | move before _ step reviewed => exact step_reviewed step before.unfired.signal_eq reviewed

end System

end PolicyReview.Pool
