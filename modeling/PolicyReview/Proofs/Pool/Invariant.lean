import PolicyReview.Proofs.Pool.Trail

/-! The invariant of the pool. Inbox, workers and channels hold no more than there is room for, jobs
belong to batches that exist, and the trail of every batch holds each of its indices once. -/

namespace PolicyReview.Pool.System

variable {Artifact : Type} {engine : Engine Artifact} {workers : Nat} {system next : System}
  {batches : List (List Json)} {batch position : Nat} {move : Move}

/-- No queue is longer than the pool has workers. -/
structure Capacity (workers : Nat) (system : System) : Prop where
  inbox_le : system.inbox.length ≤ workers
  running_le : system.running.length ≤ workers
  waiting_le : ∀ state ∈ system.batches, state.waiting.length ≤ workers

theorem Capacity.waiting_set (capacity : Capacity workers system) {state : BatchState}
    (fits : state.waiting.length ≤ workers) :
    ∀ other ∈ system.batches.set batch state, other.waiting.length ≤ workers := by
  intro other member
  obtain old | rfl := List.mem_or_eq_of_mem_set member
  · exact capacity.waiting_le other old
  · exact fits

theorem step_capacity (capacity : Capacity workers system)
    (step : system.step? engine workers move = some next) : Capacity workers next := by
  obtain ⟨inbox_le, running_le, waiting_le⟩ := id capacity
  cases move with
  | take batch =>
    obtain ⟨state, index, rest, here, _, _, rfl⟩ := take?_eq_some.1 step
    exact ⟨inbox_le, running_le,
      capacity.waiting_set (waiting_le state (List.mem_of_getElem? here))⟩
  | enqueue batch =>
    obtain ⟨state, index, here, _, room, rfl⟩ := enqueue?_eq_some.1 step
    refine ⟨?_, running_le, capacity.waiting_set (waiting_le state (List.mem_of_getElem? here))⟩
    simp only [List.length_append, List.length_singleton]
    omega
  | start =>
    obtain ⟨job, rest, queued, free, rfl⟩ := start?_eq_some.1 step
    rw [queued, List.length_cons] at inbox_le
    refine ⟨by simp only; omega, ?_, waiting_le⟩
    simp only [List.length_append, List.length_singleton]
    omega
  | look position =>
    obtain ⟨entry, state, _, _, rfl⟩ := look?_eq_some.1 step
    exact ⟨inbox_le, by simpa using running_le, waiting_le⟩
  | deliver position =>
    obtain ⟨entry, state, asset, _, here, _, room, rfl⟩ := deliver?_eq_some.1 step
    refine ⟨inbox_le, Nat.le_trans (List.length_eraseIdx_le _ _) running_le,
      capacity.waiting_set ?_⟩
    simp only [List.length_append, List.length_singleton]
    omega
  | collect batch =>
    obtain ⟨state, outcome, rest, here, waiting, rfl⟩ := collect?_eq_some.1 step
    have fits := waiting_le state (List.mem_of_getElem? here)
    rw [waiting, List.length_cons] at fits
    exact ⟨inbox_le, running_le, capacity.waiting_set (by simp only; omega)⟩
  | fire batch =>
    obtain ⟨state, here, rfl⟩ := fire?_eq_some.1 step
    exact ⟨inbox_le, running_le,
      capacity.waiting_set (waiting_le state (List.mem_of_getElem? here))⟩

theorem map_assets_set {states : List BatchState} {state changed : BatchState}
    (here : states[batch]? = some state) (same : changed.assets = state.assets) :
    (states.set batch changed).map (·.assets) = states.map (·.assets) := by
  apply List.ext_getElem?
  intro other
  simp only [List.getElem?_map, List.getElem?_set]
  grind

theorem step_assets (step : system.step? engine workers move = some next) :
    next.batches.map (·.assets) = system.batches.map (·.assets) := by
  cases move with
  | take batch =>
    obtain ⟨state, index, rest, here, _, _, rfl⟩ := take?_eq_some.1 step
    exact map_assets_set here rfl
  | enqueue batch =>
    obtain ⟨state, index, here, _, _, rfl⟩ := enqueue?_eq_some.1 step
    exact map_assets_set here rfl
  | start =>
    obtain ⟨job, rest, _, _, rfl⟩ := start?_eq_some.1 step
    rfl
  | look position =>
    obtain ⟨entry, state, _, _, rfl⟩ := look?_eq_some.1 step
    rfl
  | deliver position =>
    obtain ⟨entry, state, asset, _, here, _, _, rfl⟩ := deliver?_eq_some.1 step
    exact map_assets_set here rfl
  | collect batch =>
    obtain ⟨state, outcome, rest, here, _, rfl⟩ := collect?_eq_some.1 step
    exact map_assets_set here rfl
  | fire batch =>
    obtain ⟨state, here, rfl⟩ := fire?_eq_some.1 step
    exact map_assets_set here rfl

/-- A job is as old as the move, or new and of a batch that exists. -/
theorem step_jobs (step : system.step? engine workers move = some next) {job : Job}
    (member : job ∈ jobs next.running next.inbox) :
    job ∈ jobs system.running system.inbox ∨ job.batch < system.batches.length := by
  cases move with
  | take batch =>
    obtain ⟨state, index, rest, _, _, _, rfl⟩ := take?_eq_some.1 step
    exact .inl member
  | enqueue batch =>
    obtain ⟨state, index, here, _, _, rfl⟩ := enqueue?_eq_some.1 step
    have bound := (List.getElem?_eq_some_iff.1 here).1
    simp only [jobs, List.mem_append, List.mem_singleton] at member ⊢
    obtain running | queued | rfl := member
    · exact .inl (.inl running)
    · exact .inl (.inr queued)
    · exact .inr bound
  | start =>
    obtain ⟨first, rest, queued, _, rfl⟩ := start?_eq_some.1 step
    exact .inl (by simpa [jobs, queued] using member)
  | look position =>
    obtain ⟨entry, state, here, _, rfl⟩ := look?_eq_some.1 step
    rw [jobs_look here] at member
    exact .inl member
  | deliver position =>
    obtain ⟨entry, state, asset, here, _, _, _, rfl⟩ := deliver?_eq_some.1 step
    exact .inl ((jobs_deliver _ here).subset (List.mem_cons_of_mem _ member))
  | collect batch =>
    obtain ⟨state, outcome, rest, _, _, rfl⟩ := collect?_eq_some.1 step
    exact .inl member
  | fire batch =>
    obtain ⟨state, _, rfl⟩ := fire?_eq_some.1 step
    exact .inl member

structure Invariant (workers : Nat) (batches : List (List Json)) (system : System) : Prop where
  capacity : Capacity workers system
  assets_eq : system.batches.map (·.assets) = batches
  known : ∀ job ∈ jobs system.running system.inbox, job.batch < batches.length
  trail_perm : ∀ batch state, system.batches[batch]? = some state →
    (system.trail batch state).Perm (List.range state.assets.length)
  trail_eq : workers ≤ 1 → ∀ batch state, system.batches[batch]? = some state →
    system.trail batch state = List.range state.assets.length

theorem begin_invariant : Invariant workers batches (ofBatches batches) where
  capacity := ⟨by simp [ofBatches], by simp [ofBatches], by simp [ofBatches, BatchState.ofAssets]⟩
  assets_eq := by simp [ofBatches, Function.comp_def, BatchState.ofAssets]
  known := by simp [ofBatches, jobs]
  trail_perm batch state here := by
    obtain ⟨assets, _, rfl⟩ := by simpa [ofBatches] using here
    exact .refl _
  trail_eq _ batch state here := by
    obtain ⟨assets, _, rfl⟩ := by simpa [ofBatches] using here
    rfl

theorem Invariant.batches_length (valid : Invariant workers batches system) :
    system.batches.length = batches.length := by
  rw [← valid.assets_eq, List.length_map]

theorem step_invariant (valid : Invariant workers batches system)
    (step : system.step? engine workers move = some next) : Invariant workers batches next where
  capacity := step_capacity valid.capacity step
  assets_eq := (step_assets step).trans valid.assets_eq
  known job member := by
    obtain old | new := step_jobs step member
    · exact valid.known job old
    · rwa [valid.batches_length] at new
  trail_perm batch state there := by
    obtain ⟨before, here, assets, moved⟩ := step_keeps_perm step batch state there
    rw [assets]
    exact moved.trans (valid.trail_perm batch before here)
  trail_eq single batch state there := by
    have alone := Nat.le_trans valid.capacity.running_le single
    obtain ⟨before, here, assets, kept⟩ := step_keeps_order alone step batch state there
    rw [assets, kept]
    exact valid.trail_eq single batch before here

theorem Reachable.invariant {allowed : Move → Prop}
    (reachable : Reachable engine workers allowed batches system) :
    Invariant workers batches system := by
  induction reachable with
  | begin => exact begin_invariant
  | move _ _ step valid => exact step_invariant valid step

end PolicyReview.Pool.System
