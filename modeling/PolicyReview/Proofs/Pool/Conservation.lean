import PolicyReview.Proofs.Pool.Progress

/-! Conservation of jobs. At every moment each asset of a batch is in exactly one place on its way
from the producer to the caller, the places on the way hold no more than there are workers, and
some job can be brought further until all batches are finished. -/

namespace PolicyReview.Pool.System

variable {Artifact : Type} {engine : Engine Artifact} {workers : Nat} {system : System}
  {batches : List (List Json)} {batch : Nat} {moves : List Move} {allowed : Move → Prop}

theorem length_indicesOf_jobs (system : System) (batch : Nat) :
    (indicesOf batch (jobs system.running system.inbox)).length =
      system.runningCount batch + system.queuedCount batch := by
  simp [indicesOf, jobs, runningCount, queuedCount, List.filter_map, Function.comp_def]

theorem Invariant.places (valid : Invariant workers batches system) {state : BatchState}
    (here : system.batches[batch]? = some state) :
    state.unsent.length + state.held.toList.length + system.queuedCount batch +
      system.runningCount batch + state.waiting.length + state.collected.length =
        state.assets.length := by
  have count := (valid.trail_perm batch state here).length_eq
  simp only [trail, BatchState.settledIndices, BatchState.unqueuedIndices, List.length_append,
    List.length_map, List.length_range, length_indicesOf_jobs] at count
  omega

theorem Invariant.batch_of_request (valid : Invariant workers batches system)
    {assets : List Json} (asked : batches[batch]? = some assets) :
    ∃ state, system.batches[batch]? = some state ∧ state.assets = assets := by
  rw [← valid.assets_eq, List.getElem?_map, Option.map_eq_some_iff] at asked
  exact asked

theorem run_advances_le (run : (ofBatches batches).run? engine workers moves = some system) :
    moves.countP Move.advances ≤ 5 * (batches.map List.length).sum := by
  have total := run_work run
  rw [begin_work] at total
  omega

theorem finished_or_advances (staffed : 0 < workers)
    (reachable : Reachable engine workers allowed batches system) :
    (∀ state ∈ system.batches, state.isFinished = true) ∨
      ∃ move next, move.advances = true ∧ system.step? engine workers move = some next := by
  by_cases unfinished : ∃ state ∈ system.batches, state.isFinished = false
  · exact .inr (exists_advancing_move staffed reachable.invariant unfinished)
  · left
    intro state member
    by_contra open_
    exact unfinished ⟨state, member, by simpa using open_⟩

/-- However the moves of producers, workers and callers interleave, no queue grows beyond the number
of workers, every asset of a batch has its place, and a batch whose outcomes are not all
collected leaves some of these moves possible. -/
theorem reachable_bounded_live (staffed : 0 < workers)
    (reachable : Reachable engine workers allowed batches system) :
    (system.inbox.length ≤ workers ∧ system.running.length ≤ workers ∧
      ∀ state ∈ system.batches, state.waiting.length ≤ workers) ∧
    (∀ (batch : Nat) (assets : List Json), batches[batch]? = some assets →
      ∃ state, system.batches[batch]? = some state ∧
        state.unsent.length + state.held.toList.length + system.queuedCount batch +
          system.runningCount batch + state.waiting.length + state.collected.length =
            assets.length) ∧
    ((∃ (batch : Nat) (assets : List Json) (state : BatchState), batches[batch]? = some assets ∧
        system.batches[batch]? = some state ∧ state.collected.length ≠ assets.length) →
      ∃ move next, move.advances = true ∧ system.step? engine workers move = some next) := by
  have valid := reachable.invariant
  refine ⟨⟨valid.capacity.inbox_le, valid.capacity.running_le, valid.capacity.waiting_le⟩, ?_, ?_⟩
  · intro batch assets asked
    obtain ⟨state, here, rfl⟩ := valid.batch_of_request asked
    exact ⟨state, here, valid.places here⟩
  · rintro ⟨batch, assets, state, asked, here, open_⟩
    obtain ⟨_, same, rfl⟩ := valid.batch_of_request asked
    obtain rfl := Option.some.inj (here.symm.trans same)
    exact exists_advancing_move staffed valid
      ⟨state, List.mem_of_getElem? here, by simpa [BatchState.isFinished] using open_⟩

theorem reachable_bounded_live_blocked :
    let engine : Engine Unit :=
      { runtime := { compile := fun _ => .ok (), evaluate := fun _ _ => { answer := .results [] } }
        table := ⟨[]⟩
        artifacts := ⟨[]⟩ }
    ∃ system, 0 < 1 ∧
      Reachable engine 1 (fun _ => True) [[.null, .null, .null], [.null]] system ∧
      (system.queuedCount 0, system.runningCount 0) = (1, 1) ∧
      system.batches.map (·.waiting.length) = [1, 0] ∧
      (∀ move ∈ [Move.enqueue 1, .start, .deliver 0], system.step? engine 1 move = none) ∧
      ∃ move next, move.advances = true ∧ system.step? engine 1 move = some next := by
  intro engine
  let moves : List Move := [.take 0, .enqueue 0, .start, .take 0, .enqueue 0, .deliver 0, .start,
    .take 0, .enqueue 0, .take 1]
  have run : (ofBatches [[.null, .null, .null], [.null]]).run? engine 1 moves = some _ := rfl
  have reachable := Reachable.begin.run? (fun _ _ => trivial) run
  refine ⟨_, by decide, reachable, rfl, rfl, ?_, ?_⟩
  · intro move member
    obtain rfl | rfl | rfl := by simpa using member
    all_goals rfl
  · exact (reachable_bounded_live (by decide : 0 < 1) reachable).2.2
      ⟨0, _, _, rfl, rfl, by decide⟩

end PolicyReview.Pool.System
