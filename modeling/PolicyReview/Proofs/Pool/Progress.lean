import PolicyReview.Proofs.Pool.Invariant
import Mathlib.Algebra.Ring.Nat

/-! Progress of the pool. The work that is left is counted in moves; every move that advances a job
takes one from it, and as long as a batch is unfinished some such move is possible. So every
run ends with all batches finished, after five moves for each asset. -/

namespace PolicyReview.Pool

namespace BatchState

/-- The moves still needed for the indices that have no job in the inbox or with a worker. -/
def work (state : BatchState) : Nat :=
  5 * state.unsent.length + 4 * state.held.toList.length + state.waiting.length

end BatchState

namespace System

variable {Artifact : Type} {engine : Engine Artifact} {workers : Nat} {system next final : System}
  {batches : List (List Json)} {batch position : Nat} {move : Move} {moves : List Move}

/-- The system after a list of moves, if each of them is possible when its turn comes. -/
def run? (engine : Engine Artifact) (workers : Nat) (system : System) :
    List Move → Option System
  | [] => some system
  | move :: rest => (system.step? engine workers move).bind fun next =>
      next.run? engine workers rest

theorem run?_cons_eq_some {rest : List Move} :
    system.run? engine workers (move :: rest) = some final ↔ ∃ next,
      system.step? engine workers move = some next ∧
      next.run? engine workers rest = some final := by
  simp only [run?, Option.bind_eq_some_iff]

theorem Reachable.run? {allowed : Move → Prop}
    (reachable : Reachable engine workers allowed batches system)
    (allow : ∀ move ∈ moves, allowed move)
    (run : system.run? engine workers moves = some final) :
    Reachable engine workers allowed batches final := by
  induction moves generalizing system with
  | nil => exact Option.some.inj run ▸ reachable
  | cons move rest ih =>
    obtain ⟨next, step, later⟩ := run?_cons_eq_some.1 run
    exact ih (reachable.move (allow move (by simp)) step)
      (fun other member => allow other (by simp [member])) later

def work (system : System) : Nat :=
  (system.batches.map BatchState.work).sum + 3 * system.inbox.length + 2 * system.running.length

theorem sum_work_set {states : List BatchState} {state : BatchState} (changed : BatchState)
    (here : states[batch]? = some state) :
    ((states.set batch changed).map BatchState.work).sum + state.work =
      (states.map BatchState.work).sum + changed.work := by
  induction states generalizing batch with
  | nil => cases here
  | cons first rest ih =>
    cases batch with
    | zero =>
      obtain rfl : first = state := by simpa using here
      simp only [List.set_cons_zero, List.map_cons, List.sum_cons]
      omega
    | succ batch =>
      have later := ih (show rest[batch]? = some state by simpa using here)
      simp only [List.set_cons_succ, List.map_cons, List.sum_cons]
      omega

theorem step_work (step : system.step? engine workers move = some next) :
    next.work + (if move.advances then 1 else 0) = system.work := by
  cases move with
  | take batch =>
    obtain ⟨state, index, rest, here, held, unsent, rfl⟩ := take?_eq_some.1 step
    have sum := sum_work_set { state with held := some index, unsent := rest } here
    simp only [BatchState.work, held, unsent, Option.toList, List.length_cons,
      List.length_nil] at sum
    simp only [work, setBatch, Move.advances, if_true]
    omega
  | enqueue batch =>
    obtain ⟨state, index, here, held, _, rfl⟩ := enqueue?_eq_some.1 step
    have sum := sum_work_set { state with held := none } here
    simp only [BatchState.work, held, Option.toList, List.length_cons, List.length_nil] at sum
    simp only [work, Move.advances, if_true, List.length_append, List.length_singleton]
    omega
  | start =>
    obtain ⟨job, rest, queued, _, rfl⟩ := start?_eq_some.1 step
    simp only [work, queued, Move.advances, if_true, List.length_append, List.length_cons,
      List.length_nil]
    omega
  | look position =>
    obtain ⟨entry, state, _, _, rfl⟩ := look?_eq_some.1 step
    simp [work, Move.advances]
  | deliver position =>
    obtain ⟨entry, state, asset, running, here, _, _, rfl⟩ := deliver?_eq_some.1 step
    have bound := (List.getElem?_eq_some_iff.1 running).1
    have sum := sum_work_set { state with waiting := state.waiting ++
      [(reviewOne engine (signal entry.looks state.fired) entry.job.index asset).outcome] } here
    simp only [BatchState.work, List.length_append, List.length_singleton] at sum
    simp only [work, Move.advances, if_true, List.length_eraseIdx_of_lt bound]
    omega
  | collect batch =>
    obtain ⟨state, outcome, rest, here, waiting, rfl⟩ := collect?_eq_some.1 step
    have sum := sum_work_set { state with
      waiting := rest, collected := state.collected ++ [outcome] } here
    simp only [BatchState.work, waiting, List.length_cons] at sum
    simp only [work, setBatch, Move.advances, if_true]
    omega
  | fire batch =>
    obtain ⟨state, here, rfl⟩ := fire?_eq_some.1 step
    have sum := sum_work_set { state with fired := true } here
    simp only [BatchState.work] at sum
    simp only [work, setBatch, Move.advances, Bool.false_eq_true, if_false]
    omega

theorem run_work (run : system.run? engine workers moves = some final) :
    final.work + moves.countP Move.advances = system.work := by
  induction moves generalizing system with
  | nil => exact Option.some.inj run ▸ rfl
  | cons move rest ih =>
    obtain ⟨next, step, later⟩ := run?_cons_eq_some.1 run
    have first := step_work step
    have others := ih later
    rw [List.countP_cons]
    omega

theorem begin_work (batches : List (List Json)) :
    (ofBatches batches).work = 5 * (batches.map List.length).sum := by
  have each : BatchState.work ∘ BatchState.ofAssets = fun assets => 5 * assets.length := by
    funext assets
    simp [BatchState.work, BatchState.ofAssets]
  simp only [work, ofBatches, List.map_map, each, List.length_nil]
  induction batches with
  | nil => rfl
  | cons first rest ih =>
    simp only [List.map_cons, List.sum_cons]
    omega

theorem Invariant.trail_of_finished (valid : Invariant workers batches system)
    {state : BatchState} (here : system.batches[batch]? = some state)
    (finished : state.isFinished = true) :
    system.trail batch state = state.collected.map (·.index) := by
  have count := (valid.trail_perm batch state here).length_eq
  have all : state.collected.length = state.assets.length := by
    simpa [BatchState.isFinished] using finished
  simp only [trail, BatchState.settledIndices, List.map_append, List.append_assoc,
    List.length_append, List.length_map, List.length_range] at count ⊢
  rw [List.length_eq_zero_iff.1 (by omega : state.unqueuedIndices.length = 0),
    List.length_eq_zero_iff.1 (by omega : state.waiting.length = 0),
    List.length_eq_zero_iff.1 (by
      omega : (indicesOf batch (jobs system.running system.inbox)).length = 0)]
  simp

theorem Invariant.asset_of_job (valid : Invariant workers batches system) {job : Job}
    (member : job ∈ jobs system.running system.inbox) :
    ∃ state asset, system.batches[job.batch]? = some state ∧
      state.assets[job.index]? = some asset := by
  have known := valid.batches_length ▸ valid.known job member
  have here := List.getElem?_eq_getElem known
  have inTrail : job.index ∈ system.trail job.batch system.batches[job.batch] := by
    simp only [trail, indicesOf, List.mem_append, List.mem_map, List.mem_filter]
    exact .inl (.inr ⟨job, ⟨member, by simp⟩, rfl⟩)
  have bound := List.mem_range.1 ((valid.trail_perm _ _ here).subset inTrail)
  exact ⟨_, _, here, List.getElem?_eq_getElem bound⟩

theorem exists_advancing_move (staffed : 0 < workers) (valid : Invariant workers batches system)
    (unfinished : ∃ state ∈ system.batches, state.isFinished = false) :
    ∃ move next, move.advances = true ∧ system.step? engine workers move = some next := by
  by_cases collecting : ∃ state ∈ system.batches, state.waiting ≠ []
  · obtain ⟨state, member, waiting⟩ := collecting
    obtain ⟨batch, here⟩ := List.getElem?_of_mem member
    obtain ⟨outcome, rest, waiting⟩ := List.exists_cons_of_ne_nil waiting
    exact ⟨.collect batch, _, rfl,
      collect?_eq_some.2 ⟨state, outcome, rest, here, waiting, rfl⟩⟩
  have room : ∀ state ∈ system.batches, state.waiting = [] := by
    intro state member
    by_contra waiting
    exact collecting ⟨state, member, waiting⟩
  cases running : system.running with
  | cons entry rest =>
    have inside : entry.job ∈ jobs system.running system.inbox := by simp [jobs, running]
    obtain ⟨state, asset, here, asset_eq⟩ := valid.asset_of_job inside
    have empty := room state (List.mem_of_getElem? here)
    exact ⟨.deliver 0, _, rfl, deliver?_eq_some.2
      ⟨entry, state, asset, by simp [running], here, asset_eq, by simpa [empty], rfl⟩⟩
  | nil =>
    cases queued : system.inbox with
    | cons job rest =>
      exact ⟨.start, _, rfl, start?_eq_some.2 ⟨job, rest, queued, by simpa [running], rfl⟩⟩
    | nil =>
      obtain ⟨state, member, unfinished⟩ := unfinished
      obtain ⟨batch, here⟩ := List.getElem?_of_mem member
      cases held : state.held with
      | some index =>
        exact ⟨.enqueue batch, _, rfl,
          enqueue?_eq_some.2 ⟨state, index, here, held, by simpa [queued], rfl⟩⟩
      | none =>
        cases unsent : state.unsent with
        | cons index rest =>
          exact ⟨.take batch, _, rfl,
            take?_eq_some.2 ⟨state, index, rest, here, held, unsent, rfl⟩⟩
        | nil =>
          have count := (valid.trail_perm batch state here).length_eq
          simp [trail, BatchState.settledIndices, BatchState.unqueuedIndices, indicesOf, jobs,
            running, queued, held, unsent, room state member] at count
          simp [BatchState.isFinished, count] at unfinished

end System

end PolicyReview.Pool
