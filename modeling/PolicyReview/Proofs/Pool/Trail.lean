import PolicyReview.Proofs.Pool.Move

/-! The trail of a batch: the indices of its assets, those that have outcomes first, then those of
running and of queued jobs, then those that are still with the producer. A move passes an index
on along the trail; none is lost or repeated, and a single worker keeps them in order. -/

namespace PolicyReview.Pool

namespace BatchState

/-- The indices that have outcomes, in the order of their delivery. -/
def settledIndices (state : BatchState) : List Nat :=
  (state.collected ++ state.waiting).map (·.index)

def unqueuedIndices (state : BatchState) : List Nat := state.held.toList ++ state.unsent

end BatchState

@[simp] theorem reviewOne_index {Artifact : Type} (engine : Engine Artifact) (signal : Signal)
    (index : Nat) (asset : Json) : (reviewOne engine signal index asset).outcome.index = index := by
  unfold reviewOne
  split <;> rfl

namespace System

variable {Artifact : Type} {engine : Engine Artifact} {workers : Nat} {system next : System}
  {batch position : Nat}

def jobs (running : List RunningJob) (inbox : List Job) : List Job := running.map (·.job) ++ inbox

def indicesOf (batch : Nat) (jobs : List Job) : List Nat :=
  (jobs.filter (·.batch = batch)).map (·.index)

def trail (system : System) (batch : Nat) (state : BatchState) : List Nat :=
  state.settledIndices ++ indicesOf batch (jobs system.running system.inbox) ++
    state.unqueuedIndices

theorem indicesOf_perm (batch : Nat) {first second : List Job} (same : first.Perm second) :
    (indicesOf batch first).Perm (indicesOf batch second) :=
  (same.filter _).map _

theorem indicesOf_cons_self (job : Job) (rest : List Job) :
    indicesOf job.batch (job :: rest) = job.index :: indicesOf job.batch rest := by
  simp [indicesOf]

theorem indicesOf_cons_other {job : Job} (apart : batch ≠ job.batch) (rest : List Job) :
    indicesOf batch (job :: rest) = indicesOf batch rest := by
  simp [indicesOf, Ne.symm apart]

section Jobs

variable {running : List RunningJob} {inbox : List Job} {entry : RunningJob}

theorem jobs_look (here : running[position]? = some entry) (looks : List Bool) :
    jobs (running.set position { entry with looks }) inbox = jobs running inbox := by
  have kept : (running.set position { entry with looks }).map (·.job) = running.map (·.job) := by
    apply List.ext_getElem?
    intro other
    simp only [List.getElem?_map, List.getElem?_set]
    grind
  rw [jobs, kept, jobs]

theorem jobs_deliver (inbox : List Job) (here : running[position]? = some entry) :
    (entry.job :: jobs (running.eraseIdx position) inbox).Perm (jobs running inbox) := by
  obtain ⟨bound, rfl⟩ := List.getElem?_eq_some_iff.1 here
  have moved := (List.getElem_cons_eraseIdx_perm bound).map (·.job)
  exact moved.append_right inbox

theorem jobs_deliver_single (single : running.length ≤ 1)
    (here : running[position]? = some entry) :
    entry.job :: jobs (running.eraseIdx position) inbox = jobs running inbox := by
  obtain ⟨bound, rfl⟩ := List.getElem?_eq_some_iff.1 here
  obtain ⟨only, rfl⟩ := List.length_eq_one_iff.1 (by omega : running.length = 1)
  obtain rfl : position = 0 := by simpa using bound
  rfl

end Jobs

/-- Every trail after a move is related to the trail of the same batch before it. -/
def Keeps (relation : List Nat → List Nat → Prop) (system next : System) : Prop :=
  ∀ batch state, next.batches[batch]? = some state →
    ∃ before, system.batches[batch]? = some before ∧ state.assets = before.assets ∧
      relation (next.trail batch state) (system.trail batch before)

theorem Keeps.mono {first second : List Nat → List Nat → Prop}
    (weaker : ∀ new old, first new old → second new old) (keeps : Keeps first system next) :
    Keeps second system next := by
  intro batch state found
  obtain ⟨before, here, assets, related⟩ := keeps batch state found
  exact ⟨before, here, assets, weaker _ _ related⟩

theorem take_keeps (step : system.take? batch = some next) : Keeps Eq system next := by
  obtain ⟨state, index, rest, here, held, unsent, rfl⟩ := take?_eq_some.1 step
  intro other found there
  obtain ⟨rfl, rfl⟩ | ⟨_, there⟩ := getElem?_set_cases there
  · refine ⟨state, here, rfl, ?_⟩
    simp [trail, BatchState.settledIndices, BatchState.unqueuedIndices, held, unsent]
  · exact ⟨found, there, rfl, rfl⟩

theorem enqueue_keeps (step : system.enqueue? workers batch = some next) :
    Keeps Eq system next := by
  obtain ⟨state, index, here, held, _, rfl⟩ := enqueue?_eq_some.1 step
  intro other found there
  obtain ⟨rfl, rfl⟩ | ⟨apart, there⟩ := getElem?_set_cases there
  · refine ⟨state, here, rfl, ?_⟩
    simp [trail, BatchState.settledIndices, BatchState.unqueuedIndices, jobs, held, indicesOf]
  · refine ⟨found, there, rfl, ?_⟩
    simp [trail, jobs, indicesOf, Ne.symm apart]

theorem start_keeps (step : system.start? workers = some next) : Keeps Eq system next := by
  obtain ⟨job, rest, waiting, _, rfl⟩ := start?_eq_some.1 step
  intro other found there
  refine ⟨found, there, rfl, ?_⟩
  simp [trail, jobs, waiting]

theorem look_keeps (step : system.look? position = some next) : Keeps Eq system next := by
  obtain ⟨entry, state, running, _, rfl⟩ := look?_eq_some.1 step
  intro other found there
  refine ⟨found, there, rfl, ?_⟩
  simp only [trail, jobs_look running]

theorem collect_keeps (step : system.collect? batch = some next) : Keeps Eq system next := by
  obtain ⟨state, outcome, rest, here, waiting, rfl⟩ := collect?_eq_some.1 step
  intro other found there
  obtain ⟨rfl, rfl⟩ | ⟨_, there⟩ := getElem?_set_cases there
  · refine ⟨state, here, rfl, ?_⟩
    simp [trail, BatchState.settledIndices, BatchState.unqueuedIndices, waiting]
  · exact ⟨found, there, rfl, rfl⟩

theorem fire_keeps (step : system.fire? batch = some next) : Keeps Eq system next := by
  obtain ⟨state, here, rfl⟩ := fire?_eq_some.1 step
  intro other found there
  obtain ⟨rfl, rfl⟩ | ⟨_, there⟩ := getElem?_set_cases there
  · exact ⟨state, here, rfl, rfl⟩
  · exact ⟨found, there, rfl, rfl⟩

/-- A delivery moves its job's index to the end of the outcomes, from wherever it stood among the
jobs. `related` says in what way that job and the jobs left over are the jobs before it. -/
theorem deliver_keeps {relation : List Nat → List Nat → Prop}
    (step : system.deliver? engine workers position = some next)
    (related : ∀ entry, system.running[position]? = some entry → ∀ batch before after,
      relation
        (before ++ indicesOf batch
          (entry.job :: jobs (system.running.eraseIdx position) system.inbox) ++ after)
        (before ++ indicesOf batch (jobs system.running system.inbox) ++ after)) :
    Keeps relation system next := by
  obtain ⟨entry, state, asset, running, here, _, _, rfl⟩ := deliver?_eq_some.1 step
  intro other found there
  obtain ⟨rfl, rfl⟩ | ⟨apart, there⟩ := getElem?_set_cases there
  · refine ⟨state, here, rfl, ?_⟩
    have moved := related entry running entry.job.batch state.settledIndices
      state.unqueuedIndices
    rw [indicesOf_cons_self] at moved
    simpa [trail, BatchState.settledIndices, BatchState.unqueuedIndices] using moved
  · refine ⟨found, there, rfl, ?_⟩
    have left := related entry running other found.settledIndices found.unqueuedIndices
    rwa [indicesOf_cons_other apart] at left

theorem deliver_keeps_perm (step : system.deliver? engine workers position = some next) :
    Keeps List.Perm system next := by
  refine deliver_keeps step ?_
  intro entry running batch before after
  have moved := indicesOf_perm batch (jobs_deliver system.inbox running)
  exact (moved.append_left before).append_right after

theorem deliver_keeps_order (single : system.running.length ≤ 1)
    (step : system.deliver? engine workers position = some next) : Keeps Eq system next := by
  refine deliver_keeps step ?_
  intro entry running batch before after
  rw [jobs_deliver_single single running]

theorem step_keeps {move : Move} {relation : List Nat → List Nat → Prop}
    (step : system.step? engine workers move = some next)
    (refl : ∀ indices, relation indices indices)
    (delivery : ∀ position, system.deliver? engine workers position = some next →
      Keeps relation system next) : Keeps relation system next := by
  have weaker : ∀ new old, new = old → relation new old := fun new _ same => same ▸ refl new
  cases move with
  | take batch => exact (take_keeps step).mono weaker
  | enqueue batch => exact (enqueue_keeps step).mono weaker
  | start => exact (start_keeps step).mono weaker
  | look position => exact (look_keeps step).mono weaker
  | deliver position => exact delivery position step
  | collect batch => exact (collect_keeps step).mono weaker
  | fire batch => exact (fire_keeps step).mono weaker

theorem step_keeps_perm {move : Move} (step : system.step? engine workers move = some next) :
    Keeps List.Perm system next :=
  step_keeps step List.Perm.refl fun _ => deliver_keeps_perm

/-- While at most one job is running, moves keep the indices of a batch in order. -/
theorem step_keeps_order {move : Move} (single : system.running.length ≤ 1)
    (step : system.step? engine workers move = some next) : Keeps Eq system next :=
  step_keeps step Eq.refl fun _ => deliver_keeps_order single

end System

end PolicyReview.Pool
