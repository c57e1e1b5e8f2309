import PolicyReview.Pool

/-! The pool at work on several batches at once. The producer of a batch takes its assets in order
and puts a job for each into the inbox of the pool; workers start the jobs of the inbox, first
in first out, and deliver outcomes to the channel of the batch, from which its caller collects
them. Inbox and channels have room for as many entries as there are workers. Tokens may fire at
any moment, and a job looks at the token of its batch when it comes to it. -/

namespace PolicyReview.Pool

structure Job where
  batch : Nat
  index : Nat
  deriving DecidableEq, Repr

structure RunningJob where
  job : Job
  looks : List Bool := []
  deriving DecidableEq, Repr

structure BatchState where
  assets : List Json
  unsent : List Nat
  held : Option Nat := none
  waiting : List Outcome := []
  collected : List Outcome := []
  fired : Bool := false

namespace BatchState

def ofAssets (assets : List Json) : BatchState :=
  { assets, unsent := List.range assets.length }

def isFinished (state : BatchState) : Bool := state.collected.length == state.assets.length

def response (state : BatchState) : BatchResponse :=
  aggregate (state.collected ++ missingOutcomes state.assets state.collected)

end BatchState

structure System where
  batches : List BatchState
  inbox : List Job := []
  running : List RunningJob := []

inductive Move where
  | take (batch : Nat)
  | enqueue (batch : Nat)
  | start
  | look (position : Nat)
  | deliver (position : Nat)
  | collect (batch : Nat)
  | fire (batch : Nat)
  deriving DecidableEq, Repr

/-- Whether a move of a producer, a worker or a caller brings a job further. -/
def Move.advances : Move → Bool
  | .look _ => false
  | .fire _ => false
  | _ => true

namespace System

variable {Artifact : Type}

def ofBatches (batches : List (List Json)) : System :=
  { batches := batches.map BatchState.ofAssets }

def setBatch (system : System) (batch : Nat) (state : BatchState) : System :=
  { system with batches := system.batches.set batch state }

/-- The token as a running job sees it: looks that were made are kept, and those still to be made
show what the token is now. -/
def signal (looks : List Bool) (fired : Bool) : Signal := fun look => looks.getD look fired

def take? (system : System) (batch : Nat) : Option System := do
  let state ← system.batches[batch]?
  match state.held, state.unsent with
  | none, index :: rest =>
    return system.setBatch batch { state with held := some index, unsent := rest }
  | _, _ => none

def enqueue? (workers : Nat) (system : System) (batch : Nat) : Option System := do
  let state ← system.batches[batch]?
  let index ← state.held
  if system.inbox.length < workers then
    let system := system.setBatch batch { state with held := none }
    return { system with inbox := system.inbox ++ [⟨batch, index⟩] }
  else none

def start? (workers : Nat) (system : System) : Option System :=
  match system.inbox with
  | [] => none
  | job :: rest =>
    if system.running.length < workers then
      some { system with inbox := rest, running := system.running ++ [{ job }] }
    else none

def look? (system : System) (position : Nat) : Option System := do
  let entry ← system.running[position]?
  let state ← system.batches[entry.job.batch]?
  let entry := { entry with looks := entry.looks ++ [state.fired] }
  return { system with running := system.running.set position entry }

def deliver? (engine : Engine Artifact) (workers : Nat) (system : System) (position : Nat) :
    Option System := do
  let entry ← system.running[position]?
  let state ← system.batches[entry.job.batch]?
  let asset ← state.assets[entry.job.index]?
  if state.waiting.length < workers then
    let outcome :=
      (reviewOne engine (signal entry.looks state.fired) entry.job.index asset).outcome
    let system := system.setBatch entry.job.batch
      { state with waiting := state.waiting ++ [outcome] }
    return { system with running := system.running.eraseIdx position }
  else none

def collect? (system : System) (batch : Nat) : Option System := do
  let state ← system.batches[batch]?
  match state.waiting with
  | outcome :: rest =>
    return system.setBatch batch
      { state with waiting := rest, collected := state.collected ++ [outcome] }
  | [] => none

def fire? (system : System) (batch : Nat) : Option System := do
  let state ← system.batches[batch]?
  return system.setBatch batch { state with fired := true }

/-- The system after a move, if the move is possible. -/
def step? (engine : Engine Artifact) (workers : Nat) (system : System) : Move → Option System
  | .take batch => system.take? batch
  | .enqueue batch => system.enqueue? workers batch
  | .start => system.start? workers
  | .look position => system.look? position
  | .deliver position => system.deliver? engine workers position
  | .collect batch => system.collect? batch
  | .fire batch => system.fire? batch

/-- The systems that some batches can come to by moves that are allowed. -/
inductive Reachable (engine : Engine Artifact) (workers : Nat) (allowed : Move → Prop)
    (batches : List (List Json)) : System → Prop
  | begin : Reachable engine workers allowed batches (ofBatches batches)
  | move {system next : System} {move : Move} :
      Reachable engine workers allowed batches system → allowed move →
      system.step? engine workers move = some next →
      Reachable engine workers allowed batches next

/-- How many jobs of a batch are in the inbox. -/
def queuedCount (system : System) (batch : Nat) : Nat :=
  (system.inbox.filter (·.batch = batch)).length

/-- How many jobs of a batch are running. -/
def runningCount (system : System) (batch : Nat) : Nat :=
  (system.running.filter (·.job.batch = batch)).length

end System

end PolicyReview.Pool
