import Awman.Library.NameMaps
import Awman.WorkflowEngine
import Awman.WorkflowPhaseSteps

/-!
# Dynamic workflow runs on one work item

A dynamic run has a leader design a workflow, saves a copy of it in its checkout and runs it; the
engine saves the run's state beside the copy, named after the workflow's title.  The next run on
the work item looks for the two and offers to resume them.  A run goes through the phases below
one file operation at a time, may fail or be killed before each of them, and leaves the files to
the runs that follow.
-/

namespace Awman.Dynamic

open Engine

/-! ## Definitions and their files -/

/-- The workflow a leader designs. -/
structure GeneratedWorkflow where
  /-- The part the engine's main phase reads. -/
  main : Workflow
  setup : List SetupStep := []
  /-- Everything else it says. -/
  rest : String := ""
deriving DecidableEq

/-- Where the runs take place, and how their files are read. -/
structure Checkout where
  root : String
  /-- The checkout is a worktree of its own, and not a remote session's clone. -/
  worktree : Bool
  /-- The first eight digits of the hash of the root. -/
  repoHash : String
  workItem : Nat
  parse : List UInt8 → Except String GeneratedWorkflow
  /-- The hash that tells definitions apart. -/
  computeWorkflowHash : GeneratedWorkflow → String

/-- The files of the work item in the checkout's workflow directory. -/
structure Files where
  /-- The saved workflow. -/
  copy : Option (List UInt8)
  /-- The saved states by file name; each is written whole. -/
  states : NameMap String WorkflowState

/-- A worktree already is the branch that a setup step would check out. -/
def skipCheckoutBranchSteps (workflow : GeneratedWorkflow) : GeneratedWorkflow :=
  { workflow with setup := workflow.setup.filter fun step =>
      match step with
      | .checkoutCreateBranch _ _ => false
      | _ => true }

/-- A name as a part of a file name. -/
def sanitizeNameForFilename (name : String) : String :=
  let out := (name.toList.map fun character =>
    if character.isAlphanum || character == '-' || character == '_' then character else '-').take 64
  if out.isEmpty then "workflow" else String.ofList out

/-- The work item with four digits at least. -/
def paddedNumber (number : Nat) : String :=
  let digits := Nat.toDigits 10 number
  String.ofList (List.replicate (4 - digits.length) '0' ++ digits)

namespace Checkout

variable (checkout : Checkout)

/-- The hash that a run of a definition records. -/
def definitionHash (workflow : GeneratedWorkflow) : String :=
  checkout.computeWorkflowHash
    (if checkout.worktree then skipCheckoutBranchSteps workflow else workflow)

/-- The file name of a state. -/
def statePath (workItem : Option Nat) (workflowName : String) : String :=
  match workItem with
  | some number => checkout.repoHash ++ "-" ++ paddedNumber number ++ "-" ++
      sanitizeNameForFilename workflowName ++ ".json"
  | none => checkout.repoHash ++ "-" ++ sanitizeNameForFilename workflowName ++ ".json"

/-- The file name of the state of a run of a definition. -/
def stateName (workflow : GeneratedWorkflow) : String :=
  checkout.statePath (some checkout.workItem) (workflowNameFor workflow.main)

/-- Where the workflow is saved. -/
def dynamicWorkflowPath : String :=
  checkout.root ++ "/.awman/workflows/dynamic-" ++ paddedNumber checkout.workItem ++ ".toml"

end Checkout

namespace Files

/-- `WorkflowStateStore::load` for the work item. -/
def load (checkout : Checkout) (files : Files) (workflowName : String) : Option WorkflowState :=
  files.states.lookup (checkout.statePath (some checkout.workItem) workflowName)

/-- `WorkflowStateStore::save` -/
def save (checkout : Checkout) (files : Files) (state : WorkflowState) : Files :=
  { files with
    states := files.states.insert (checkout.statePath state.workItem state.workflowName) state }

/-- `WorkflowStateStore::delete` for the work item. -/
def delete (checkout : Checkout) (files : Files) (workflowName : String) : Files :=
  { files with
    states := files.states.erase (checkout.statePath (some checkout.workItem) workflowName) }

end Files

/-! ## Looking for a previous run -/

/-- A run recovered from disk. -/
structure PreviousDynamicRun where
  workflow : GeneratedWorkflow
  state : WorkflowState

/-- Why a run that left something behind cannot be reconstructed. -/
inductive Unusable where
  | missingWorkflow
  | unreadable (error : String)
  | missingState (workflowName : String)
deriving DecidableEq

/-- What the user is told. -/
def Unusable.text (checkout : Checkout) : Unusable → String
  | .missingWorkflow => "no saved workflow.toml at " ++ checkout.dynamicWorkflowPath ++
      " — the previous run's generated workflow is gone"
  | .unreadable error => "the saved workflow.toml no longer parses: " ++ error
  | .missingState workflowName => "no saved workflow state for '" ++ workflowName ++ "' at " ++
      checkout.root ++ "/.awman/workflows/" ++
      checkout.statePath (some checkout.workItem) workflowName ++
      " — there is no progress to resume from"

/-- Why no resumable run was found. -/
inductive DynamicDiscoveryMiss where
  | nothingToResume
  | unusable (reason : Unusable)
deriving DecidableEq

/-- How many steps a saved state records as done. -/
def completedStepCount (state : WorkflowState) : Nat :=
  (state.stepStates.entries.filter fun entry => entry.2.isCompleted).length

/-- Some step of a saved state is left to run. -/
def stepsLeft (state : WorkflowState) : Bool :=
  completedStepCount state < state.stepStates.entries.length

/-- A state of the work item has steps left to run. -/
def unresumedDynamicStateExists (checkout : Checkout) (files : Files) : Bool :=
  let marker := "-" ++ paddedNumber checkout.workItem ++ "-"
  files.states.entries.any fun entry =>
    ".json".toList.isSuffixOf entry.1.toList && entry.1.toList.tails.any marker.toList.isPrefixOf &&
      stepsLeft entry.2

/-- The saved workflow with the state saved under its title. -/
def discoverPreviousDynamicRun (checkout : Checkout) (files : Files) :
    Except DynamicDiscoveryMiss PreviousDynamicRun :=
  match files.copy with
  | none =>
    if unresumedDynamicStateExists checkout files then .error (.unusable .missingWorkflow)
    else .error .nothingToResume
  | some contents =>
    match checkout.parse contents with
    | .error error => .error (.unusable (.unreadable error))
    | .ok workflow =>
      match files.load checkout (workflowNameFor workflow.main) with
      | some state => .ok ⟨workflow, state⟩
      | none => .error (.unusable (.missingState (workflowNameFor workflow.main)))

/-- Where in the topological order a saved run stopped. -/
def resumeStopPoint (state : WorkflowState) (dag : WorkflowDag) : Option Nat :=
  let order := dag.topologicalOrder
  (order.findIdx? fun name => (state.statusOf name).any StepState.isUnrecovered).orElse fun _ =>
    order.findIdx? fun name => !(state.statusOf name).any StepState.isCompleted

/-- A step a resume may start from. -/
structure WorkflowResumeStep where
  name : String
  role : String

/-- The steps a resume may start from: where the run stopped, and its neighbours. -/
def workflowResumeStartPoints (dag : WorkflowDag) (state : WorkflowState) :
    List WorkflowResumeStep :=
  match resumeStopPoint state dag with
  | none => []
  | some index =>
    let order := dag.topologicalOrder
    let role := match order[index]?.bind state.statusOf with
      | some (.failed _ _) => "the step that failed"
      | some .cancelled => "the step that was cancelled"
      | _ => "the step the run stopped on"
    (order[index]?.toList.map fun name => ⟨name, role⟩) ++
      (if 0 < index then
        order[index - 1]?.toList.map fun name => ⟨name, "the step before it"⟩
      else []) ++
      order[index + 1]?.toList.map fun name => ⟨name, "the step after it"⟩

/-- Why a run that was found is not offered. -/
inductive ResumeUnavailable where
  | unusable (reason : Unusable)
  | invalidGraph (error : DataError)
  | nothingLeft
deriving DecidableEq

/-- What `offer_dynamic_resume` comes to before anybody answers. -/
inductive Offer where
  | nothing
  /-- The user is told why there is nothing to resume. -/
  | notice (reason : ResumeUnavailable)
  | ask (previous : PreviousDynamicRun) (dag : WorkflowDag)

/-- What a run finds and says about a previous one. -/
def offerDynamicResume (checkout : Checkout) (files : Files) : Offer :=
  match discoverPreviousDynamicRun checkout files with
  | .error .nothingToResume => .nothing
  | .error (.unusable reason) => .notice (.unusable reason)
  | .ok previous =>
    match WorkflowDag.build previous.workflow.main.steps with
    | .error error => .notice (.invalidGraph error)
    | .ok dag =>
      if (workflowResumeStartPoints dag previous.state).isEmpty then .notice .nothingLeft
      else .ask previous dag

/-! ## A run -/

/-- Where the runs are. -/
inductive Phase where
  /-- No run is under way. -/
  | idle
  /-- No run is under way, and the last one finished cleanly. -/
  | finished
  /-- The user is asked whether to resume. -/
  | offering (previous : PreviousDynamicRun) (dag : WorkflowDag)
  /-- A fresh start: the state of the abandoned run is about to be deleted. -/
  | abandoningState (workflow : GeneratedWorkflow)
  /-- A fresh start: the saved workflow of the abandoned run is about to be deleted. -/
  | abandoningCopy
  /-- The leader designs a workflow. -/
  | designing
  /-- The design is about to be saved. -/
  | copying (design : List UInt8) (workflow : GeneratedWorkflow)
  /-- The rewound state is about to be saved, before the run of its workflow is prepared. -/
  | resuming (workflow : GeneratedWorkflow) (state : WorkflowState)
  /-- The run of a workflow is prepared; `settled` says that the resume question was answered. -/
  | preparing (workflow : GeneratedWorkflow) (settled : Bool)
  /-- The user is asked about the state found under the workflow's title. -/
  | settling (workflow : GeneratedWorkflow) (dag : WorkflowDag) (saved : WorkflowState)
  /-- The state found under the workflow's title is about to be deleted. -/
  | droppingState (workflow : GeneratedWorkflow)
  /-- The state found under the workflow's title was rewound and is about to be saved. -/
  | rewriting (workflow : GeneratedWorkflow) (state : WorkflowState)
  /-- The engine is about to load the state. -/
  | starting (workflow : GeneratedWorkflow)
  /-- The engine runs and saves its state. -/
  | running (workflow : GeneratedWorkflow) (state : WorkflowState)
  /-- A clean finish: the saved workflow is about to be deleted. -/
  | clearingCopy (workflow : GeneratedWorkflow)
  /-- A clean finish: the state is about to be deleted. -/
  | clearingState (workflow : GeneratedWorkflow)

/-- What the steps depend on that the program does not decide. -/
inductive Choice where
  /-- A run is invoked; `offerResume` says that it looks for a previous one. -/
  | invoke (offerResume : Bool)
  /-- The checkout is removed, or made anew. -/
  | removed
  | resumeFrom (step : String)
  | fresh
  | cancel
  /-- The leader's design validates. -/
  | designed (design : List UInt8)
  /-- What the save of the design wrote: nothing, or this many of its bytes. -/
  | copied (written : Option Nat)
  | deleted (done : Bool)
  | saved
  | proceed
  /-- The engine loads the state; `confirm` answers whether to resume another definition's. -/
  | loaded (invocationId : Nat) (confirm : Bool)
  /-- The engine saves its state. -/
  | persisted (state : WorkflowState)
  /-- The run ends with exit code zero. -/
  | succeeded
  /-- The run fails, is aborted, paused, cancelled or killed. -/
  | stopped

/-- What an invocation goes on with. -/
def invoked (checkout : Checkout) (offerResume : Bool) (files : Files) : Phase :=
  if offerResume then
    match offerDynamicResume checkout files with
    | .nothing | .notice _ => .designing
    | .ask previous dag => .offering previous dag
  else .designing

/-- What `offer_state_resume` goes on with. -/
def settled (checkout : Checkout) (workflow : GeneratedWorkflow) (files : Files) : Phase :=
  match files.load checkout (workflowNameFor workflow.main) with
  | none => .starting workflow
  | some saved =>
    match WorkflowDag.build workflow.main.steps with
    | .error _ => .droppingState workflow
    | .ok dag =>
      if (workflowResumeStartPoints dag saved).isEmpty then .droppingState workflow
      else .settling workflow dag saved

/-- What the engine goes on with. -/
def started (checkout : Checkout) (workflow : GeneratedWorkflow) (files : Files)
    (invocationId : Nat) (confirm : Bool) : Phase :=
  match WorkflowDag.build workflow.main.steps with
  | .error _ => .idle
  | .ok dag =>
    match WorkflowEngine.stateToResume (fun _ => checkout.definitionHash workflow) invocationId
        (some checkout.workItem) workflow.main
        (.ok (files.load checkout (workflowNameFor workflow.main))) (fun _ => .ok confirm) with
    | .error _ => .idle
    | .ok state => .running workflow (resumeState dag workflow.main.steps state)

/-- A state the engine may save next: the run keeps its name, its work item and its hash. -/
def Continues (state next : WorkflowState) : Prop :=
  next.workflowName = state.workflowName ∧ next.workItem = state.workItem ∧
    next.workflowHash = state.workflowHash

instance (state next : WorkflowState) : Decidable (Continues state next) := by
  unfold Continues
  exact inferInstance

/-- One step of the runs. -/
def step (checkout : Checkout) : Phase → Choice → Files → Option (Phase × Files)
  | .idle, .stopped, _ | .finished, .stopped, _ => none
  | _, .stopped, files => some (.idle, files)
  | .idle, .invoke offerResume, files | .finished, .invoke offerResume, files =>
    some (invoked checkout offerResume files, files)
  | .offering previous dag, .resumeFrom start, files =>
    some (.resuming previous.workflow (previous.state.rewindTo dag start), files)
  | .offering previous _, .fresh, files => some (.abandoningState previous.workflow, files)
  | .offering _ _, .cancel, files => some (.idle, files)
  | .abandoningState workflow, .deleted done, files =>
    some (.abandoningCopy,
      if done then files.delete checkout (workflowNameFor workflow.main) else files)
  | .abandoningCopy, .deleted done, files =>
    some (.designing, if done then { files with copy := none } else files)
  | .idle, .removed, _ => some (.idle, ⟨none, ∅⟩)
  | .finished, .removed, _ => some (.finished, ⟨none, ∅⟩)
  | .designing, .removed, _ => some (.designing, ⟨none, ∅⟩)
  | .clearingCopy workflow, .removed, _ => some (.clearingCopy workflow, ⟨none, ∅⟩)
  | .designing, .designed design, files =>
    match checkout.parse design with
    | .error _ => none
    | .ok workflow => some (.copying design workflow, files)
  | .copying design workflow, .copied written, files =>
    -- A failure costs a later resume, never the run in progress.
    some (.preparing workflow false,
      match written with
      | none => files
      | some count => { files with copy := some (design.take count) })
  | .resuming workflow state, .saved, files =>
    some (.preparing workflow true, files.save checkout state)
  | .preparing workflow settledBefore, .proceed, files =>
    some (if settledBefore then .starting workflow else settled checkout workflow files, files)
  | .settling workflow dag saved, .resumeFrom start, files =>
    some (.rewriting workflow (saved.rewindTo dag start), files)
  | .settling workflow _ _, .fresh, files => some (.droppingState workflow, files)
  | .settling _ _ _, .cancel, files => some (.idle, files)
  | .droppingState workflow, .deleted done, files =>
    some (.starting workflow,
      if done then files.delete checkout (workflowNameFor workflow.main) else files)
  | .rewriting workflow state, .saved, files =>
    some (.starting workflow, files.save checkout state)
  | .starting workflow, .loaded invocationId confirm, files =>
    some (started checkout workflow files invocationId confirm, files)
  | .running workflow state, .persisted next, files =>
    if Continues state next then some (.running workflow next, files.save checkout next) else none
  | .running workflow _, .succeeded, files => some (.clearingCopy workflow, files)
  | .clearingCopy workflow, .deleted done, files =>
    some (.clearingState workflow, if done then { files with copy := none } else files)
  | .clearingState workflow, .deleted done, files =>
    some (.finished, if done then files.delete checkout (workflowNameFor workflow.main) else files)
  | _, _, _ => none

/-- The files that runs of which each step is allowed can leave, and where they are. -/
inductive Reached (checkout : Checkout) (allowed : Phase → Choice → Files → Bool) :
    Phase → Files → Prop where
  | start : Reached checkout allowed .idle ⟨none, ∅⟩
  | step {phase next : Phase} {choice : Choice} {files after : Files}
      (h : Reached checkout allowed phase files) (hallowed : allowed phase choice files = true)
      (hstep : step checkout phase choice files = some (next, after)) :
      Reached checkout allowed next after

/-- Where a sequence of allowed steps leads. -/
def run (checkout : Checkout) (allowed : Phase → Choice → Files → Bool) :
    Phase × Files → List Choice → Option (Phase × Files)
  | current, [] => some current
  | current, choice :: rest =>
    if allowed current.1 choice current.2 then
      (step checkout current.1 choice current.2).bind fun moved => run checkout allowed moved rest
    else none

theorem Reached.run {checkout : Checkout} {allowed : Phase → Choice → Files → Bool}
    {current moved : Phase × Files} {choices : List Choice}
    (h : Reached checkout allowed current.1 current.2)
    (hrun : Dynamic.run checkout allowed current choices = some moved) :
    Reached checkout allowed moved.1 moved.2 := by
  induction choices generalizing current with
  | nil =>
    cases hrun
    exact h
  | cons choice rest ih =>
    unfold Dynamic.run at hrun
    split_ifs at hrun with hallowed
    obtain ⟨between, hstep, hrest⟩ := Option.bind_eq_some_iff.mp hrun
    exact ih (h.step hallowed hstep) hrest

end Awman.Dynamic
