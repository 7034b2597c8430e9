import Awman.Library.Interaction
import Awman.WorkflowState

/-!
# The workflow engine and what it asks its environment

The engine reads the container exits, signals, saves, and board answers of its environment one at a
time, and changes a `RunState`.  The definition, the graph and the settings of a run do not change
and are kept apart in `WorkflowEngine`.  The locals of a parallel group and the containers that are
alive belong to the run state, so that every point of a run can be observed.
-/

namespace Awman.Engine

open Awman.Interaction

/-- The name of an agent: 1 to 64 ASCII letters, digits, dashes and underscores. -/
structure AgentName where
  name : String
  nonempty : name ≠ ""
  short : name.utf8ByteSize ≤ 64
  /-- Each character is allowed. -/
  allowed : name.toList.all (fun c => c.isAlphanum || c == '-' || c == '_') = true
deriving DecidableEq

/-- Check an agent name. -/
def AgentName.new (name : String) : Except DataError AgentName :=
  if hempty : name = "" then
    .error (.invalidAgentName name "must not be empty")
  else if hlong : 64 < name.utf8ByteSize then
    .error (.invalidAgentName name "must be 64 characters or fewer")
  else if hchars : name.toList.all (fun c => c.isAlphanum || c == '-' || c == '_') = true then
    .ok ⟨name, hempty, by omega, hchars⟩
  else
    .error (.invalidAgentName name "only ASCII alphanumerics, '-', and '_' are allowed")

/-- A workflow definition, as far as the main phase reads it. -/
structure Workflow where
  /-- The title the state file is named after. -/
  title : Option String := none
  steps : List WorkflowStep
  /-- The agent of steps that name none. -/
  agent : Option String := none
  /-- The model of steps that name none. -/
  model : Option String := none
deriving DecidableEq, Repr

/-- What a run takes from the configuration and the frontend. -/
structure EngineSettings where
  /-- The cap on concurrent containers; none means no cap. -/
  maxConcurrent : Option Nat := none
  /-- Whether stuck steps are advanced past without asking. -/
  yolo : Bool := false
  configAgent : Option String := none
  configModel : Option String := none
  /-- Whether the frontend can be asked how to recover. -/
  supportsInteractiveRecovery : Bool := true
  /-- Whether the follow-up questions about a parallel group were supplied. -/
  parallelGroupPrompts : Bool := true
  yoloCountdownDuration : Nat := 60
deriving DecidableEq, Repr

/-- The fixed part of an engine: a definition with its validated graph, and the settings. -/
structure WorkflowEngine where
  workflow : Workflow
  /-- Its step graph. -/
  dag : WorkflowDag
  settings : EngineSettings
  built : WorkflowDag.build workflow.steps = .ok dag

/-- A container an engine launched, told apart by its place in the order of launches. -/
structure Container where
  stepName : String
  /-- How many containers were launched before it. -/
  handle : Nat
  /-- Whether it was told to stop.  It is alive until it has ended. -/
  stopping : Bool := false
deriving DecidableEq, Repr

/-- The start of a container. -/
structure ContainerStart where
  stepName : String
  /-- The containers that had been told to stop and had not ended when it was started. -/
  stopping : List Container
deriving DecidableEq, Repr

/-- Tell containers to stop.  A cancel is a request: the container ends later, if at all. -/
def tellToStop (handles : List Nat) (containers : List Container) : List Container :=
  containers.map fun container =>
    if container.handle ∈ handles then { container with stopping := true } else container

/-- The containers that are left when some of the ones told to stop have ended. -/
def stillAlive (ended : List Nat) (containers : List Container) : List Container :=
  containers.filter fun container => !(container.stopping && decide (container.handle ∈ ended))

/-- The record of one container that runs or was just launched. -/
structure ActiveParallelStep where
  stepName : String
  /-- Whether the slot holds the execution itself and not only a kill handle. -/
  execution : Bool
  /-- Whether the container can be killed; a container that already ended gives no kill handle. -/
  cancelHandle : Bool
  containerName : String
  handle : Nat
  /-- Whether the engine itself ended the container. -/
  awmanKilled : Bool
  /-- Whether the step is marked stuck. -/
  stuck : Bool
  /-- When the step's countdown ends, if one runs. -/
  yoloDeadline : Option Nat
  agent : AgentName
  model : Option String
  /-- Which launch of the step the slot belongs to; 0 outside parallel groups. -/
  launchId : Nat
deriving DecidableEq

/-- A container wait of a parallel group that has not resolved. -/
structure ParallelWait where
  stepName : String
  launchId : Nat
  handle : Nat
deriving DecidableEq, Repr

/-- What a container's watcher reports. -/
inductive StuckEvent where
  /-- No output for a while. -/
  | stuck
  /-- Output again. -/
  | unstuck
  /-- No output at all before the grace period ended; the container was killed. -/
  | startupGraceExpired
deriving DecidableEq, Repr

/-- What a frontend asks of a running engine. -/
inductive EngineRequest where
  | openControlBoard (stepName : String)
  /-- The frontend saw a step go quiet. -/
  | stepStuck (stepName : String)
  /-- The frontend saw output again. -/
  | stepUnstuck (stepName : String)
deriving DecidableEq, Repr

/-- An answer to the control board. -/
inductive NextAction where
  | launchNext
  | continueInCurrentContainer (prompt : String)
  | restartCurrentStep
  | cancelToPreviousStep
  | finishWorkflow
  | pause
  | abort
  | dismiss
  | retryFailedStep (stepName : String)
deriving DecidableEq, Repr

/-- An answer to a follow-up question about a parallel group. -/
inductive ParallelGroupDecision where
  | restartWholeGroup
  | restartOneAgent
  | restartStep (stepName : String)
  | cancelGroup
  | keepRunning
deriving DecidableEq, Repr

/-- A frontend's answer to one tick of a countdown. -/
inductive YoloTickOutcome where
  | continue
  | cancel
  | advanceNow
deriving DecidableEq, Repr

/-- What a run of the main phase returned. -/
inductive WorkflowOutcome where
  | completed
  | paused
  | aborted
  | cancelled
  | failed (lastStep : String) (exitCode : Int)
deriving DecidableEq, Repr

/-- The situations in which the control board is shown. -/
inductive BoardKind where
  /-- A single step is running. -/
  | midStep
  /-- A single step has just ended well. -/
  | betweenSteps
  /-- A step has failed. -/
  | failure
  | parallelGroup
deriving DecidableEq, Repr

/-- What a spawned execution tells the engine. -/
structure Execution where
  /-- The runtime's identifier. -/
  id : String
  name : String
  /-- Whether the container is running; a container that already ended cannot be killed. -/
  running : Bool
deriving DecidableEq, Repr

/-- What can wake the engine while it waits for a single step. -/
inductive StepSignal where
  /-- The container's wait resolved. -/
  | exited (result : Except String Int)
  /-- The cancellation token fired. -/
  | cancelled
  /-- The container's watcher reported. -/
  | stuck (event : StuckEvent)
  /-- The frontend asked something. -/
  | request (request : EngineRequest)
  /-- The pause between two countdown ticks is over. -/
  | elapsed

/-- What can wake the engine while a parallel group runs. -/
inductive GroupSignal where
  /-- The wait of a launch resolved. -/
  | exited (wait : ParallelWait) (result : Except String Int)
  /-- The cancellation token fired. -/
  | cancelled
  /-- A report of the watcher of a launch was delivered.  The channel carries the step's name; the
  launch is recorded here to tell where the report came from. -/
  | stuck (stepName : String) (launchId : Nat) (event : StuckEvent)
  /-- The frontend asked something. -/
  | request (request : EngineRequest)
  /-- The pause between two countdown ticks is over. -/
  | elapsed

/-- One answer of the environment. -/
inductive Answer where
  /-- Whether the cancellation token has fired, where the engine looks. -/
  | token (fired : Bool)
  /-- The result of writing the state file. -/
  | saved (result : Except DataError Unit)
  /-- What the factory returned, and which of the containers that were told to stop had ended when
  the new one was started. -/
  | spawned (result : Except String Execution) (ended : List Nat)
  | authRecovered (result : Except String Bool)
  /-- The result of injecting a prompt; false if the backend cannot. -/
  | injected (result : Except String Bool)
  | board (result : Except String NextAction)
  | groupDecision (result : Except String ParallelGroupDecision)
  /-- The container's exit, if its wait had resolved when the engine looked. -/
  | polled (exit : Option (Except String Int))
  /-- The watcher's reports that were pending when the engine looked. -/
  | drained (events : List StuckEvent)
  /-- The answer to a countdown tick, and whether the countdown was over. -/
  | tick (result : Except String YoloTickOutcome) (expired : Bool)
  /-- What woke the engine while a single step ran. -/
  | step (signal : StepSignal)
  /-- What woke the engine while a parallel group ran, and when. -/
  | group (now : Nat) (signal : GroupSignal)

/-- What the engine holds about one step of a parallel group: its slots and its status. -/
structure StepView where
  slots : List ActiveParallelStep
  status : Option StepState
deriving DecidableEq

/-- What a run does that others can see. -/
inductive RunEvent where
  | persisted (state : WorkflowState)
  /-- The container factory was called for a step. -/
  | launched (stepName : String) (attempt : Nat)
  /-- A board was answered.  `previous` is the step that precedes the current one. -/
  | boardAnswered (kind : BoardKind) (previous : Option String) (action : NextAction)
  | exitHandled (wait : ParallelWait) (before after : StepView)
  /-- A watcher's report was handled in a parallel group. -/
  | stuckHandled (stepName : String) (launchId : Nat) (event : StuckEvent)
      (before after : StepView)
deriving DecidableEq

/-- The locals of a running parallel group. -/
structure ParallelGroup where
  /-- How many containers may run at once. -/
  slotCap : Nat
  /-- The steps that wait for a slot. -/
  queue : List WorkflowStep
  waits : List ParallelWait
  /-- The launches made so far, each with a watcher that may still report. -/
  launched : List ParallelWait
  /-- The failures that wait for a decision, in exit order. -/
  failed : List (String × Int)

/-- No group. -/
def ParallelGroup.idle : ParallelGroup :=
  ⟨0, [], [], [], []⟩

/-- The changing part of an engine. -/
structure RunState where
  state : WorkflowState
  /-- The containers the engine holds a slot for. -/
  activeSteps : List ActiveParallelStep
  currentStepName : Option String
  currentStepAgent : Option AgentName
  currentStepModel : Option String
  /-- Whether a failure policy ended the run. -/
  abortOnFailureTriggered : Bool
  /-- The steps relaunched after an authentication failure. -/
  authRetriesUsed : Finset String
  autoRetriedSteps : Finset String
  nextLaunchId : Nat
  /-- Whether the cancellation token was seen fired. -/
  cancel : Bool
  group : ParallelGroup
  /-- The containers that were started and have not ended, the ones told to stop among them. -/
  containers : List Container
  /-- The containers that were started, latest first. -/
  starts : List ContainerStart
  /-- What the run did, latest first. -/
  log : List RunEvent

/-- The run state of an engine that has not done anything. -/
def RunState.start (state : WorkflowState) : RunState where
  state := state
  activeSteps := []
  currentStepName := none
  currentStepAgent := none
  currentStepModel := none
  abortOnFailureTriggered := false
  authRetriesUsed := ∅
  autoRetriedSteps := ∅
  nextLaunchId := 0
  cancel := false
  group := .idle
  containers := []
  starts := []
  log := []

/-- What the engine holds about a step. -/
def RunState.view (run : RunState) (stepName : String) : StepView :=
  ⟨run.activeSteps.filter fun slot => slot.stepName = stepName, run.state.statusOf stepName⟩

/-- The programs of the engine. -/
abbrev EngineM :=
  Program Answer RunState EngineError

/-- What `confirmResume` is told. -/
structure ResumeMismatch where
  workflowName : String
  savedHash : String
  currentHash : String
  message : String

/-- The name the state file is kept under. -/
def workflowNameFor (workflow : Workflow) : String :=
  workflow.title.getD "workflow"

/-- Fit a saved state to the definition: forget unknown steps, add new ones, and make every step
that did not complete pending. -/
def resumeState (dag : WorkflowDag) (steps : List WorkflowStep) (saved : WorkflowState) :
    WorkflowState :=
  let pruned := (saved.retainStepsIn dag).1
  let listed := { pruned with steps := steps.map WorkflowStep.info }
  let filled := listed.steps.foldl (fun state step => state.addMissing step.name) listed
  let idle := filled.setStatuses filled.interruptedRunningSteps .pending
  idle.setStatuses idle.unrecoveredSteps .pending

namespace WorkflowEngine

/-- Start a fresh run of a workflow. -/
def new (computeWorkflowHash : Workflow → String) (invocationId : Nat) (workItem : Option Nat)
    (workflow : Workflow) (settings : EngineSettings) :
    Except EngineError (WorkflowEngine × RunState) :=
  match hbuild : WorkflowDag.build workflow.steps with
  | .error e => .error (.data e)
  | .ok dag =>
    .ok (⟨workflow, dag, settings, hbuild⟩, .start (.new invocationId (workflowNameFor workflow)
      workflow.steps (computeWorkflowHash workflow) workItem))

/-- The state a resume starts from: the loaded one if it may be used, else a fresh one. -/
def stateToResume (computeWorkflowHash : Workflow → String) (invocationId : Nat)
    (workItem : Option Nat) (workflow : Workflow)
    (loaded : Except DataError (Option WorkflowState))
    (confirmResume : ResumeMismatch → Except EngineError Bool) :
    Except EngineError WorkflowState :=
  match loaded with
  | .error e => .error (.data e)
  | .ok none => .ok (.new invocationId (workflowNameFor workflow) workflow.steps
      (computeWorkflowHash workflow) workItem)
  | .ok (some saved) =>
    if workflowStateSchemaVersion < saved.schemaVersion then
      .error (.unsupportedWorkflowSchemaVersion saved.schemaVersion workflowStateSchemaVersion)
    else if saved.workflowHash = computeWorkflowHash workflow then
      .ok saved
    else
      match confirmResume ⟨workflowNameFor workflow, saved.workflowHash,
          computeWorkflowHash workflow,
          "workflow source has changed since the saved run"⟩ with
      | .error e => .error e
      | .ok false => .error (.workflowResumeIncompatible
          "user declined to resume against drifted workflow")
      | .ok true => .ok saved

/-- Resume a workflow from what the state store loaded. -/
def resume (computeWorkflowHash : Workflow → String) (invocationId : Nat) (workItem : Option Nat)
    (workflow : Workflow) (settings : EngineSettings)
    (loaded : Except DataError (Option WorkflowState))
    (confirmResume : ResumeMismatch → Except EngineError Bool) :
    Except EngineError (WorkflowEngine × RunState) :=
  match hbuild : WorkflowDag.build workflow.steps with
  | .error e => .error (.data e)
  | .ok dag =>
    match stateToResume computeWorkflowHash invocationId workItem workflow loaded
        confirmResume with
    | .error e => .error e
    | .ok state =>
      .ok (⟨workflow, dag, settings, hbuild⟩, .start (resumeState dag workflow.steps state))

end WorkflowEngine

end Awman.Engine
