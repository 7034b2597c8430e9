import Awman.WorkflowControl

/-!
# One step at a time

Launching a step, waiting for its container while signals and board answers arrive, and deciding
what follows its exit.
-/

namespace Awman.Engine

open Awman.Interaction

/-- The resolved inputs of one launch. -/
structure PreparedStepLaunch where
  agent : AgentName
  model : Option String
  /-- The number of this launch of the step. -/
  attempt : Nat

/-- A container that was started and recorded. -/
structure StepLaunch where
  /-- What the factory returned. -/
  execution : Execution
  /-- The container's place in the order of launches. -/
  handle : Nat
  agent : AgentName
  model : Option String

/-- How a countdown over a running step ended. -/
inductive MidStepYoloResult where
  | stepCompleted (result : Except String Int)
  /-- The countdown was over, or was cut short. -/
  | advanced
  | cancelled
  | showControlBoard
  /-- There was output again. -/
  | recovered

/-- A single step's board decides whether the engine goes on waiting. -/
def MidStepOutcome.toResult : MidStepOutcome → Option InterruptibleStepResult
  | .continue => none
  | .stepCompleted outcome => some (.stepCompleted outcome)
  | .workflowEnded outcome => some (.workflowEnded outcome)
  | .loopContinue => some .loopContinue

/-- Wait for a signal while a single step runs. -/
def nextStepSignal : EngineM StepSignal := do
  let signal ← receive fun
    | .step .elapsed => none
    | .step signal => some signal
    | _ => none
  match signal with
  | .cancelled => modifyState fun run => { run with cancel := true }
  | _ => pure ()
  pure signal

/-- Wait for a signal between two ticks of a countdown. -/
def nextCountdownSignal : EngineM StepSignal :=
  receive fun
    | .step .cancelled => none
    | .step signal => some signal
    | _ => none

/-- Ask the factory for a container. -/
def executionForStep (stepName : String) (attempt : Nat) :
    EngineM (Except String (Execution × List Nat)) := do
  record (.launched stepName attempt)
  receive fun
    | .spawned result ended => some (result.map fun execution => (execution, ended))
    | _ => none

/-- A container was started; one that already ended is not alive. -/
def containerStarted (stepName : String) (execution : Execution) (ended : List Nat) :
    EngineM Nat := do
  let run ← getState
  let left := stillAlive ended run.containers
  modifyState fun run => { run with
    containers := if execution.running then
        { stepName := stepName, handle := run.starts.length } :: left
      else left
    starts := ⟨stepName, left.filter (·.stopping)⟩ :: run.starts }
  pure run.starts.length

namespace WorkflowEngine

variable (engine : WorkflowEngine)

/-- Resolve the inputs of a launch and count it. -/
def prepareStepLaunch (step : WorkflowStep) : EngineM PreparedStepLaunch := do
  let agent ← ofExcept (engine.resolveAgent step)
  let run ← getState
  let (state, attempt) := run.state.recordStepLaunch step.name
  modifyState fun run => { run with state := state }
  pure ⟨agent, engine.resolveModel step, attempt⟩

/-- Start the container of a prepared launch, with the state written before and after. -/
def spawnPreparedStep (step : WorkflowStep) (prepared : PreparedStepLaunch) :
    EngineM (Except EngineError StepLaunch) := do
  setStatus step.name (.running none)
  match ← tryPersist with
  | .error e => pure (.error e)
  | .ok () => do
      match ← executionForStep step.name prepared.attempt with
      | .error message => do
          setStatus step.name (.failed (-1) (some message))
          let _ ← tryPersist
          pure (.error (.other message))
      | .ok (execution, ended) => do
          let handle ← containerStarted step.name execution ended
          setStatus step.name (.running (some execution.id))
          modifyState fun run =>
            { run with state := run.state.recordStepContainer step.name execution.name }
          match ← tryPersist with
          | .error e => pure (.error e)
          | .ok () => pure (.ok ⟨execution, handle, prepared.agent, prepared.model⟩)

/-- Launch the first ready step. -/
def launchStep : EngineM String := do
  let run ← getState
  match (engine.nextReady run).head? with
  | none => fail (.invalidAdvanceAction "no ready steps remaining")
  | some stepName => do
      let step ← ofExcept (engine.findStep stepName)
      let prepared ← engine.prepareStepLaunch step
      let spawned ← spawnPreparedStep step prepared
      let launch ← ofExcept spawned
      modifyState fun run => { run with
        activeSteps := [{
          stepName := step.name
          execution := true
          cancelHandle := launch.execution.running
          containerName := launch.execution.name
          handle := launch.handle
          awmanKilled := false
          stuck := false
          yoloDeadline := none
          agent := launch.agent
          model := launch.model
          launchId := 0 }]
        currentStepName := some step.name
        currentStepAgent := some launch.agent
        currentStepModel := launch.model }
      pure step.name

/-- Recognise an authentication failure of a step and refresh its credentials, once. -/
def recoverAuthFailure (stepName : String) : EngineM Bool := do
  let run ← getState
  if stepName ∈ run.authRetriesUsed then
    pure false
  else if run.activeSteps.any fun slot => slot.stepName = stepName then do
    match ← orOther (← receive fun | .authRecovered result => some result | _ => none) with
    | false => pure false
    | true => do
        modifyState fun run =>
          { run with authRetriesUsed := insert stepName run.authRetriesUsed }
        pure true
  else
    pure false

/-- Count down over a step that is stuck. -/
def driveYoloCountdown : EngineM MidStepYoloResult :=
  loop do
    if ← cancelRequested then
      pure (some .cancelled)
    else do
      let pending ← receive fun | .drained events => some events | _ => none
      if pending.any (· ≠ .stuck) then
        pure (some .recovered)
      else
        match ← yoloCountdownTick with
        | (.advanceNow, _) => pure (some .advanced)
        | (.cancel, _) => pure (some .cancelled)
        | (.continue, true) => pure (some .advanced)
        | (.continue, false) =>
          match ← nextCountdownSignal with
          | .exited result => pure (some (.stepCompleted result))
          | .stuck .stuck => pure none
          | .stuck .unstuck | .stuck .startupGraceExpired => pure (some .recovered)
          | .request (.openControlBoard _) => pure (some .showControlBoard)
          | .request (.stepUnstuck _) => pure (some .recovered)
          | .request (.stepStuck _) => pure none
          | .cancelled | .elapsed => pure none

/-- The wait of the single step resolved: record its exit. -/
def stepExited (stepName : String) (handle : Nat) (result : Except String Int) :
    EngineM StepOutcome := do
  setFocusedExecution true
  containerGone handle
  let exitCode ← orOther result
  engine.finalizeStep stepName exitCode

/-- React to a step that is stuck. -/
def handleStepStuck (stepName : String) (handle : Nat) (cancelHandle : Option Nat) :
    EngineM (Option InterruptibleStepResult) := do
  let run ← getState
  if engine.settings.yolo && !engine.isLastStep run then
    match ← driveYoloCountdown with
    | .stepCompleted result => do
        let outcome ← engine.stepExited stepName handle result
        pure (some (.stepCompleted outcome))
    | .showControlBoard => do
        let outcome ← engine.handleMidStepControlBoard stepName handle cancelHandle
        pure outcome.toResult
    | .cancelled | .recovered => pure none
    | .advanced => do
        killCurrentContainer cancelHandle
        setStatus stepName .succeeded
        persist
        let _ ← ofExcept (engine.findStep stepName)
        let run ← getState
        if engine.isLastStep run then do
          ofExcept (engine.computeAvailableActions run)
          let action ← showControlBoard .betweenSteps (engine.previousStepName run)
          let result ← engine.executeTopLevelAction action
          pure (some result)
        else
          pure (some .loopContinue)
  else do
    let outcome ← engine.handleMidStepControlBoard stepName handle cancelHandle
    pure outcome.toResult

/-- One signal while a single step runs. -/
def stepIteration (stepName : String) (handle : Nat) (cancelHandle : Option Nat) :
    EngineM (Option InterruptibleStepResult) := do
  match ← nextStepSignal with
  | .exited result => do
      let outcome ← engine.stepExited stepName handle result
      pure (some (.stepCompleted outcome))
  | .cancelled => do
      killCurrentContainer cancelHandle
      let outcome ← engine.cancelRun
      pure (some (.workflowEnded outcome))
  | .stuck .stuck | .request (.stepStuck _) =>
    engine.handleStepStuck stepName handle cancelHandle
  | .stuck .startupGraceExpired => do
      markFocusedKilled
      pure none
  | .request (.openControlBoard _) => do
      let outcome ← engine.handleMidStepControlBoard stepName handle cancelHandle
      pure outcome.toResult
  | .stuck .unstuck | .request (.stepUnstuck _) | .elapsed => pure none

/-- Launch the next step and wait until it ends or an answer decides what follows. -/
def stepOnceInterruptible : EngineM InterruptibleStepResult := do
  let stepName ← engine.launchStep
  let run ← getState
  let slot := run.activeSteps.head?
  let handle := (slot.map (·.handle)).getD 0
  let cancelHandle := (slot.filter (·.cancelHandle)).map (·.handle)
  setFocusedExecution false
  loop (engine.stepIteration stepName handle cancelHandle)

/-- What follows a failed single step. -/
def singleStepFailed (outcome : StepOutcome) : EngineM IterationOutcome := do
  if ← cancelRequested then do
    let ended ← engine.cancelRun
    pure (.ended ended)
  else if ← recoverAuthFailure outcome.stepName then do
    setStatus outcome.stepName .pending
    persist
    pure .continue
  else do
    let step ← ofExcept (engine.findStep outcome.stepName)
    if step.abortOnFailure then do
      modifyState fun run => { run with abortOnFailureTriggered := true }
      engine.markUnfinished .cancelled
      persist
      pure (.ended .aborted)
    else
      engine.handleStepFailure outcome.stepName outcome.exitCode

/-- What follows a single step that succeeded. -/
def singleStepSucceeded : EngineM IterationOutcome := do
  let run ← getState
  let workflowJustCompleted := run.state.isComplete
  if !workflowJustCompleted && engine.settings.yolo then
    pure .continue
  else if !workflowJustCompleted || engine.settings.yolo then do
    ofExcept (engine.computeAvailableActions run)
    match ← showControlBoard .betweenSteps (engine.previousStepName run) with
    | .dismiss | .launchNext | .retryFailedStep _ => pure .continue
    | .continueInCurrentContainer _ => do
        engine.handleContinueInCurrentContainer
        pure .continue
    | .restartCurrentStep => do
        restartCurrent
        pure .continue
    | .cancelToPreviousStep => do
        engine.handleCancelToPrevious
        pure .continue
    | .finishWorkflow => do
        let outcome ← engine.handleFinishWorkflow
        pure (.ended outcome)
    | .pause => do
        persist
        pure (.ended .paused)
    | .abort => do
        let outcome ← engine.handleAbort
        pure (.ended outcome)
  else
    pure .continue

/-- One pass of the sequential path: run the first ready step and decide what follows. -/
def runSingleStepIteration : EngineM IterationOutcome := do
  match ← engine.stepOnceInterruptible with
  | .workflowEnded outcome => pure (.ended outcome)
  | .loopContinue => pure .continue
  | .stepCompleted outcome =>
    if outcome.exitCode ≠ 0 then
      engine.singleStepFailed outcome
    else
      engine.singleStepSucceeded

end WorkflowEngine

end Awman.Engine
