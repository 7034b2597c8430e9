import Awman.WorkflowEngine

/-!
# The control board and what each answer does

The questions an engine asks its environment, the read-only queries about a run, and the answers to
the Workflow Control Board: between steps, while a step runs, and after a step failed.
-/

namespace Awman.Engine

open Awman.Interaction

/-- Turn a message of the environment into an engine error. -/
def orOther {α : Type} : Except String α → EngineM α
  | .ok a => pure a
  | .error message => fail (.other message)

/-- Record what the run did. -/
def record (event : RunEvent) : EngineM Unit :=
  modifyState fun run => { run with log := event :: run.log }

/-- Whether the cancellation token has fired.  A fired token stays fired. -/
def cancelRequested : EngineM Bool := do
  let run ← getState
  if run.cancel then
    pure true
  else do
    let fired ← receive fun | .token fired => some fired | _ => none
    modifyState fun run => { run with cancel := fired }
    pure fired

/-- Write the state file and return the result. -/
def tryPersist : EngineM (Except EngineError Unit) := do
  let run ← getState
  match ← receive fun | .saved result => some result | _ => none with
  | .error e => pure (.error (.data e))
  | .ok () => do
      record (.persisted run.state)
      pure (.ok ())

/-- Write the state file. -/
def persist : EngineM Unit := do
  let result ← tryPersist
  ofExcept result

/-- Record the status of a step. -/
def setStatus (stepName : String) (status : StepState) : EngineM Unit :=
  modifyState fun run => { run with state := run.state.setStatus stepName status }

/-- Show the control board and return the answer. -/
def showControlBoard (kind : BoardKind) (previous : Option String) : EngineM NextAction := do
  let action ← orOther (← receive fun | .board result => some result | _ => none)
  record (.boardAnswered kind previous action)
  pure action

/-- Show one tick of a countdown; the flag says whether the countdown was over. -/
def yoloCountdownTick : EngineM (YoloTickOutcome × Bool) := do
  let (result, expired) ← receive fun | .tick result expired => some (result, expired) | _ => none
  let outcome ← orOther result
  pure (outcome, expired)

/-- A container has ended. -/
def containerGone (handle : Nat) : EngineM Unit :=
  modifyState fun run =>
    { run with containers := run.containers.filter fun c => c.handle ≠ handle }

/-- Ask a container to stop. -/
def cancelContainer (handle : Nat) : EngineM Unit :=
  modifyState fun run => { run with containers := tellToStop [handle] run.containers }

/-- The focused slot holds its execution again, or gives it away. -/
def setFocusedExecution (held : Bool) : EngineM Unit :=
  modifyState fun run => { run with
    activeSteps := match run.activeSteps with
      | [] => []
      | slot :: rest => { slot with execution := held } :: rest }

/-- Mark the focused container as ended by the engine. -/
def markFocusedKilled : EngineM Unit :=
  modifyState fun run => { run with
    activeSteps := match run.activeSteps with
      | [] => []
      | slot :: rest => { slot with awmanKilled := true } :: rest }

/-- The result of one iteration of the outer loop. -/
inductive IterationOutcome where
  /-- Look for the next steps. -/
  | continue
  | ended (outcome : WorkflowOutcome)
deriving DecidableEq, Repr

/-- What a finished step reports. -/
structure StepOutcome where
  stepName : String
  exitCode : Int
  /-- How many steps are not completed. -/
  remaining : Nat
deriving DecidableEq, Repr

/-- The result of a control board shown while a step runs. -/
inductive MidStepOutcome where
  /-- Go on waiting. -/
  | continue
  | stepCompleted (outcome : StepOutcome)
  | workflowEnded (outcome : WorkflowOutcome)
  /-- Look for the next step. -/
  | loopContinue
deriving DecidableEq, Repr

/-- The result of running a single step. -/
inductive InterruptibleStepResult where
  | stepCompleted (outcome : StepOutcome)
  | workflowEnded (outcome : WorkflowOutcome)
  /-- Look for the next step. -/
  | loopContinue
deriving DecidableEq, Repr

/-- What a failure board acts on. -/
structure StepFailureContext where
  stepName : String
  exitCode : Int
  previousStep : Option String
  /-- The step that starts if the failed one is passed over. -/
  nextStep : Option String

namespace WorkflowEngine

variable (engine : WorkflowEngine)

/-- The step of a name. -/
def findStep (name : String) : Except EngineError WorkflowStep :=
  match engine.workflow.steps.find? fun step => step.name = name with
  | some step => .ok step
  | none => .error (.other s!"step '{name}' not found in workflow")

/-- The names of the steps that can start now. -/
def nextReady (run : RunState) : List String :=
  run.state.nextReady engine.dag

/-- The steps that can start now. -/
def nextReadySteps (run : RunState) : Except EngineError (List WorkflowStep) :=
  (engine.nextReady run).mapM engine.findStep

/-- The first step that can start now. -/
def nextReadyStep (run : RunState) : Except EngineError (Option WorkflowStep) :=
  match (engine.nextReady run).head? with
  | none => .ok none
  | some name => (engine.findStep name).map some

/-- The step before the current one in topological order. -/
def previousStepName (run : RunState) : Option String :=
  match run.currentStepName with
  | none => none
  | some curr =>
    let order := engine.dag.topologicalOrder
    if curr ∈ order ∧ order.idxOf curr ≠ 0 then
      order[order.idxOf curr - 1]?
    else
      none

/-- The direct dependencies of some steps outside these, in topological order. -/
def dependenciesOf (steps : List String) : List String :=
  let deps := ((engine.workflow.steps.filter fun step => step.name ∈ steps).flatMap
    WorkflowStep.dependsOn).filter (· ∉ steps)
  engine.dag.topologicalOrder.filter (· ∈ deps)

/-- One round of following dependents: the steps outside `reached` that depend on it. -/
def nextDependents (reached : List String) : List String :=
  ((engine.workflow.steps.filter fun step => step.name ∉ reached).filter fun step =>
    step.dependsOn.any (· ∈ reached)).map WorkflowStep.name

/-- Follow dependents for at most `rounds` rounds. -/
def dependentsWithin (reached : List String) : Nat → List String
  | 0 => []
  | rounds + 1 =>
    match engine.nextDependents reached with
    | [] => []
    | next => next ++ dependentsWithin (reached ++ next) rounds

/-- Every step downstream of some steps.  Each round that goes on reaches a new step. -/
def dependentsOf (roots : List String) : List String :=
  engine.dependentsWithin roots (engine.workflow.steps.length + 1)

/-- Whether the current step is the last in topological order. -/
def isLastStep (run : RunState) : Bool :=
  match run.currentStepName with
  | none => false
  | some curr => engine.dag.topologicalOrder.getLast? = some curr

/-- Whether the workflow may be finished from the board. -/
def workflowCanFinish (run : RunState) : Bool :=
  engine.isLastStep run || run.state.isComplete

/-- The agent of a step: its own, the workflow's, or the configuration's. -/
def resolveAgent (step : WorkflowStep) : Except EngineError AgentName :=
  match step.agent <|> engine.workflow.agent <|> engine.settings.configAgent with
  | some name => (AgentName.new name).mapError .data
  | none => .error (.other "no agent resolved for step (no step, workflow, or config default)")

/-- The model of a step: its own, the workflow's, or the configuration's. -/
def resolveModel (step : WorkflowStep) : Option String :=
  step.model <|> engine.workflow.model <|> engine.settings.configModel

/-- The actions of a board are computed from the agent of the next step; the answer itself is the
frontend's. -/
def computeAvailableActions (run : RunState) : Except EngineError Unit := do
  match ← engine.nextReadyStep run with
  | none => .ok ()
  | some next => do
      let _ ← engine.resolveAgent next
      .ok ()

/-- The steps of the definition that are not completed. -/
def unfinishedSteps (run : RunState) : List String :=
  (engine.workflow.steps.map WorkflowStep.name).filter (· ∉ run.state.completedSteps)

/-- Give every step that is not completed a status. -/
def markUnfinished (status : StepState) : EngineM Unit :=
  modifyState fun run =>
    { run with state := run.state.setStatuses (engine.unfinishedSteps run) status }

/-- The failure board of a step. -/
def computeFailureActions (run : RunState) (stepName : String) (exitCode : Int) :
    StepFailureContext where
  stepName := stepName
  exitCode := exitCode
  previousStep := engine.previousStepName run
  nextStep := (engine.dag.readySteps (insert stepName run.state.completedSteps)).head?

/-- Ask the containers of all slots to stop and forget the slots. -/
def stopActiveAgents : EngineM Unit :=
  modifyState fun run => { run with
    containers := tellToStop (run.activeSteps.map (·.handle)) run.containers
    activeSteps := [] }

/-- End the run as cancelled. -/
def cancelRun : EngineM WorkflowOutcome := do
  stopActiveAgents
  modifyState fun run => { run with abortOnFailureTriggered := false }
  engine.markUnfinished .cancelled
  modifyState fun run => { run with state := { run.state with cancelledAt := true } }
  persist
  pure .cancelled

/-- End the run as aborted. -/
def handleAbort : EngineM WorkflowOutcome := do
  engine.markUnfinished .cancelled
  persist
  pure .aborted

/-- End the run as completed, with the rest of the steps passed over. -/
def handleFinishWorkflow : EngineM WorkflowOutcome := do
  let run ← getState
  if engine.workflowCanFinish run then do
    engine.markUnfinished .skipped
    persist
    pure .completed
  else
    fail (.invalidAdvanceAction
      "FinishWorkflow only valid on the last step or once every step is terminal")

/-- End the run as failed at a step. -/
def failWorkflow (stepName : String) (exitCode : Int) (errorMessage : String) :
    EngineM IterationOutcome := do
  engine.markUnfinished .cancelled
  setStatus stepName (.failed exitCode (some errorMessage))
  persist
  pure (.ended (.failed stepName exitCode))

/-- Ask how to recover from a failed step until the answer decides it. -/
def handleStepFailureInteractive (stepName : String) (exitCode : Int) :
    EngineM IterationOutcome :=
  loop do
    let available := engine.computeFailureActions (← getState) stepName exitCode
    match ← showControlBoard .failure available.previousStep with
    | .restartCurrentStep => do
        setStatus stepName .pending
        persist
        pure (some .continue)
    | .cancelToPreviousStep =>
      match available.previousStep with
      | none => pure none
      | some prev => do
          setStatus stepName .pending
          setStatus prev .pending
          persist
          pure (some .continue)
    | .launchNext =>
      match available.nextStep with
      | none => pure none
      | some _ => do
          setStatus stepName .skipped
          persist
          pure (some .continue)
    | .abort => do
        let outcome ← engine.handleAbort
        pure (some (.ended outcome))
    | .pause => do
        persist
        pure (some (.ended .paused))
    | .dismiss | .finishWorkflow | .continueInCurrentContainer _ | .retryFailedStep _ => pure none

/-- Count down to the retry of a failed step. -/
def runFailureRetryCountdown : EngineM YoloTickOutcome :=
  loop do
    if ← cancelRequested then
      pure (some .cancel)
    else
      match ← yoloCountdownTick with
      | (.advanceNow, _) => pure (some .advanceNow)
      | (.cancel, _) => pure (some .cancel)
      | (.continue, expired) => pure (if expired then some .continue else none)

/-- Retry a failed step once without asking; a second failure ends the run. -/
def handleStepFailureUnattended (stepName : String) (exitCode : Int) :
    EngineM IterationOutcome := do
  let run ← getState
  if stepName ∈ run.autoRetriedSteps then
    engine.failWorkflow stepName exitCode
      s!"failed twice (exit {exitCode}); automatic retry exhausted"
  else do
    let countdown ← runFailureRetryCountdown
    if ← cancelRequested then do
      let outcome ← engine.cancelRun
      pure (.ended outcome)
    else
      match countdown with
      | .cancel => engine.failWorkflow stepName exitCode "retry countdown cancelled"
      | .continue | .advanceNow => do
          modifyState fun run =>
            { run with autoRetriedSteps := insert stepName run.autoRetriedSteps }
          setStatus stepName .pending
          persist
          pure .continue

/-- Decide what happens after a step failed. -/
def handleStepFailure (stepName : String) (exitCode : Int) : EngineM IterationOutcome := do
  if ← cancelRequested then do
    let outcome ← engine.cancelRun
    pure (.ended outcome)
  else if engine.settings.supportsInteractiveRecovery then
    engine.handleStepFailureInteractive stepName exitCode
  else
    engine.handleStepFailureUnattended stepName exitCode

/-- Decide what happens after a member of a drained group failed. -/
def handleGroupStepFailure (stepName : String) (exitCode : Int) : EngineM IterationOutcome := do
  modifyState fun run => { run with currentStepName := some stepName }
  engine.handleStepFailure stepName exitCode

/-- Record the exit of a single step. -/
def finalizeStep (stepName : String) (exitCode : Int) : EngineM StepOutcome := do
  let _ ← ofExcept (engine.findStep stepName)
  setStatus stepName (if exitCode = 0 then .succeeded else .failed exitCode none)
  persist
  let run ← getState
  pure ⟨stepName, exitCode, (engine.unfinishedSteps run).length⟩

/-- Ask the container of the single step that runs to stop. -/
def killCurrentContainer (cancelHandle : Option Nat) : EngineM Unit := do
  markFocusedKilled
  match cancelHandle with
  | some handle => cancelContainer handle
  | none => pure ()

/-- Kill the container unless its exit was already seen. -/
def killUnlessFinished (alreadyFinished : Option (Except String Int))
    (cancelHandle : Option Nat) : EngineM Unit :=
  match alreadyFinished with
  | some _ => pure ()
  | none => killCurrentContainer cancelHandle

/-- See whether the wait of the single step has resolved. -/
def pollWait (handle : Nat) : EngineM (Option (Except String Int)) := do
  let exit ← receive fun | .polled exit => some exit | _ => none
  match exit with
  | some result => do
      setFocusedExecution true
      containerGone handle
      pure (some result)
  | none => pure none

/-- Go on waiting, or finish the step if its exit was already seen. -/
def resumeMidStep (stepName : String) (alreadyFinished : Option (Except String Int)) :
    EngineM MidStepOutcome := do
  match alreadyFinished with
  | some result => do
      let exitCode ← orOther result
      let outcome ← engine.finalizeStep stepName exitCode
      pure (.stepCompleted outcome)
  | none => pure .continue

/-- Show the control board while a step runs, and carry out the answer. -/
def handleMidStepControlBoard (stepName : String) (handle : Nat) (cancelHandle : Option Nat) :
    EngineM MidStepOutcome := do
  let run ← getState
  ofExcept (engine.computeAvailableActions run)
  let action ← showControlBoard .midStep (engine.previousStepName run)
  let alreadyFinished ← pollWait handle
  match action with
  | .dismiss | .retryFailedStep _ => engine.resumeMidStep stepName alreadyFinished
  | .continueInCurrentContainer _ => do
      let run ← getState
      if run.activeSteps.head?.any (·.execution) then do
        let _ ← receive fun | .injected result => some result | _ => none
        engine.resumeMidStep stepName alreadyFinished
      else
        engine.resumeMidStep stepName alreadyFinished
  | .pause => do
      killUnlessFinished alreadyFinished cancelHandle
      setStatus stepName .pending
      persist
      pure (.workflowEnded .paused)
  | .abort => do
      killUnlessFinished alreadyFinished cancelHandle
      engine.markUnfinished .cancelled
      persist
      pure (.workflowEnded .aborted)
  | .finishWorkflow => do
      let run ← getState
      if engine.workflowCanFinish run then do
        killUnlessFinished alreadyFinished cancelHandle
        engine.markUnfinished .skipped
        persist
        pure (.workflowEnded .completed)
      else
        fail (.invalidAdvanceAction
          "FinishWorkflow only valid on the last step or once every step is terminal")
  | .launchNext => do
      killUnlessFinished alreadyFinished cancelHandle
      setStatus stepName .succeeded
      persist
      pure .loopContinue
  | .restartCurrentStep => do
      killUnlessFinished alreadyFinished cancelHandle
      setStatus stepName .pending
      persist
      pure .loopContinue
  | .cancelToPreviousStep => do
      killUnlessFinished alreadyFinished cancelHandle
      match engine.previousStepName (← getState) with
      | some prev => do
          setStatus stepName .cancelled
          setStatus prev .pending
          persist
          pure .loopContinue
      | none => pure .loopContinue

/-- Mark the current step cancelled and run the step before it again. -/
def handleCancelToPrevious : EngineM Unit := do
  let run ← getState
  match engine.previousStepName run with
  | some prev => do
      match run.currentStepName with
      | some curr => setStatus curr .cancelled
      | none => pure ()
      setStatus prev .pending
      persist
  | none => fail (.invalidAdvanceAction "no previous step to cancel to")

/-- Hand the next step's prompt to the container that is still there. -/
def handleContinueInCurrentContainer : EngineM Unit := do
  let run ← getState
  match ← ofExcept (engine.nextReadyStep run) with
  | none => fail (.invalidAdvanceAction "ContinueInCurrentContainer: no next step is ready")
  | some nextStep => do
      let nextAgent ← ofExcept (engine.resolveAgent nextStep)
      if run.currentStepAgent = some nextAgent ∧
          run.currentStepModel = engine.resolveModel nextStep then
        if run.activeSteps.head?.any (·.execution) then do
          match ← orOther (← receive fun | .injected result => some result | _ => none) with
          | true => do
              setStatus nextStep.name .succeeded
              modifyState fun run => { run with currentStepName := some nextStep.name }
              persist
          | false => fail (.invalidAdvanceAction ("container backend does not support prompt " ++
              "injection; use LaunchNext to start a fresh container"))
        else
          fail (.invalidAdvanceAction "no container execution is available to inject into")
      else
        fail (.invalidAdvanceAction ("ContinueInCurrentContainer requires the same agent and " ++
          "model for the current and next steps"))

/-- Run the current step again. -/
def restartCurrent : EngineM Unit := do
  let run ← getState
  match run.currentStepName with
  | some name => do
      setStatus name .pending
      persist
  | none => pure ()

/-- Carry out the answer to a board shown between steps. -/
def executeTopLevelAction (action : NextAction) : EngineM InterruptibleStepResult :=
  match action with
  | .dismiss | .launchNext | .retryFailedStep _ => pure .loopContinue
  | .finishWorkflow => do
      let outcome ← engine.handleFinishWorkflow
      pure (.workflowEnded outcome)
  | .pause => do
      persist
      pure (.workflowEnded .paused)
  | .abort => do
      let outcome ← engine.handleAbort
      pure (.workflowEnded outcome)
  | .restartCurrentStep => do
      restartCurrent
      pure .loopContinue
  | .cancelToPreviousStep => do
      engine.handleCancelToPrevious
      pure .loopContinue
  | .continueInCurrentContainer _ => do
      engine.handleContinueInCurrentContainer
      pure .loopContinue

end WorkflowEngine

end Awman.Engine
