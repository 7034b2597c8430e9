import Awman.Library.Interaction
import Awman.WorkflowEngine
import Awman.WorkflowPhaseSteps

/-!
# The phase runner

One runner executes the setup and the teardown steps, with retries while a pushed branch is not
indexed yet and with `on_failure` agents.  Everything the runner waits for is an answer of the
environment, and with each answer the cancellation token may fire, so `cancels` records every moment
at which it did.  `started` records each command and each CI poll with the token at its start.
-/

namespace Awman.Engine

open Awman.Prompt (WorkItemContext)
open Awman.Interaction

variable {S : Type}

/-- An `on_failure` entry. -/
structure RemediationConfig where
  agent : Option String
  /-- How often the step is tried again. -/
  maxAttempts : Nat
deriving DecidableEq, Repr

/-- What a command left behind. -/
structure ExecOutput where
  stdout : String
  stderr : String
  exitCode : Int
deriving DecidableEq, Repr

/-- The report on a CI run that failed. -/
structure CiFailure where
  /-- The failed jobs, steps and log tails. -/
  report : String
  failedJobs : List String
deriving DecidableEq, Repr

/-- Why a poll did not see CI pass. -/
structure PollFailure where
  error : String
  /-- The failed CI run, if one concluded. -/
  failure : Option CiFailure
deriving DecidableEq, Repr

/-- What a phase as a whole did. -/
structure PhaseOutcome where
  /-- A step that must not fail did. -/
  aborted : Bool := false
  /-- At least one step failed. -/
  anyFailed : Bool := false
  /-- A cancel stopped the phase. -/
  cancelled : Bool := false
deriving DecidableEq, Repr

/-- How one phase is run. -/
structure PhaseRunOptions where
  /-- Keep the entries that ended. -/
  resume : Bool := false
  /-- The steps to record as skipped; missing entries run. -/
  skip : List Bool := []
  /-- Whether a failed step may launch its agent. -/
  allowRemediation : Bool := false
  /-- Whether a cancel stops the phase before its next step. -/
  observeCancel : Bool := false
deriving DecidableEq, Repr

/-- The outcome of one step. -/
structure PhaseStepOutcome where
  hasFailed : Bool
  exitCode : Option Int
  stdout : String
  stderr : String
  /-- The CI jobs a poll saw fail. -/
  ciFailedJobs : List String
deriving DecidableEq, Repr

namespace PhaseStepOutcome

/-- A step that did not fail. -/
def succeeded : PhaseStepOutcome :=
  ⟨false, some 0, "", "", []⟩

/-- A step that failed without an exit code. -/
def failed (stdout stderr : String) : PhaseStepOutcome :=
  ⟨true, none, stdout, stderr, []⟩

/-- A step whose command failed. -/
def exited (exitCode : Int) (stdout stderr : String) : PhaseStepOutcome :=
  ⟨true, some exitCode, stdout, stderr, []⟩

end PhaseStepOutcome

/-- The waits between two attempts to open a pull request, in seconds. -/
def prBranchNotIndexedRetryDelays : List Nat :=
  [3, 5, 10, 15]

/-- Whether a pull request failed because the pushed branch is not indexed yet.  An interactive run
merges both streams, so both are searched. -/
def prBranchNotYetIndexed (outcome : PhaseStepOutcome) : Bool :=
  let marker := "No commits between"
  decide (marker.toList <:+: outcome.stderr.toList) ||
    decide (marker.toList <:+: outcome.stdout.toList)

/-- What a failed poll hands its agent when no CI run had failed. -/
def noCiFailureReport : String :=
  "poll_ci recorded no failed CI run for this commit, so there are no failed jobs or log tails " ++
    "to show; the error below is why the poll stopped."

/-- The outcome of a failed poll. -/
def pollCiFailureOutcome (error : String) (failure : Option CiFailure)
    (redact : String → String) : PhaseStepOutcome :=
  match failure with
  | some failure =>
    { PhaseStepOutcome.failed (redact failure.report) error with
      ciFailedJobs := failure.failedJobs }
  | none => .failed noCiFailureReport error

/-- The moments at which a phase run waits for its environment. -/
inductive PhaseMoment (S : Type) where
  | phaseSaved
  /-- A skipped step was saved. -/
  | skipSaved
  | startSaved (step : S) (saved : Bool)
  | startAnnounced (step : S)
  | containerAsked (step : S) (started : Bool)
  | commandEnded (step : S)
  /-- The wait before another attempt at a pull request was over. -/
  | retryWaited (delay : Nat)
  | pollEnded (step : S)
  | failureSaved
  /-- A step under repair was saved. -/
  | fixingSaved
  /-- The `on_failure` agent ended. -/
  | agentEnded
  | fixContainerAsked (step : S)
  | fixCommandEnded (step : S)
  | retrySaved (step : S)
  | successSaved
  /-- The frontend was told what became of a step. -/
  | outcomeAnnounced
deriving DecidableEq

/-- A command or a CI poll that was started. -/
structure StartedCommand (S : Type) where
  /-- The position of the step. -/
  index : Nat
  step : S
  /-- Whether the token had fired. -/
  cancelRequested : Bool
deriving DecidableEq

/-- What the environment answers. -/
inductive PhaseReply where
  /-- The result of writing the state file. -/
  | saved (result : Except DataError Unit)
  | container (result : Except String Unit)
  | executed (result : Except String ExecOutput)
  | polled (result : Except PollFailure Unit)
  /-- Something without a result is over. -/
  | done

/-- An answer, and whether the cancellation token fired before it arrived. -/
structure PhaseAnswer where
  reply : PhaseReply
  /-- Whether the token fired. -/
  cancels : Bool := false

/-- The changing part of a phase run. -/
structure PhaseRun (S : Type) where
  state : WorkflowState
  /-- Whether a setup abort ended the run. -/
  abortOnFailureTriggered : Bool
  /-- Whether the token has fired. -/
  cancelRequested : Bool
  /-- The moments at which the token fired, latest first. -/
  cancels : List (PhaseMoment S)
  /-- The commands and polls that were started, latest first. -/
  started : List (StartedCommand S)

/-- A phase run that has not done anything. -/
def PhaseRun.start (state : WorkflowState) (cancelRequested : Bool) : PhaseRun S :=
  ⟨state, false, cancelRequested, [], []⟩

/-- The token fires. -/
def PhaseRun.cancelAt (run : PhaseRun S) (moment : PhaseMoment S) : PhaseRun S :=
  { run with cancelRequested := true, cancels := moment :: run.cancels }

/-- A command or a poll starts. -/
def PhaseRun.startCommand (run : PhaseRun S) (idx : Nat) (step : S) : PhaseRun S :=
  { run with started := ⟨idx, step, run.cancelRequested⟩ :: run.started }

/-- The programs of a phase. -/
abbrev PhaseM (S : Type) :=
  Program PhaseAnswer (PhaseRun S) EngineError

/-- The fixed part of an engine, as far as a phase reads it. -/
structure PhaseEngine where
  templates : PromptTemplates
  workItemContext : Option WorkItemContext
  workflowAgent : Option String
  /-- Hide secrets in a text. -/
  redact : String → String

namespace WorkflowState

/-- The records of a phase's steps. -/
def phaseStepStates (state : WorkflowState) : PhaseKind → List PhaseStepState
  | .setup => state.setupStepStates
  | .teardown => state.teardownStepStates

/-- Replace the records of a phase's steps. -/
def setPhaseStepStates (state : WorkflowState) (kind : PhaseKind)
    (states : List PhaseStepState) : WorkflowState :=
  match kind with
  | .setup => { state with setupStepStates := states }
  | .teardown => { state with teardownStepStates := states }

/-- Mark a phase as completed. -/
def setPhaseCompleted (state : WorkflowState) : PhaseKind → WorkflowState
  | .setup => { state with setupCompleted := true }
  | .teardown => { state with teardownCompleted := true }

/-- Leave a phase.  An aborted or cancelled setup did not finish, so that a resumed run repeats it;
teardown is the last phase and always completes. -/
def leavePhase (state : WorkflowState) (kind : PhaseKind) (outcome : PhaseOutcome) :
    WorkflowState :=
  if !(outcome.aborted || outcome.cancelled) || kind == .teardown then
    { state.setPhaseCompleted kind with currentPhase := kind.nextWorkflowPhase }
  else
    state

/-- Record the status of a phase step. -/
def setPhaseStepStatus (state : WorkflowState) (kind : PhaseKind) (idx : Nat)
    (status : PhaseStepStatus) : WorkflowState :=
  state.setPhaseStepStates kind
    ((state.phaseStepStates kind).modify idx fun record => { record with status := status })

variable [PhaseStepSpec S]

/-- Refresh the descriptions of a phase without losing the statuses, unless the number of steps
changed. -/
def refreshPhaseStates (state : WorkflowState) (kind : PhaseKind) (steps : List S) :
    WorkflowState :=
  let states := state.phaseStepStates kind
  if states.length = steps.length then
    state.setPhaseStepStates kind (states.zipWith
      (fun record step => { record with description := PhaseStepSpec.description step }) steps)
  else
    state.setPhaseStepStates kind
      (steps.map fun step => ⟨PhaseStepSpec.description step, .pending⟩)

/-- Refresh the descriptions of a phase and start every step over. -/
def resetOrRebuildPhaseStates (state : WorkflowState) (kind : PhaseKind) (steps : List S) :
    WorkflowState :=
  let refreshed := state.refreshPhaseStates kind steps
  refreshed.setPhaseStepStates kind
    ((refreshed.phaseStepStates kind).map fun record => { record with status := .pending })

/-- Sit in a phase whose steps are declared. -/
def enterPhase (state : WorkflowState) (kind : PhaseKind) (steps : List S) (resume : Bool) :
    WorkflowState :=
  let entered := { state with currentPhase := kind.workflowPhase }
  if resume then entered.refreshPhaseStates kind steps
  else entered.resetOrRebuildPhaseStates kind steps

end WorkflowState

/-- Whether a step with this status is not repeated when a phase is resumed. -/
def PhaseStepStatus.hasEnded : PhaseStepStatus → Bool
  | .succeeded | .skipped | .failed _ => true
  | .pending | .running | .remediating _ _ => false

namespace PhaseEngine

/-- Wait for an answer; the token may fire in the meantime. -/
def ask {α : Type} (accept : PhaseReply → Option α) (moment : α → PhaseMoment S) :
    PhaseM S α := do
  let (reply, cancels) ← receive fun answer =>
    (accept answer.reply).map fun reply => (reply, answer.cancels)
  if cancels then
    modifyState fun run => run.cancelAt (moment reply)
  pure reply

/-- Whether the token has fired. -/
def cancelRequested : PhaseM S Bool := do
  let run ← getState
  pure run.cancelRequested

/-- Save the state; the caller decides what a failure means. -/
def trySave (moment : Bool → PhaseMoment S) : PhaseM S (Except DataError Unit) :=
  ask (fun
    | .saved result => some result
    | _ => none) fun result => moment result.toBool

/-- Save the state or fail. -/
def persist (moment : Bool → PhaseMoment S) : PhaseM S Unit := do
  let saved ← trySave moment
  ofExcept (saved.mapError .data)

/-- Tell the frontend something. -/
def announce (moment : PhaseMoment S) : PhaseM S Unit :=
  ask (fun
    | .done => some ()
    | _ => none) fun _ => moment

/-- Ask the caller for the container of a step. -/
def containerForStep (moment : Bool → PhaseMoment S) : PhaseM S (Except String Unit) :=
  ask (fun
    | .container result => some result
    | _ => none) fun result => moment result.toBool

/-- Run the command of a step in its container. -/
def execStreaming (idx : Nat) (step : S) (moment : PhaseMoment S) :
    PhaseM S (Except String ExecOutput) := do
  modifyState fun run => run.startCommand idx step
  ask (fun
    | .executed result => some result
    | _ => none) fun _ => moment

/-- Poll CI for a step. -/
def poll (idx : Nat) (step : S) : PhaseM S (Except PollFailure Unit) := do
  modifyState fun run => run.startCommand idx step
  ask (fun
    | .polled result => some result
    | _ => none) fun _ => .pollEnded step

/-- Record the status of a step. -/
def setPhaseStepStatus (kind : PhaseKind) (idx : Nat) (status : PhaseStepStatus) :
    PhaseM S Unit :=
  modifyState fun run => { run with state := run.state.setPhaseStepStatus kind idx status }

/-- Record a step as failed. -/
def setPhaseStepFailed (engine : PhaseEngine) (kind : PhaseKind) (idx : Nat) (error : String) :
    PhaseM S Unit := do
  setPhaseStepStatus kind idx (.failed (engine.redact error))
  let _ ← trySave fun _ => .failureSaved

/-- Execute the command of a step. -/
def runShellPhaseStep (engine : PhaseEngine) (kind : PhaseKind) (step : S) (idx : Nat) :
    PhaseM S PhaseStepOutcome := do
  match ← execStreaming idx step (.commandEnded step) with
  | .error e =>
    let error := engine.redact e
    setPhaseStepFailed engine kind idx error
    pure (.failed "" error)
  | .ok output =>
    let stdout := engine.redact output.stdout
    let stderr := engine.redact output.stderr
    if output.exitCode ≠ 0 then
      setPhaseStepFailed engine kind idx stderr
      pure (.exited output.exitCode stdout stderr)
    else
      pure { PhaseStepOutcome.succeeded with stdout := stdout, stderr := stderr }

/-- Execute a `poll_ci` step. -/
def runPollCiPhaseStep (engine : PhaseEngine) (kind : PhaseKind) (step : S) (idx : Nat) :
    PhaseM S PhaseStepOutcome := do
  match ← poll idx step with
  | .error e =>
    let error := engine.redact e.error
    setPhaseStepFailed engine kind idx error
    pure (pollCiFailureOutcome error e.failure engine.redact)
  | .ok () => pure .succeeded

/-- Try to open a pull request again while the pushed branch is not indexed. -/
def retryPullRequest (engine : PhaseEngine) (kind : PhaseKind) (step : S) (idx : Nat) :
    List Nat → PhaseStepOutcome → PhaseM S PhaseStepOutcome
  | [], result => pure result
  | delay :: delays, result => do
      if !(result.hasFailed && prBranchNotYetIndexed result) || (← cancelRequested) then
        pure result
      else
        -- The token is not looked at again after the wait.
        announce (.retryWaited delay)
        let again ← runShellPhaseStep engine kind step idx
        retryPullRequest engine kind step idx delays again

/-- The agent name an `on_failure` entry resolves to. -/
def onFailureAgentName (engine : PhaseEngine) (config : RemediationConfig) :
    Except DataError AgentName :=
  AgentName.new ((config.agent.or engine.workflowAgent).getD "claude")

/-- Launch the `on_failure` agent and wait for it.  Its exit code is ignored, and it is not launched
under an invalid name. -/
def launchOnFailureAgent (engine : PhaseEngine) (config : RemediationConfig) : PhaseM S Unit :=
  match engine.onFailureAgentName config with
  | .error _ => pure ()
  | .ok _ => announce .agentEnded

variable [PhaseStepSpec S]

/-- Execute one step. -/
def runSinglePhaseStep (engine : PhaseEngine) (kind : PhaseKind) (step : S) (idx : Nat) :
    PhaseM S PhaseStepOutcome :=
  match PhaseStepSpec.pollCi step with
  | some _ => runPollCiPhaseStep engine kind step idx
  | none => do
      match ← containerForStep (.containerAsked step) with
      | .ok () =>
        let result ← runShellPhaseStep engine kind step idx
        if kind = .teardown ∧ PhaseStepSpec.createsPullRequest step = true then
          retryPullRequest engine kind step idx prBranchNotIndexedRetryDelays result
        else
          pure result
      | .error e =>
        let error := engine.redact e
        setPhaseStepFailed engine kind idx error
        pure (.failed "" error)

/-- Run the earlier commit and push steps again, so that a fix reaches the remote.  The first that
fails ends it. -/
def republishCiFix (failedJobs : List String) : List (S × Nat) → PhaseM S Unit
  | [] => pure ()
  | (step, idx) :: rest => do
      let run := (PhaseStepSpec.forCiFix failedJobs step).getD step
      match ← containerForStep (fun _ => .fixContainerAsked run) with
      | .error _ => pure ()
      | .ok () =>
        match ← execStreaming idx run (.fixCommandEnded run) with
        | .error _ => pure ()
        | .ok output =>
          if output.exitCode = 0 then republishCiFix failedJobs rest else pure ()

/-- Repair a failed step: launch the agent and try the step again, `left` more times. -/
def runPhaseRemediation (engine : PhaseEngine) (kind : PhaseKind) (config : RemediationConfig)
    (step : S) (idx : Nat) (republish : List (S × Nat)) :
    Nat → PhaseStepOutcome → PhaseM S PhaseStepOutcome
  | 0, last => pure last
  | left + 1, last => do
      if ← cancelRequested then
        pure last
      else
        let attempt := config.maxAttempts - left
        setPhaseStepStatus kind idx (.remediating attempt config.maxAttempts)
        let _ ← trySave fun _ => .fixingSaved
        announce .outcomeAnnounced
        launchOnFailureAgent engine config
        if ← cancelRequested then
          setPhaseStepFailed engine kind idx "cancelled during on_failure remediation"
          pure last
        else
          republishCiFix last.ciFailedJobs republish
          setPhaseStepStatus kind idx .running
          let _ ← trySave fun _ => .retrySaved step
          let outcome ← runSinglePhaseStep engine kind step idx
          if outcome.hasFailed then
            runPhaseRemediation engine kind config step idx republish left outcome
          else
            pure outcome

/-- The earlier steps that bring local work to the remote. -/
def republishSteps (steps : List S) (idx : Nat) (step : S) : List (S × Nat) :=
  if (PhaseStepSpec.pollCi step).isSome then
    (steps.take idx).zipIdx.filter fun (earlier, _) => PhaseStepSpec.republishesCiFix earlier
  else
    []

/-- Run a step and, if it fails, its `on_failure` agent. -/
def runPhaseStep (engine : PhaseEngine) (kind : PhaseKind) (steps : List S)
    (onFailureConfigs : List (Option RemediationConfig)) (options : PhaseRunOptions) (step : S)
    (idx : Nat) : PhaseM S PhaseStepOutcome := do
  let outcome ← runSinglePhaseStep engine kind step idx
  if outcome.hasFailed && options.allowRemediation && !(← cancelRequested) then
    match (onFailureConfigs[idx]?).join with
    | some config =>
      runPhaseRemediation engine kind config step idx (republishSteps steps idx step)
        config.maxAttempts outcome
    | none => pure outcome
  else
    pure outcome

/-- What the runner does with the next step of a phase. -/
inductive PhaseStepPlan where
  /-- It ended before the phase was resumed. -/
  | keep
  /-- A cancel stops the phase before it. -/
  | stop
  /-- It is recorded as skipped. -/
  | skip
  | run
deriving DecidableEq

/-- Decide about the next step.  A cancel during teardown turns the rest of it into cleanup, so
nothing that publishes the cancelled work runs. -/
def planPhaseStep (kind : PhaseKind) (options : PhaseRunOptions) (step : S) (idx : Nat)
    (run : PhaseRun S) : PhaseStepPlan :=
  if options.resume && ((run.state.phaseStepStates kind)[idx]?).any (·.status.hasEnded) then .keep
  else if options.observeCancel && run.cancelRequested then .stop
  else if options.skip.getD idx false ||
      (kind == .teardown && run.cancelRequested && PhaseStepSpec.publishes step) then .skip
  else .run

/-- Record what became of a step.  The second component is whether the phase goes on. -/
def finishPhaseStep (kind : PhaseKind) (options : PhaseRunOptions) (abort : Bool) (idx : Nat)
    (stepOutcome : PhaseStepOutcome) (outcome : PhaseOutcome) :
    PhaseM S (PhaseOutcome × Bool) := do
  let cancelled ← cancelRequested
  -- A setup step that failed after a cancel belongs to the cancelled run: no abort policy applies.
  if stepOutcome.hasFailed && options.observeCancel && cancelled then
    pure ({ outcome with cancelled := true }, false)
  else if stepOutcome.hasFailed then
    announce .outcomeAnnounced
    if abort then
      modifyState fun run =>
        { run with abortOnFailureTriggered := run.abortOnFailureTriggered || kind == .setup }
      pure ({ outcome with anyFailed := true, aborted := true }, false)
    else
      pure ({ outcome with anyFailed := true }, true)
  else
    setPhaseStepStatus kind idx .succeeded
    persist fun _ => .successSaved
    announce .outcomeAnnounced
    pure (outcome, true)

/-- Run the steps that are left of a phase. -/
def runPhaseSteps (engine : PhaseEngine) (kind : PhaseKind) (steps : List S)
    (abortFlags : List Bool) (onFailureConfigs : List (Option RemediationConfig))
    (options : PhaseRunOptions) : List (S × Nat) → PhaseOutcome → PhaseM S PhaseOutcome
  | [], outcome => pure outcome
  | (step, idx) :: rest, outcome => do
      let run ← getState
      let noted := { outcome with
        cancelled := outcome.cancelled || (kind == .teardown && run.cancelRequested) }
      match planPhaseStep kind options step idx run with
      | .keep => runPhaseSteps engine kind steps abortFlags onFailureConfigs options rest outcome
      | .stop => pure { outcome with cancelled := true }
      | .skip =>
        setPhaseStepStatus kind idx .skipped
        persist fun _ => .skipSaved
        announce .outcomeAnnounced
        runPhaseSteps engine kind steps abortFlags onFailureConfigs options rest noted
      | .run =>
        setPhaseStepStatus kind idx .running
        persist (.startSaved step)
        announce (.startAnnounced step)
        let stepOutcome ← runPhaseStep engine kind steps onFailureConfigs options step idx
        let (outcome, goesOn) ← finishPhaseStep kind options (abortFlags.getD idx false) idx
          stepOutcome noted
        if goesOn then
          runPhaseSteps engine kind steps abortFlags onFailureConfigs options rest outcome
        else
          pure outcome

/-- Enter a phase. -/
def enterPhase (kind : PhaseKind) (steps : List S) (options : PhaseRunOptions) : PhaseM S Unit := do
  modifyState fun run => { run with state := run.state.enterPhase kind steps options.resume }
  persist fun _ => .phaseSaved

/-- Leave a phase. -/
def leavePhase (kind : PhaseKind) (outcome : PhaseOutcome) : PhaseM S Unit := do
  modifyState fun run => { run with state := run.state.leavePhase kind outcome }
  persist fun _ => .phaseSaved

/-- Run one phase. -/
def runPhaseWith (engine : PhaseEngine) (steps : List S) (abortFlags : List Bool)
    (onFailureConfigs : List (Option RemediationConfig)) (options : PhaseRunOptions) :
    PhaseM S PhaseOutcome := do
  let kind := PhaseStepSpec.kind S
  let steps := steps.map (PhaseStepSpec.substitute engine.templates engine.workItemContext)
  enterPhase kind steps options
  let outcome ←
    runPhaseSteps engine kind steps abortFlags onFailureConfigs options steps.zipIdx {}
  let cancelled ← cancelRequested
  let outcome :=
    { outcome with cancelled := outcome.cancelled || (kind == .teardown && cancelled) }
  leavePhase kind outcome
  pure outcome

/-- Run a phase.  A cancel stops setup between two steps and turns the rest of teardown into
cleanup. -/
def runPhase (engine : PhaseEngine) (steps : List S) (abortFlags : List Bool)
    (onFailureConfigs : List (Option RemediationConfig)) : PhaseM S PhaseOutcome :=
  runPhaseWith engine steps abortFlags onFailureConfigs
    { allowRemediation := true, observeCancel := PhaseStepSpec.kind S == .setup }

/-- Teardown after a cancel: what publishes is recorded as skipped. -/
def runTeardownCancelled (engine : PhaseEngine) (steps : List TeardownStep)
    (abortFlags : List Bool) : PhaseM TeardownStep PhaseOutcome := do
  let outcome ← runPhaseWith engine steps abortFlags []
    { skip := steps.map fun step => !step.runsWhenCancelled }
  pure { outcome with cancelled := true }

/-- Finish an interrupted cancelled teardown without repeating the steps that ended. -/
def resumeTeardownCancelled (engine : PhaseEngine) (steps : List TeardownStep)
    (abortFlags : List Bool) : PhaseM TeardownStep PhaseOutcome :=
  runPhaseWith engine steps abortFlags []
    { resume := true, skip := steps.map fun step => !step.runsWhenCancelled }

end PhaseEngine

end Awman.Engine
