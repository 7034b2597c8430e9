import Awman.WorkflowSingleStep

/-!
# Parallel groups and the outer loop

A parallel group launches the ready steps up to a cap, keeps the rest in a queue, and drives the
live containers until all slots are empty.  The outer loop runs groups and single steps until the
state is complete or an answer ends the run.
-/

namespace Awman.Engine

open Awman.Interaction

/-- How a parallel group ended. -/
inductive GroupOutcome where
  /-- Every slot is empty; the failures wait for their decisions. -/
  | drained (failed : List (String × Int))
  | ended (outcome : WorkflowOutcome)
  /-- The group was reset; look for the next steps. -/
  | rewound

/-- What a request asks of a running group. -/
inductive ParallelRequestOutcome where
  | continue
  | ended (outcome : WorkflowOutcome)
  /-- Run one member again in a fresh container. -/
  | restartStep (stepName : String)
  /-- The group was reset. -/
  | rewound

/-- Wait for a signal while a group runs.  Only a pending wait can resolve, and only the watcher of
a launch of this group can report. -/
def nextGroupSignal : EngineM (Nat × GroupSignal) := do
  let run ← getState
  let (now, signal) ← receive fun
    | .group now (.exited wait result) =>
      if wait ∈ run.group.waits then some (now, GroupSignal.exited wait result) else none
    | .group now (.stuck stepName launchId event) =>
      if run.group.launched.any (fun wait =>
          wait.stepName = stepName ∧ wait.launchId = launchId) then
        some (now, .stuck stepName launchId event)
      else
        none
    | .group now signal => some (now, signal)
    | _ => none
  match signal with
  | .cancelled => modifyState fun run => { run with cancel := true }
  | .exited wait _ => do
      modifyState fun run =>
        { run with group := { run.group with waits := run.group.waits.erase wait } }
      containerGone wait.handle
  | _ => pure ()
  pure (now, signal)

/-- Change the first slot of a step. -/
def modifySlot (stepName : String) (change : ActiveParallelStep → ActiveParallelStep)
    (slots : List ActiveParallelStep) : List ActiveParallelStep :=
  match slots with
  | [] => []
  | slot :: rest =>
    if slot.stepName = stepName then change slot :: rest
    else slot :: modifySlot stepName change rest

/-- Change the slots. -/
def modifySlots (change : List ActiveParallelStep → List ActiveParallelStep) : EngineM Unit :=
  modifyState fun run => { run with activeSteps := change run.activeSteps }

/-- Change the queue of the group. -/
def setQueue (queue : List WorkflowStep) : EngineM Unit :=
  modifyState fun run => { run with group := { run.group with queue := queue } }

/-- Change the failures of the group. -/
def setFailed (failed : List (String × Int)) : EngineM Unit :=
  modifyState fun run => { run with group := { run.group with failed := failed } }

/-- What a watcher's report does to a slot of its step. -/
def StuckEvent.applyTo (event : StuckEvent) (yolo : Bool) (deadline : Nat)
    (slot : ActiveParallelStep) : ActiveParallelStep :=
  match event with
  | .stuck =>
    if yolo then
      match slot.yoloDeadline with
      | none => { slot with yoloDeadline := some deadline }
      | some _ => slot
    else
      { slot with stuck := true }
  | .unstuck => { slot with yoloDeadline := none, stuck := false }
  | .startupGraceExpired => { slot with awmanKilled := true }

/-- Ask every container of the group to stop and forget its slot; return the steps that ran. -/
def killActiveParallelSteps : EngineM (List String) := do
  let run ← getState
  WorkflowEngine.stopActiveAgents
  pure (run.activeSteps.map (·.stepName))

/-- Move the slot at a position to the front and the front slot to its place. -/
def swapToFront (position : Nat) (slots : List ActiveParallelStep) : List ActiveParallelStep :=
  match slots[0]?, slots[position]? with
  | some first, some focused => (slots.set 0 focused).set position first
  | _, _ => slots

/-- Make a step the focused one, if it has a slot. -/
def focusParallelStep (stepName : String) : EngineM Unit :=
  modifyState fun run =>
    match run.activeSteps.find? fun slot => slot.stepName = stepName with
    | none => run
    | some slot => { run with
        activeSteps := swapToFront (run.activeSteps.findIdx fun slot => slot.stepName = stepName)
          run.activeSteps
        currentStepName := some slot.stepName
        currentStepAgent := some slot.agent
        currentStepModel := slot.model }

/-- Ask the container of a step's first slot to stop and forget the slot, if the step has one. -/
def releaseSlot (stepName : String) : EngineM Unit :=
  modifyState fun run =>
    match run.activeSteps.find? fun slot => slot.stepName = stepName with
    | none => run
    | some slot => { run with
        containers := tellToStop [slot.handle] run.containers
        activeSteps := run.activeSteps.eraseP fun slot => slot.stepName = stepName }

namespace WorkflowEngine

variable (engine : WorkflowEngine)

/-- Reset the steps of a failed launch's siblings. -/
def resetSiblings (names : List String) : EngineM Unit :=
  forEach names fun name => do
    setStatus name .pending
    let _ ← ofExcept (engine.findStep name)
    pure ()

/-- Launch one step of the group into a slot.  A launch error stops the other containers and ends
the group. -/
def launchParallelStep (step : WorkflowStep) : EngineM Unit := do
  let prepared ← engine.prepareStepLaunch step
  match ← spawnPreparedStep step prepared with
  | .error error => do
      let live ← killActiveParallelSteps
      engine.resetSiblings live
      let _ ← tryPersist
      fail error
  | .ok launch =>
    modifyState fun run =>
      let wait : ParallelWait := ⟨step.name, run.nextLaunchId, launch.handle⟩
      { run with
        nextLaunchId := run.nextLaunchId + 1
        group := { run.group with
          waits := wait :: run.group.waits
          launched := wait :: run.group.launched }
        activeSteps := run.activeSteps ++ [{
          stepName := step.name
          execution := false
          cancelHandle := launch.execution.running
          containerName := launch.execution.name
          handle := launch.handle
          awmanKilled := false
          stuck := false
          yoloDeadline := none
          agent := launch.agent
          model := launch.model
          launchId := run.nextLaunchId }] }

/-- Launch the next queued step if a slot is free; report whether one was launched. -/
def launchFromQueue : EngineM Bool := do
  let run ← getState
  if run.activeSteps.length < run.group.slotCap then
    match run.group.queue with
    | [] => pure false
    | next :: rest => do
        setQueue rest
        engine.launchParallelStep next
        pure true
  else
    pure false

/-- Launch the initial batch. -/
def launchInitialBatch : EngineM Unit :=
  loop do
    if ← engine.launchFromQueue then
      pure none
    else
      pure (some ())

/-- Handle a watcher's report for a step. -/
def handleParallelStuckEvent (now : Nat) (stepName : String) (event : StuckEvent) :
    EngineM Unit :=
  modifySlots (modifySlot stepName
    (event.applyTo engine.settings.yolo (now + engine.settings.yoloCountdownDuration)))

/-- End the group because the run was cancelled. -/
def cancelParallelGroup : EngineM WorkflowOutcome := do
  stopActiveAgents
  engine.cancelRun

/-- End the run because a member failed that ends the workflow, or the user aborted. -/
def abortParallelGroup : EngineM WorkflowOutcome := do
  modifyState fun run => { run with abortOnFailureTriggered := true }
  let _ ← killActiveParallelSteps
  engine.markUnfinished .cancelled
  persist
  pure .aborted

/-- End the run with the running members pending. -/
def pauseParallelGroup : EngineM WorkflowOutcome := do
  let killed ← killActiveParallelSteps
  modifyState fun run => { run with state := run.state.setStatuses killed .pending }
  persist
  pure .paused

/-- Kill a slot of the group and mark its step succeeded, then fill the slot from the queue. -/
def yoloAdvanceParallel (stepName : String) (launchQueued : Bool) : EngineM Unit := do
  releaseSlot stepName
  setStatus stepName .succeeded
  let _ ← ofExcept (engine.findStep stepName)
  persist
  if launchQueued then do
    let _ ← engine.launchFromQueue
    pure ()
  else
    pure ()

/-- Drive every countdown one tick. -/
def tickParallelYolo (now : Nat) (launchQueued : Bool) : EngineM Unit := do
  let run ← getState
  let ticking := run.activeSteps.filterMap fun slot =>
    slot.yoloDeadline.map fun deadline => (slot.stepName, deadline)
  forEach ticking fun (stepName, deadline) => do
    match ← yoloCountdownTick with
    | (.cancel, _) =>
      modifySlots (modifySlot stepName fun slot => { slot with yoloDeadline := none })
    | (.advanceNow, _) => engine.yoloAdvanceParallel stepName launchQueued
    | (.continue, _) =>
      if deadline ≤ now then engine.yoloAdvanceParallel stepName launchQueued else pure ()

/-- Run one member again in a fresh container, or queue it first if no slot is free. -/
def restartParallelStep (stepName : String) : EngineM Unit := do
  releaseSlot stepName
  let run ← getState
  setQueue (run.group.queue.filter fun step => step.name ≠ stepName)
  let step ← ofExcept (engine.findStep stepName)
  if run.activeSteps.length < run.group.slotCap then
    engine.launchParallelStep step
  else do
    setStatus stepName .pending
    persist
    let run ← getState
    setQueue (step :: run.group.queue)

/-- End the group with some steps pending. -/
def rewindParallelGroup (names : List String) : EngineM Unit := do
  let _ ← killActiveParallelSteps
  engine.resetSiblings names
  persist

/-- End the group with every member that has not succeeded passed over. -/
def skipParallelGroup (members : List String) : EngineM Unit := do
  let _ ← killActiveParallelSteps
  forEach members fun name => do
    let run ← getState
    if run.state.statusOf name = some .succeeded then
      pure ()
    else do
      setStatus name .skipped
      let _ ← ofExcept (engine.findStep name)
      pure ()
  persist

/-- Put a follow-up question about the group. -/
def askParallelGroup : EngineM ParallelGroupDecision :=
  if engine.settings.parallelGroupPrompts then do
    orOther (← receive fun | .groupDecision result => some result | _ => none)
  else
    pure .keepRunning

/-- Carry out a board answer that acts on the whole group. -/
def resolveParallelGroupAction (action : NextAction) (members : List String) :
    EngineM ParallelRequestOutcome :=
  match action with
  | .restartCurrentStep => do
      match ← engine.askParallelGroup with
      | .restartWholeGroup => do
          engine.rewindParallelGroup members
          pure .rewound
      | .restartOneAgent => do
          match ← engine.askParallelGroup with
          | .restartStep name =>
            if name ∈ members then pure (.restartStep name) else pure .continue
          | _ => pure .continue
      | _ => pure .continue
  | .cancelToPreviousStep =>
    let backTo := engine.dependenciesOf members
    if backTo = [] then
      pure .continue
    else do
      match ← engine.askParallelGroup with
      | .cancelGroup => do
          engine.rewindParallelGroup
            ((backTo ++ engine.dependentsOf backTo ++ members).insertionSort (· ≤ ·)).dedup
          pure .rewound
      | _ => pure .continue
  | .launchNext => do
      match ← engine.askParallelGroup with
      | .cancelGroup => do
          engine.skipParallelGroup members
          pure .rewound
      | _ => pure .continue
  | _ => pure .continue

/-- Route a frontend's request while a group runs. -/
def handleParallelEngineRequest (now : Nat) (request : EngineRequest) (members : List String)
    (retryable : Option String) : EngineM ParallelRequestOutcome :=
  match request with
  | .stepStuck stepName => do
      engine.handleParallelStuckEvent now stepName .stuck
      pure .continue
  | .stepUnstuck stepName => do
      engine.handleParallelStuckEvent now stepName .unstuck
      pure .continue
  | .openControlBoard stepName => do
      focusParallelStep stepName
      let run ← getState
      ofExcept (engine.computeAvailableActions run)
      let action ← showControlBoard .parallelGroup (engine.previousStepName run)
      match action with
      | .pause => do
          let outcome ← pauseParallelGroup
          pure (.ended outcome)
      | .abort => do
          let outcome ← engine.abortParallelGroup
          pure (.ended outcome)
      | .retryFailedStep name =>
        if retryable = some name then pure (.restartStep name) else pure .continue
      | .restartCurrentStep | .cancelToPreviousStep | .launchNext =>
        if engine.settings.parallelGroupPrompts then
          engine.resolveParallelGroupAction action members
        else
          pure .continue
      | .dismiss | .finishWorkflow | .continueInCurrentContainer _ => pure .continue

/-- What follows the recorded exit of a member. -/
def afterParallelExit (step : WorkflowStep) (exitCode : Int) (authRecovered : Bool) :
    EngineM (Option GroupOutcome) := do
  if ← cancelRequested then do
    let outcome ← engine.cancelParallelGroup
    pure (some (.ended outcome))
  else do
    let run ← getState
    if authRecovered then do
      setQueue (step :: run.group.queue)
      let _ ← engine.launchFromQueue
      pure none
    else if exitCode ≠ 0 then
      if step.abortOnFailure then do
        let outcome ← engine.abortParallelGroup
        pure (some (.ended outcome))
      else do
        setFailed (run.group.failed ++ [(step.name, exitCode)])
        pure none
    else if run.group.failed = [] then do
      let _ ← engine.launchFromQueue
      pure none
    else
      pure none

/-- A failed exit looks for an authentication failure first. -/
def recoverFailedExit (stepName : String) (exitCode : Int) : EngineM Bool :=
  if exitCode ≠ 0 then recoverAuthFailure stepName else pure false

/-- A failed exit that raced a cancel belongs to the cancelled run. -/
def cancelledFailedExit (exitCode : Int) : EngineM Bool :=
  if exitCode ≠ 0 then cancelRequested else pure false

/-- Record the exit of a live member. -/
def recordParallelExit (stepName : String) (exitCode : Int) : EngineM (Option GroupOutcome) := do
  let authRecovered ← recoverFailedExit stepName exitCode
  modifySlots fun slots => slots.filter fun slot => slot.stepName ≠ stepName
  let step ← ofExcept (engine.findStep stepName)
  setStatus stepName
    (if exitCode = 0 then .succeeded
      else if authRecovered then .pending
      else .failed exitCode none)
  persist
  engine.afterParallelExit step exitCode authRecovered

/-- The wait of a launch resolved.  A wait whose slot is gone or belongs to a newer launch is
passed over. -/
def handleParallelExit (wait : ParallelWait) (result : Except String Int) :
    EngineM (Option GroupOutcome) := do
  let run ← getState
  if run.activeSteps.any fun slot =>
      slot.stepName = wait.stepName ∧ slot.launchId = wait.launchId then
    if ← cancelRequested then do
      let outcome ← engine.cancelParallelGroup
      pure (some (.ended outcome))
    else do
      let exitCode ← orOther result
      if ← cancelledFailedExit exitCode then do
        let outcome ← engine.cancelParallelGroup
        pure (some (.ended outcome))
      else
        engine.recordParallelExit wait.stepName exitCode
  else
    pure none

/-- The exit of a launch was delivered. -/
def deliverExit (wait : ParallelWait) (result : Except String Int) :
    EngineM (Option GroupOutcome) := do
  let before ← getState
  let outcome ← engine.handleParallelExit wait result
  let after ← getState
  record (.exitHandled wait (before.view wait.stepName) (after.view wait.stepName))
  pure outcome

/-- A watcher's report of a launch was delivered. -/
def deliverStuckEvent (now : Nat) (stepName : String) (launchId : Nat) (event : StuckEvent) :
    EngineM Unit := do
  let before ← getState
  engine.handleParallelStuckEvent now stepName event
  let after ← getState
  record (.stuckHandled stepName launchId event (before.view stepName) (after.view stepName))

/-- One pass of the group loop. -/
def groupIteration (members : List String) : EngineM (Option GroupOutcome) := do
  let run ← getState
  if run.activeSteps = [] then
    pure (some (.drained run.group.failed))
  else do
    match ← nextGroupSignal with
    | (_, .exited wait result) => engine.deliverExit wait result
    | (_, .cancelled) => do
        let outcome ← engine.cancelParallelGroup
        pure (some (.ended outcome))
    | (now, .stuck stepName launchId event) => do
        engine.deliverStuckEvent now stepName launchId event
        pure none
    | (now, .request request) => do
        let run ← getState
        let retryable := run.group.failed.head?.map Prod.fst
        match ← engine.handleParallelEngineRequest now request members retryable with
        | .continue => pure none
        | .ended outcome => pure (some (.ended outcome))
        | .rewound => pure (some .rewound)
        | .restartStep name => do
            let run ← getState
            setFailed (run.group.failed.filter fun entry => entry.1 ≠ name)
            engine.restartParallelStep name
            pure none
    | (now, .elapsed) => do
        let run ← getState
        engine.tickParallelYolo now (run.group.failed = [])
        pure none

/-- Run a whole parallel group. -/
def runParallelGroup (ready : List WorkflowStep) : EngineM GroupOutcome := do
  let members := ready.map WorkflowStep.name
  let slotCap := match engine.settings.maxConcurrent with
    | some n => max n 1
    | none => max ready.length 1
  modifyState fun run => { run with
    activeSteps := []
    group := { ParallelGroup.idle with slotCap := slotCap, queue := ready } }
  engine.launchInitialBatch
  let outcome ← loop (engine.groupIteration members)
  modifyState fun run => { run with group := .idle }
  pure outcome

/-- Decide each failure of a drained group in turn. -/
def handleGroupFailures : List (String × Int) → EngineM IterationOutcome
  | [] => pure .continue
  | (name, exitCode) :: rest => do
      match ← engine.handleGroupStepFailure name exitCode with
      | .continue => handleGroupFailures rest
      | .ended outcome => pure (.ended outcome)

/-- Run the steps that are ready now, in a group or singly. -/
def runReadySteps : EngineM IterationOutcome := do
  let run ← getState
  let ready ← ofExcept (engine.nextReadySteps run)
  if 1 < ready.length ∧ engine.settings.maxConcurrent ≠ some 1 then
    match ← engine.runParallelGroup ready with
    | .ended outcome => pure (.ended outcome)
    | .rewound => pure .continue
    | .drained failed => engine.handleGroupFailures failed
  else
    engine.runSingleStepIteration

/-- One pass of the outer loop. -/
def runIteration : EngineM (Option WorkflowOutcome) := do
  if ← cancelRequested then do
    let outcome ← engine.cancelRun
    pure (some outcome)
  else do
    let run ← getState
    if run.state.isComplete then
      pure (some .completed)
    else
      match ← engine.runReadySteps with
      | .continue => pure none
      | .ended outcome => pure (some outcome)

/-- Run every step until the workflow ends, an answer ends it, or a step fails for good. -/
def runToCompletion : EngineM WorkflowOutcome :=
  loop engine.runIteration

end WorkflowEngine

end Awman.Engine
