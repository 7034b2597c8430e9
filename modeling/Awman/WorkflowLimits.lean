import Awman.WorkflowFleet

/-!
# Bounds on slots, queue and containers

Most of the engine leaves the fleet alone.  The sequential path has at most one container, and a
parallel group stays within its cap with each step in one place: every way to fill a slot takes the
step from the place it had.
-/

namespace Awman.Engine

open Awman.Interaction

/-- A program that leaves the fleet alone, wherever it returns or stops. -/
abbrev Framed {α : Type} (program : EngineM α) (run : RunState) : Prop :=
  Ensures program run (fun _ after => after.fleet = run.fleet)
    (fun after => after.fleet = run.fleet)

/-- The fleet of a run is within limits, and its containers are apart. -/
def Limited (run : RunState) : Prop :=
  run.fleet.WithinLimits ∧ run.fleet.Apart

variable {halt : RunState → Prop}

/-- Follow a program that leaves the fleet alone. -/
theorem Framed.then {α : Type} {program : EngineM α} {run : RunState} {post : α → RunState → Prop}
    (h : Framed program run) (hhalt : ∀ after, after.fleet = run.fleet → halt after)
    (hpost : ∀ a after, after.fleet = run.fleet → post a after) :
    Ensures program run post halt :=
  h.mono hpost hhalt

section Frames

variable {engine : WorkflowEngine} {run : RunState}

/-- An abort leaves the fleet alone. -/
theorem handleAbort_framed : Framed engine.handleAbort run :=
  .change (.bind (persist_ensures rfl (.pure rfl)))

/-- So does a finish from the board. -/
theorem handleFinishWorkflow_framed : Framed engine.handleFinishWorkflow run := by
  refine .read ?_
  split
  · exact .change (.bind (persist_ensures rfl (.pure rfl)))
  · exact .fail rfl

/-- So does a failure. -/
theorem failWorkflow_framed {stepName : String} {exitCode : Int} {message : String} :
    Framed (engine.failWorkflow stepName exitCode message) run :=
  .change (.bind (setStatus_ensures (.bind (persist_ensures rfl (.pure rfl)))))

/-- So does a board about a failed step. -/
theorem handleStepFailureInteractive_framed {stepName : String} {exitCode : Int} :
    Framed (engine.handleStepFailureInteractive stepName exitCode) run := by
  refine .loop (fun before => before.fleet = run.fleet) ?_ (fun _ hbefore => hbefore) rfl
  intro before hbefore
  refine .read (.bind (showControlBoard_ensures hbefore fun action => ?_))
  cases action with
  | restartCurrentStep =>
    exact .bind (setStatus_ensures (.bind (persist_ensures hbefore (.pure hbefore))))
  | cancelToPreviousStep =>
    dsimp only
    split
    · exact .pure hbefore
    · refine .bind (setStatus_ensures (.bind (setStatus_ensures ?_)))
      exact .bind (persist_ensures hbefore (.pure hbefore))
  | launchNext =>
    dsimp only
    split
    · exact .pure hbefore
    · exact .bind (setStatus_ensures (.bind (persist_ensures hbefore (.pure hbefore))))
  | abort =>
    refine .bind (handleAbort_framed.then (fun _ hsame => hsame.trans hbefore) ?_)
    exact fun _ _ hsame => .pure (hsame.trans hbefore)
  | pause => exact .bind (persist_ensures hbefore (.pure hbefore))
  | dismiss | finishWorkflow | continueInCurrentContainer | retryFailedStep => exact .pure hbefore

theorem runFailureRetryCountdown_framed : Framed WorkflowEngine.runFailureRetryCountdown run :=
  runFailureRetryCountdown_ensures (fun _ => rfl) fun _ _ => rfl

theorem resetSiblings_framed {names : List String} : Framed (engine.resetSiblings names) run := by
  refine Ensures.forEach (fun _ (before : RunState) => before.fleet = run.fleet) ?_ rfl
  intro name rest before hbefore
  exact .bind (setStatus_ensures (.bind (.ofExcept hbefore fun _ _ => .pure hbefore)))

theorem recoverAuthFailure_framed {stepName : String} :
    Framed (WorkflowEngine.recoverAuthFailure stepName) run := by
  refine .read ?_
  split
  · exact .pure rfl
  · split
    · refine .bind (.receive rfl fun _ => .bind (orOther_ensures rfl fun recovered => ?_))
      cases recovered with
      | false => exact .pure rfl
      | true => exact .change (.pure rfl)
    · exact .pure rfl

theorem prepareStepLaunch_framed {step : WorkflowStep} :
    Framed (engine.prepareStepLaunch step) run :=
  .bind (.ofExcept rfl fun _ _ => .read (.change (.pure rfl)))

theorem finalizeStep_framed {stepName : String} {exitCode : Int} :
    Framed (engine.finalizeStep stepName exitCode) run := by
  refine .bind (.ofExcept rfl fun _ _ => .bind (setStatus_ensures ?_))
  exact .bind (persist_ensures rfl (.read (.pure rfl)))

theorem handleCancelToPrevious_framed : Framed engine.handleCancelToPrevious run := by
  refine .read ?_
  split
  · split
    · refine .bind (setStatus_ensures (.bind (setStatus_ensures ?_)))
      exact persist_ensures rfl rfl
    · exact .bind (setStatus_ensures (persist_ensures rfl rfl))
  · exact .fail rfl

theorem handleContinueInCurrentContainer_framed :
    Framed engine.handleContinueInCurrentContainer run := by
  refine .read (.bind (.ofExcept rfl fun next _ => ?_))
  cases next with
  | none => exact .fail rfl
  | some nextStep =>
    refine .bind (.ofExcept rfl fun nextAgent _ => ?_)
    split
    · split
      · refine .bind (.receive rfl fun _ => .bind (orOther_ensures rfl fun injected => ?_))
        cases injected with
        | false => exact .fail rfl
        | true =>
          refine .bind (setStatus_ensures (.change ?_))
          exact persist_ensures rfl rfl
      · exact .fail rfl
    · exact .fail rfl

theorem restartCurrent_framed : Framed WorkflowEngine.restartCurrent run := by
  refine .read ?_
  split
  · exact .bind (setStatus_ensures (persist_ensures rfl rfl))
  · exact .pure rfl

/-- So does every action between two steps. -/
theorem executeTopLevelAction_framed {action : NextAction} :
    Framed (engine.executeTopLevelAction action) run := by
  cases action with
  | dismiss | launchNext | retryFailedStep => exact .pure rfl
  | finishWorkflow =>
    exact .bind (handleFinishWorkflow_framed.then (fun _ hsame => hsame) fun _ _ hsame =>
      .pure hsame)
  | pause => exact .bind (persist_ensures rfl (.pure rfl))
  | abort =>
    exact .bind (handleAbort_framed.then (fun _ hsame => hsame) fun _ _ hsame => .pure hsame)
  | restartCurrentStep =>
    exact .bind (restartCurrent_framed.then (fun _ hsame => hsame) fun _ _ hsame => .pure hsame)
  | cancelToPreviousStep =>
    exact .bind (handleCancelToPrevious_framed.then (fun _ hsame => hsame) fun _ _ hsame =>
      .pure hsame)
  | continueInCurrentContainer _ =>
    exact .bind (handleContinueInCurrentContainer_framed.then (fun _ hsame => hsame)
      fun _ _ hsame => .pure hsame)

end Frames

section Sequential

variable {engine : WorkflowEngine} {run : RunState}

/-- Between two steps no container is alive. -/
def Quiet (run : RunState) : Prop :=
  run.fleet.Idle

theorem Quiet.limited (h : Quiet run) : Limited run :=
  ⟨Fleet.withinLimits_of_idle h.group h.slots, h.apart⟩

variable {after : RunState}

theorem Quiet.frame (h : Quiet run) (hsame : after.fleet = run.fleet) : Quiet after := by
  unfold Quiet
  rw [hsame]
  exact h

/-- Follow a program that leaves a quiet fleet alone. -/
theorem Framed.quiet {α : Type} {program : EngineM α} {post : α → RunState → Prop}
    (h : Framed program run) (hquiet : Quiet run) (hpost : ∀ a after, Quiet after → post a after) :
    Ensures program run post Limited :=
  h.then (fun _ hsame => (hquiet.frame hsame).limited) fun a _ hsame =>
    hpost a _ (hquiet.frame hsame)

/-- Telling containers to stop leaves a quiet fleet quiet. -/
theorem Quiet.stopped (h : Quiet run) : Quiet { run with
    containers := tellToStop (run.activeSteps.map (·.handle)) run.containers
    activeSteps := [] } :=
  Fleet.Idle.told h

/-- A cancellation leaves no container running. -/
theorem cancelRun_quiet (h : Quiet run) :
    Ensures engine.cancelRun run (fun _ after => Quiet after) Limited := by
  refine .change (.change (.change ?_))
  refine .change (.bind (persist_ensures ?_ (.pure ?_)))
  · exact h.stopped.limited
  · exact h.stopped

theorem handleStepFailureUnattended_quiet {stepName : String} {exitCode : Int} (h : Quiet run) :
    Ensures (engine.handleStepFailureUnattended stepName exitCode) run
      (fun _ after => Quiet after) Limited := by
  refine .read ?_
  split
  · exact failWorkflow_framed.quiet h fun _ _ hafter => hafter
  · refine .bind (runFailureRetryCountdown_framed.quiet h fun countdown after hafter => ?_)
    refine .bind (cancelRequested_ensures hafter.limited fun fired => ?_)
    split
    · exact .map (cancelRun_quiet hafter)
    · cases countdown with
      | cancel => exact failWorkflow_framed.quiet hafter fun _ _ hended => hended
      | «continue» | advanceNow =>
        refine .change (.bind (setStatus_ensures ?_))
        exact .bind (persist_ensures hafter.limited (.pure hafter))

/-- Nor does the decision about a failed step. -/
theorem handleStepFailure_quiet {stepName : String} {exitCode : Int} (h : Quiet run) :
    Ensures (engine.handleStepFailure stepName exitCode) run (fun _ after => Quiet after)
      Limited := by
  refine .bind (cancelRequested_ensures h.limited fun fired => ?_)
  split
  · exact .map (cancelRun_quiet h)
  · split
    · exact handleStepFailureInteractive_framed.quiet h fun _ _ hafter => hafter
    · exact handleStepFailureUnattended_quiet h

/-- Nor do those of a group. -/
theorem handleGroupFailures_quiet {failed : List (String × Int)} (h : Quiet run) :
    Ensures (engine.handleGroupFailures failed) run (fun _ after => Quiet after) Limited := by
  induction failed generalizing run with
  | nil => exact .pure h
  | cons entry rest ih =>
    obtain ⟨name, exitCode⟩ := entry
    have hfirst : Ensures (engine.handleGroupStepFailure name exitCode) run
        (fun _ after => Quiet after) Limited :=
      .change (handleStepFailure_quiet h)
    refine .seq hfirst ?_
    intro result after hafter
    cases result with
    | «continue» => exact ih hafter
    | ended outcome => exact .pure hafter

/-- The single step of a handle runs or has ended. -/
def OneStep (handle : Nat) (cancelHandle : Option Nat) (run : RunState) : Prop :=
  run.fleet.Solo handle cancelHandle

variable {handle : Nat} {cancelHandle : Option Nat}

theorem OneStep.limited (h : OneStep handle cancelHandle run) : Limited run :=
  ⟨Fleet.withinLimits_of_idle h.group h.slots, h.apart⟩

theorem OneStep.frame (h : OneStep handle cancelHandle run) (hsame : after.fleet = run.fleet) :
    OneStep handle cancelHandle after := by
  unfold OneStep
  rw [hsame]
  exact h

theorem Quiet.oneStep (h : Quiet run) (handle : Nat) (cancelHandle : Option Nat) :
    OneStep handle cancelHandle run :=
  Fleet.Idle.solo h handle cancelHandle

/-- Marking the focused slot keeps the number of slots. -/
theorem length_mark_focused {change : ActiveParallelStep → ActiveParallelStep}
    (slots : List ActiveParallelStep) :
    (match slots with
      | [] => []
      | slot :: rest => change slot :: rest).length = slots.length := by
  cases slots <;> rfl

section

variable (h : OneStep handle cancelHandle run)
include h

/-- The step's own container ended, and its slot holds the execution again. -/
theorem OneStep.gone : Quiet { run with
    activeSteps := match run.activeSteps with
      | [] => []
      | slot :: rest => { slot with execution := true } :: rest
    containers := run.containers.filter fun c => c.handle ≠ handle } :=
  Fleet.Solo.exited h ((length_mark_focused run.activeSteps).trans_le h.slots)

/-- A killed container leaves none behind. -/
theorem killCurrentContainer_quiet {post : Unit → RunState → Prop}
    (hpost : ∀ slots containers, Quiet { run with
      activeSteps := slots, containers := containers } → post () { run with
        activeSteps := slots, containers := containers }) :
    Ensures (WorkflowEngine.killCurrentContainer cancelHandle) run post halt := by
  have hone : (match run.activeSteps with
      | [] => []
      | slot :: rest => { slot with awmanKilled := true } :: rest).length ≤ 1 :=
    (length_mark_focused run.activeSteps).trans_le h.slots
  have htold := Fleet.Solo.told h hone
  refine .change ?_
  cases cancelHandle with
  | none =>
    simp only [Option.toList_none, Fleet.tellToStop_nil] at htold
    exact .pure (hpost _ run.containers htold)
  | some killed => exact cancelContainer_ensures (hpost _ _ htold)

/-- Once the exit was seen the container is gone; otherwise it is told to stop. -/
theorem killUnlessFinished_quiet {exit : Option (Except String Int)}
    {post : Unit → RunState → Prop} (hexit : exit.isSome = true → Quiet run)
    (hpost : ∀ slots containers, Quiet { run with
      activeSteps := slots, containers := containers } → post () { run with
        activeSteps := slots, containers := containers }) :
    Ensures (WorkflowEngine.killUnlessFinished exit cancelHandle) run post halt := by
  cases exit with
  | none => exact killCurrentContainer_quiet h hpost
  | some _ => exact .pure (hpost run.activeSteps run.containers (hexit rfl))

theorem pollWait_oneStep {post : Option (Except String Int) → RunState → Prop}
    (hpost : ∀ exit slots containers,
      OneStep handle cancelHandle { run with activeSteps := slots, containers := containers } →
      (exit.isSome = true → Quiet { run with
        activeSteps := slots, containers := containers }) →
      post exit { run with activeSteps := slots, containers := containers }) :
    Ensures (WorkflowEngine.pollWait handle) run post Limited := by
  refine .bind (.receive h.limited fun exit => ?_)
  cases exit with
  | none =>
    refine .pure (hpost none run.activeSteps run.containers h ?_)
    exact fun hsome => by cases hsome
  | some result =>
    have hgone := h.gone
    refine .change (.bind (containerGone_ensures (.pure ?_)))
    exact hpost _ _ _ (hgone.oneStep handle cancelHandle) fun _ => hgone

end

/-- What holds after a board shown while a step runs: the step goes on only if the engine goes on
waiting for it. -/
def MidStepQuiet (handle : Nat) (cancelHandle : Option Nat) (outcome : MidStepOutcome)
    (run : RunState) : Prop :=
  match outcome with
  | .continue => OneStep handle cancelHandle run
  | _ => Quiet run

theorem resumeMidStep_quiet {stepName : String} {exit : Option (Except String Int)}
    (h : OneStep handle cancelHandle run) (hexit : exit.isSome = true → Quiet run) :
    Ensures (engine.resumeMidStep stepName exit) run (MidStepQuiet handle cancelHandle)
      Limited := by
  cases exit with
  | none => exact .pure h
  | some result =>
    have hquiet := hexit rfl
    refine .bind (orOther_ensures hquiet.limited fun exitCode => ?_)
    exact .bind (finalizeStep_framed.quiet hquiet fun _ _ hafter => .pure hafter)

/-- The board of a running step starts nothing beside it. -/
theorem handleMidStepControlBoard_quiet {stepName : String} (h : OneStep handle cancelHandle run) :
    Ensures (engine.handleMidStepControlBoard stepName handle cancelHandle) run
      (MidStepQuiet handle cancelHandle) Limited := by
  refine .read (.bind (.ofExcept h.limited fun _ _ => ?_))
  refine .bind (showControlBoard_ensures h.limited fun action => ?_)
  have hlogged : OneStep handle cancelHandle { run with
      log := .boardAnswered .midStep (engine.previousStepName run) action :: run.log } := h
  refine .bind (pollWait_oneStep hlogged fun exit slots containers hpolled hexit => ?_)
  cases action with
  | dismiss | retryFailedStep => exact resumeMidStep_quiet hpolled hexit
  | continueInCurrentContainer _ =>
    refine .read ?_
    split
    · exact .bind (.receive hpolled.limited fun _ => resumeMidStep_quiet hpolled hexit)
    · exact resumeMidStep_quiet hpolled hexit
  | pause | launchNext | restartCurrentStep =>
    refine .bind (killUnlessFinished_quiet hpolled hexit fun _ _ hkilled => ?_)
    refine .bind (setStatus_ensures ?_)
    exact .bind (persist_ensures hkilled.limited (.pure hkilled))
  | abort =>
    refine .bind (killUnlessFinished_quiet hpolled hexit fun _ _ hkilled => ?_)
    refine .change ?_
    exact .bind (persist_ensures hkilled.limited (.pure hkilled))
  | finishWorkflow =>
    refine .read ?_
    split
    · refine .bind (killUnlessFinished_quiet hpolled hexit fun _ _ hkilled => ?_)
      refine .change ?_
      exact .bind (persist_ensures hkilled.limited (.pure hkilled))
    · exact .fail hpolled.limited
  | cancelToPreviousStep =>
    refine .bind (killUnlessFinished_quiet hpolled hexit fun _ _ hkilled => ?_)
    refine .read ?_
    split
    · refine .bind (setStatus_ensures (.bind (setStatus_ensures ?_)))
      exact .bind (persist_ensures hkilled.limited (.pure hkilled))
    · exact .pure hkilled

/-- What preparing and starting a container leaves of the fleet: it is as it was, or a container was
started for the step. -/
def SpawnedFrom (run : RunState) (name : String) (after : RunState) : Prop :=
  after.fleet = run.fleet ∨
    ∃ handle isRunning ended, after.fleet = run.fleet.spawned name handle isRunning ended

/-- Spawning a container adds it, if it runs, drops the ones that had ended, and changes nothing
else of the fleet. -/
theorem spawnPreparedStep_spawns {step : WorkflowStep} {prepared : PreparedStepLaunch}
    {post : Except EngineError StepLaunch → RunState → Prop}
    (hhalt : ∀ after, SpawnedFrom run step.name after → halt after)
    (herror : ∀ error after, SpawnedFrom run step.name after → post (.error error) after)
    (hok : ∀ launch after ended,
      after.fleet = run.fleet.spawned step.name launch.handle launch.execution.running ended →
        post (.ok launch) after) :
    Ensures (WorkflowEngine.spawnPreparedStep step prepared) run post halt := by
  refine .bind (setStatus_ensures ?_)
  refine .bind (tryPersist_ensures (hhalt _ (.inl rfl)) (fun _ => .pure (herror _ _ (.inl rfl))) ?_)
  refine .bind (.bind (record_ensures (.receive (hhalt _ (.inl rfl)) fun result => ?_)))
  cases result with
  | error message =>
    refine .bind (setStatus_ensures (.bind (tryPersist_ensures (hhalt _ (.inl rfl)) ?_ ?_)))
    · exact fun _ => .pure (herror _ _ (.inl rfl))
    · exact .pure (herror _ _ (.inl rfl))
  | ok started =>
    obtain ⟨execution, ended⟩ := started
    refine .bind (.read (.change (.pure ?_)))
    refine .bind (setStatus_ensures (.change ?_))
    refine .bind (tryPersist_ensures (hhalt _ (.inr ⟨_, execution.running, ended, rfl⟩)) ?_ ?_)
    · exact fun _ => .pure (herror _ _ (.inr ⟨_, execution.running, ended, rfl⟩))
    · exact .pure (hok _ _ ended rfl)

/-- A container for a quiet fleet is the only one that was not told to stop. -/
theorem Quiet.spawned {name : String} {isRunning : Bool} {ended : List Nat} (h : Quiet run)
    (hafter : after.fleet = run.fleet.spawned name handle isRunning ended) :
    OneStep handle (if isRunning then some handle else none) after := by
  unfold OneStep
  rw [hafter]
  exact Fleet.Idle.spawned h

/-- A start stays within limits where no container is kept. -/
theorem Quiet.spawnedFrom {name : String} (h : Quiet run) (hafter : SpawnedFrom run name after) :
    Limited after := by
  rcases hafter with hsame | ⟨handle, isRunning, ended, hspawned⟩
  · exact (h.frame hsame).limited
  · exact (h.spawned hspawned).limited

/-- After a launch the step's slot names its container. -/
theorem launchStep_oneStep (h : Quiet run) :
    Ensures engine.launchStep run (fun _ after => ∃ slot, after.activeSteps = [slot] ∧
      OneStep slot.handle (if slot.cancelHandle then some slot.handle else none) after)
      Limited := by
  refine .read ?_
  split
  · exact .fail h.limited
  · refine .bind (.ofExcept h.limited fun step _ => ?_)
    refine .bind (prepareStepLaunch_framed.quiet h fun prepared ready hready => ?_)
    refine .bind (spawnPreparedStep_spawns ?_ ?_ ?_)
    · exact fun _ hspawned => hready.spawnedFrom hspawned
    · exact fun _ _ hspawned => .bind (.fail (hready.spawnedFrom hspawned))
    · intro launch after ended hspawned
      have hone := hready.spawned hspawned
      refine .bind (.pure (.change (.pure ⟨_, rfl, ?_⟩)))
      exact ⟨hone.group, le_refl 1, hone.handles, hone.apart⟩

theorem driveYoloCountdown_framed : Framed WorkflowEngine.driveYoloCountdown run :=
  driveYoloCountdown_ensures (fun _ => rfl) fun _ _ => rfl

/-- A step that exited leaves nothing running. -/
theorem stepExited_quiet {stepName : String} {result : Except String Int}
    (h : OneStep handle cancelHandle run) :
    Ensures (engine.stepExited stepName handle result) run (fun _ after => Quiet after)
      Limited := by
  have hgone := h.gone
  refine .change (.bind (containerGone_ensures ?_))
  refine .bind (orOther_ensures hgone.limited fun _ => ?_)
  exact finalizeStep_framed.quiet hgone fun _ _ hafter => hafter

/-- What holds after one signal of a single step: the step goes on only if the engine goes on
waiting for it. -/
def SignalQuiet (handle : Nat) (cancelHandle : Option Nat)
    (result : Option InterruptibleStepResult) (run : RunState) : Prop :=
  match result with
  | none => OneStep handle cancelHandle run
  | some _ => Quiet run

section

variable {stepName : String} (h : OneStep handle cancelHandle run)
include h

theorem midStepBoard_quiet :
    Ensures (do
      let outcome ← engine.handleMidStepControlBoard stepName handle cancelHandle
      pure outcome.toResult) run (SignalQuiet handle cancelHandle) Limited := by
  refine .seq (handleMidStepControlBoard_quiet h) fun outcome after hafter => .pure ?_
  cases outcome <;> exact hafter

/-- A step that is stuck stays the only one. -/
theorem handleStepStuck_quiet :
    Ensures (engine.handleStepStuck stepName handle cancelHandle) run
      (SignalQuiet handle cancelHandle) Limited := by
  refine .read ?_
  split
  · refine .bind (driveYoloCountdown_framed.then (fun _ hsame => (h.frame hsame).limited) ?_)
    intro result after hsame
    have hafter := h.frame hsame
    cases result with
    | stepCompleted exit =>
      exact .map (stepExited_quiet hafter)
    | showControlBoard => exact midStepBoard_quiet hafter
    | cancelled | recovered => exact .pure hafter
    | advanced =>
      refine .bind (killCurrentContainer_quiet hafter fun slots containers hkilled => ?_)
      refine .bind (setStatus_ensures (.bind (persist_ensures hkilled.limited ?_)))
      refine .bind (.ofExcept hkilled.limited fun _ _ => .read ?_)
      split
      · refine .bind (.ofExcept hkilled.limited fun _ _ => ?_)
        refine .bind (showControlBoard_ensures hkilled.limited fun action => ?_)
        exact .bind (executeTopLevelAction_framed.quiet hkilled fun _ _ hdone => .pure hdone)
      · exact .pure hkilled
  · exact midStepBoard_quiet h

theorem stepIteration_quiet :
    Ensures (engine.stepIteration stepName handle cancelHandle) run
      (SignalQuiet handle cancelHandle) Limited := by
  refine stepIteration_ensures h.limited h (fun _ => stepExited_quiet h) ?_ (.modifyState ?_)
    (handleStepStuck_quiet h) (midStepBoard_quiet h)
  · have hseen : OneStep handle cancelHandle { run with cancel := true } := h
    exact killCurrentContainer_quiet hseen fun _ _ hkilled => cancelRun_quiet hkilled
  · refine ⟨h.group, ?_, h.handles, h.apart⟩
    exact (length_mark_focused run.activeSteps).trans_le h.slots

end

/-- A step runs alone, and leaves nothing running. -/
theorem stepOnceInterruptible_quiet (h : Quiet run) :
    Ensures engine.stepOnceInterruptible run (fun _ after => Quiet after) Limited := by
  refine .seq (launchStep_oneStep h) ?_
  rintro stepName after ⟨slot, hslots, hafter⟩
  refine .read (.change ?_)
  rw [hslots]
  refine .loop (OneStep slot.handle (if slot.cancelHandle then some slot.handle else none)) ?_
    (fun _ hbefore => hbefore.limited) ⟨hafter.group, le_refl 1, hafter.handles, hafter.apart⟩
  intro before hbefore
  have hhandle : ((some slot).filter (·.cancelHandle)).map (·.handle) =
      if slot.cancelHandle then some slot.handle else none := by
    cases hcancel : slot.cancelHandle <;> simp [hcancel]
  change Ensures (engine.stepIteration stepName slot.handle
    (((some slot).filter (·.cancelHandle)).map (·.handle))) before _ _
  rw [hhandle]
  refine (stepIteration_quiet hbefore).mono ?_ fun _ hlimited => hlimited
  intro result _ hdone
  cases result <;> exact hdone

theorem singleStepFailed_quiet {outcome : StepOutcome} (h : Quiet run) :
    Ensures (engine.singleStepFailed outcome) run (fun _ after => Quiet after) Limited := by
  refine .bind (cancelRequested_ensures h.limited fun fired => ?_)
  have hseen : Quiet { run with cancel := fired } := h
  split
  · exact .map (cancelRun_quiet hseen)
  · refine .bind (recoverAuthFailure_framed.quiet hseen fun recovered after hafter => ?_)
    split
    · exact .bind (setStatus_ensures (.bind (persist_ensures hafter.limited (.pure hafter))))
    · refine .bind (.ofExcept hafter.limited fun step _ => ?_)
      split
      · refine .change (.change ?_)
        exact .bind (persist_ensures hafter.limited (.pure hafter))
      · exact handleStepFailure_quiet hafter

theorem singleStepSucceeded_quiet (h : Quiet run) :
    Ensures engine.singleStepSucceeded run (fun _ after => Quiet after) Limited := by
  refine singleStepSucceeded_ensures h.limited h fun action => ?_
  refine executeTopLevelAction_framed.quiet h fun result after hafter => ?_
  cases result with
  | stepCompleted => trivial
  | workflowEnded | loopContinue => exact hafter

/-- An iteration of one step leaves nothing running. -/
theorem runSingleStepIteration_quiet (h : Quiet run) :
    Ensures engine.runSingleStepIteration run (fun _ after => Quiet after) Limited := by
  refine .seq (stepOnceInterruptible_quiet h) ?_
  intro result after hafter
  cases result with
  | workflowEnded | loopContinue => exact .pure hafter
  | stepCompleted outcome =>
    dsimp only
    split
    · exact singleStepFailed_quiet hafter
    · exact singleStepSucceeded_quiet hafter

end Sequential

end Awman.Engine
