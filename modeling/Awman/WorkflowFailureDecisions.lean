import Awman.WorkflowFailures

/-!
# Failures are decided before the run goes on

A failure is decided by an answer to a board of its own, or by the one retry that a step gets when nobody can
be asked.  No container is started until then.  So a pass of the sequential path that goes on leaves no step
failed, and neither do the decisions on the failures of a group.
-/

namespace Awman.Engine

open Awman.Interaction

/-- Whether an event is the start of a container. -/
def RunEvent.isLaunch : RunEvent → Bool
  | .launched _ _ => true
  | _ => false

/-- No container was started in between. -/
def SameLaunches (before after : RunState) : Prop :=
  after.log.filter RunEvent.isLaunch = before.log.filter RunEvent.isLaunch

/-- The status that an answer to a failure board gives the failed step, if it decides the failure. -/
def NextAction.decision : NextAction → Option StepState
  | .restartCurrentStep | .cancelToPreviousStep => some .pending
  | .launchNext => some .skipped
  | _ => none

/-- The failure of the step the engine is at was decided: the board that was shown for it was answered, or
nobody can be asked and the step is retried for the first time. -/
inductive FailureDecided (engine : WorkflowEngine) (name : String) (before after : RunState) : Prop where
  | answered (action : NextAction) (status : StepState) (events : List RunEvent)
      (hasked : engine.settings.supportsInteractiveRecovery = true)
      (hlog : after.log = events ++ before.log)
      (hboard : .boardAnswered .failure (engine.previousStepName before) action ∈ events)
      (hdecision : action.decision = some status) (hstatus : after.state.statusOf name = some status)
  | retried (hunattended : engine.settings.supportsInteractiveRecovery = false)
      (hfirst : name ∉ before.autoRetriedSteps) (hretried : name ∈ after.autoRetriedSteps)
      (hstatus : after.state.statusOf name = some .pending)

/-- What an attempt to decide a failure does: no container is started, and if the run goes on, the failure is
decided and nothing else has failed. -/
structure Decides (engine : WorkflowEngine) (name : String) (before : RunState) (result : IterationOutcome)
    (after : RunState) : Prop where
  /-- No container was started. -/
  launches : SameLaunches before after
  decided : result = .continue → FailureDecided engine name before after
  /-- Nothing else has failed if the run goes on. -/
  kept : result = .continue → KeepsFailures before after

section decisions

variable {engine : WorkflowEngine} {run before after : RunState} {name : String} {exitCode : Int}
  {failures : List (String × Int)}

instance : Std.Refl SameLaunches := ⟨fun _ => rfl⟩

instance : IsTrans RunState SameLaunches := ⟨fun _ _ _ hfirst hsecond => Eq.trans hsecond hfirst⟩

/-- A decided failure is no longer recorded. -/
theorem FailureDecided.settled (h : FailureDecided engine name before after) :
    ¬ after.state.HasFailed name exitCode := by
  rintro ⟨message, hfailed⟩
  cases h with
  | retried _ _ _ hstatus =>
    rw [hstatus] at hfailed
    cases hfailed
  | answered action status _ _ _ _ hdecision hstatus =>
    rw [hstatus] at hfailed
    cases hfailed
    cases action <;> cases hdecision

/-- Going on takes the decided failure off the list. -/
theorem Decides.onlyFailed {result : IterationOutcome} (h : Decides engine name before result after)
    (hresult : result = .continue) (hfailed : OnlyFailed ((name, exitCode) :: failures) before.state) :
    OnlyFailed failures after.state := by
  intro other otherCode hother
  have hlisted := hfailed other otherCode ((h.kept hresult).failed other otherCode hother)
  rcases List.mem_cons.mp hlisted with hsame | hrest
  · obtain ⟨rfl, -⟩ := Prod.mk.inj hsame
    exact absurd hother (h.decided hresult).settled
  · exact hrest

theorem Decides.ended {outcome : WorkflowOutcome} (h : SameLaunches before after) :
    Decides engine name before (.ended outcome) after :=
  ⟨h, nofun, nofun⟩

theorem launches_stopActiveAgents : Relates SameLaunches WorkflowEngine.stopActiveAgents :=
  fun _ => Ensures.modifyState rfl

theorem launches_persist : Relates SameLaunches persist :=
  fun _ => persist_ensures rfl rfl

theorem launches_markUnfinished {status : StepState} :
    Relates SameLaunches (engine.markUnfinished status) :=
  fun _ => Ensures.modifyState rfl

theorem launches_cancelRun : Relates SameLaunches engine.cancelRun := by
  refine launches_stopActiveAgents.bind fun _ => ?_
  refine Relates.bind (fun _ => Ensures.modifyState rfl) fun _ => ?_
  refine launches_markUnfinished.bind fun _ => ?_
  refine Relates.bind (fun _ => Ensures.modifyState rfl) fun _ => ?_
  exact launches_persist.bind fun _ => .pure

theorem launches_handleAbort : Relates SameLaunches engine.handleAbort :=
  launches_markUnfinished.bind fun _ => launches_persist.bind fun _ => .pure

/-- A program that starts no container, run where none was started, leaves it so. -/
theorem SameLaunches.through {α : Type} {program : EngineM α} (h : SameLaunches before run)
    (hprogram : Relates SameLaunches program) :
    Ensures program run (fun _ after => SameLaunches before after) (SameLaunches before) :=
  (hprogram run).mono (fun _ _ hafter => Eq.trans hafter h) fun _ hafter => Eq.trans hafter h

/-- Failing the workflow ends it without a launch. -/
theorem failWorkflow_ends {message : String} (h : SameLaunches before run) :
    Ensures (engine.failWorkflow name exitCode message) run (Decides engine name before)
      (SameLaunches before) := by
  refine .change (.bind (setStatus_ensures (.bind (persist_ensures h ?_))))
  exact .pure (.ended h)

/-- An answer to the board that sets the status it stands for decides the failure. -/
theorem Decides.answer {action : NextAction} {status : StepState} {state : WorkflowState}
    {events : List RunEvent} (hasked : engine.settings.supportsInteractiveRecovery = true)
    (hevents : events.filter RunEvent.isLaunch = []) (hdecision : action.decision = some status)
    (hstatus : state.statusOf name = some status)
    (hkept : ∀ other exitCode, state.HasFailed other exitCode → run.state.HasFailed other exitCode) :
    Decides engine name run .continue { run with
      state := state
      log := .persisted state :: .boardAnswered .failure (engine.previousStepName run) action ::
        (events ++ run.log) } := by
  refine ⟨?_, fun _ => ?_, fun _ => ⟨hkept, rfl⟩⟩
  · change (events ++ run.log).filter RunEvent.isLaunch = run.log.filter RunEvent.isLaunch
    rw [List.filter_append, hevents, List.nil_append]
  · refine .answered action status (_ :: _ :: events) hasked rfl ?_ hdecision hstatus
    exact List.mem_cons_of_mem _ List.mem_cons_self

/-- Boards are shown until an answer decides the failure or ends the run. -/
theorem handleStepFailureInteractive_asks (hasked : engine.settings.supportsInteractiveRecovery = true) :
    Ensures (engine.handleStepFailureInteractive name exitCode) run (Decides engine name run)
      (SameLaunches run) := by
  let Shown : RunState → Prop := fun before => ∃ events : List RunEvent,
    before = { run with log := events ++ run.log } ∧ events.filter RunEvent.isLaunch = []
  have hsame : ∀ before, Shown before → SameLaunches run before := by
    rintro before ⟨events, rfl, hevents⟩
    rw [SameLaunches, List.filter_append, hevents, List.nil_append]
  refine .loop Shown ?_ hsame ⟨[], rfl, rfl⟩
  intro before hbefore
  have hlaunches := hsame before hbefore
  obtain ⟨events, rfl, hevents⟩ := hbefore
  refine .read (.bind (showControlBoard_ensures hlaunches fun action => ?_))
  cases action with
  | restartCurrentStep =>
    refine .bind (setStatus_ensures (.bind (persist_ensures hlaunches (.pure ?_))))
    refine Decides.answer hasked hevents rfl WorkflowState.statusOf_setStatus_self ?_
    exact fun _ _ hfailed => (hfailed.of_setStatus rfl).2
  | cancelToPreviousStep =>
    dsimp only
    split
    · exact .pure ⟨_ :: events, rfl, hevents⟩
    · rename_i prev _
      refine .bind (setStatus_ensures (.bind (setStatus_ensures ?_)))
      refine .bind (persist_ensures hlaunches (.pure ?_))
      refine Decides.answer hasked hevents rfl ?_ ?_
      · rw [WorkflowState.statusOf_setStatus, WorkflowState.statusOf_setStatus_self, ite_self]
      · exact fun _ _ hfailed => ((hfailed.of_setStatus rfl).2.of_setStatus rfl).2
  | launchNext =>
    dsimp only
    split
    · exact .pure ⟨_ :: events, rfl, hevents⟩
    · refine .bind (setStatus_ensures (.bind (persist_ensures hlaunches (.pure ?_))))
      refine Decides.answer hasked hevents rfl WorkflowState.statusOf_setStatus_self ?_
      exact fun _ _ hfailed => (hfailed.of_setStatus rfl).2
  | abort =>
    have hboard : SameLaunches run { run with
        log := .boardAnswered .failure (engine.previousStepName run) .abort ::
          (events ++ run.log) } := hlaunches
    exact .seq (hboard.through launches_handleAbort) fun _ _ hafter => .pure (.ended hafter)
  | pause => exact .bind (persist_ensures hlaunches (.pure (.ended hlaunches)))
  | dismiss => exact .pure ⟨_ :: events, rfl, hevents⟩
  | finishWorkflow => exact .pure ⟨_ :: events, rfl, hevents⟩
  | continueInCurrentContainer _ => exact .pure ⟨_ :: events, rfl, hevents⟩
  | retryFailedStep _ => exact .pure ⟨_ :: events, rfl, hevents⟩

/-- Nobody is asked: a step is retried once, and its second failure ends the run. -/
theorem handleStepFailureUnattended_retries
    (hunattended : engine.settings.supportsInteractiveRecovery = false) :
    Ensures (engine.handleStepFailureUnattended name exitCode) run (Decides engine name run)
      (SameLaunches run) := by
  refine .read ?_
  split
  · exact failWorkflow_ends rfl
  · rename_i hfirst
    refine .bind (runFailureRetryCountdown_ensures (fun _ => rfl) fun countdown cancel => ?_)
    refine .bind (cancelRequested_ensures rfl fun fired => ?_)
    have hsame : SameLaunches run { run with cancel := fired } := rfl
    split
    · exact .seq (hsame.through launches_cancelRun) fun _ _ hafter => .pure (.ended hafter)
    · have hretried : Decides engine name run .continue { run with
          cancel := fired
          autoRetriedSteps := insert name run.autoRetriedSteps
          state := run.state.setStatus name .pending
          log := .persisted (run.state.setStatus name .pending) :: run.log } := by
        refine ⟨rfl, fun _ => ?_, fun _ => ⟨?_, rfl⟩⟩
        · exact .retried hunattended hfirst (Finset.mem_insert_self _ _)
            WorkflowState.statusOf_setStatus_self
        · exact fun _ _ hfailed => (hfailed.of_setStatus rfl).2
      cases countdown with
      | cancel => exact failWorkflow_ends hsame
      | «continue» | advanceNow =>
        refine .change (.bind (setStatus_ensures ?_))
        exact .bind (persist_ensures rfl (.pure hretried))

theorem FailureDecided.of_cancel {cancel : Bool}
    (h : FailureDecided engine name { run with cancel := cancel } after) :
    FailureDecided engine name run after := by
  cases h with
  | answered action status events hasked hlog hboard hdecision hstatus =>
    exact .answered action status events hasked hlog hboard hdecision hstatus
  | retried hunattended hfirst hretried hstatus => exact .retried hunattended hfirst hretried hstatus

/-- An attempt to decide a failure decides it, ends the run, or stops. -/
theorem handleStepFailure_settles :
    Ensures (engine.handleStepFailure name exitCode) run (Decides engine name run)
      (SameLaunches run) := by
  refine .bind (cancelRequested_ensures rfl fun fired => ?_)
  have hsame : SameLaunches run { run with cancel := fired } := rfl
  have hstart : ∀ result after, Decides engine name { run with cancel := fired } result after →
      Decides engine name run result after := fun _ _ hafter =>
    ⟨hafter.launches, fun hresult => (hafter.decided hresult).of_cancel,
      fun hresult => ⟨(hafter.kept hresult).failed, (hafter.kept hresult).listed⟩⟩
  split
  · exact .seq (hsame.through launches_cancelRun) fun _ _ hafter => .pure (.ended hafter)
  · split
    · rename_i hasked
      exact (handleStepFailureInteractive_asks hasked).mono hstart fun _ hafter => hafter
    · rename_i hunattended
      rw [Bool.not_eq_true] at hunattended
      exact (handleStepFailureUnattended_retries hunattended).mono hstart fun _ hafter => hafter

/-- The same for a member of a drained group, to whom the board is scoped. -/
theorem handleGroupStepFailure_settles :
    Ensures (engine.handleGroupStepFailure name exitCode) run
      (Decides engine name { run with currentStepName := some name }) (SameLaunches run) :=
  .change handleStepFailure_settles

/-- What an iteration that goes on leaves: nothing has failed. -/
def Settled (result : IterationOutcome) (run : RunState) : Prop :=
  result = .continue → OnlyFailed [] run.state

theorem Settled.ended {outcome : WorkflowOutcome} : Settled (.ended outcome) run := nofun

theorem Settled.continue (h : OnlyFailed [] run.state) : Settled .continue run := fun _ => h

/-- Going on after a failure leaves none recorded. -/
theorem handleStepFailure_leaves (h : OnlyFailed [(name, exitCode)] run.state) :
    Ensures (engine.handleStepFailure name exitCode) run Settled fun _ => True :=
  handleStepFailure_settles.mono (fun _ _ hafter hresult => hafter.onlyFailed hresult h)
    fun _ _ => trivial

theorem handleGroupFailures_leaves (h : OnlyFailed failures run.state) :
    Ensures (engine.handleGroupFailures failures) run Settled fun _ => True := by
  induction failures generalizing run with
  | nil => exact .pure (.continue h)
  | cons entry rest ih =>
    obtain ⟨name, exitCode⟩ := entry
    refine .seq (handleGroupStepFailure_settles.mono (fun _ _ hafter => hafter) fun _ _ => trivial) ?_
    intro result after hafter
    cases result with
    | «continue» => exact ih (hafter.onlyFailed rfl h)
    | ended outcome => exact .pure .ended

theorem singleStepFailed_leaves {outcome : StepOutcome}
    (h : OnlyFailed [(outcome.stepName, outcome.exitCode)] run.state) :
    Ensures (engine.singleStepFailed outcome) run Settled fun _ => True := by
  refine .bind (cancelRequested_ensures trivial fun fired => ?_)
  split
  · exact .seq .nothing fun _ _ _ => .pure .ended
  · refine .bind (recoverAuthFailure_done trivial fun recovered retries => ?_)
    split
    · refine .bind (setStatus_ensures (.bind (persist_ensures trivial (.pure (.continue ?_)))))
      refine h.decide rfl fun entry hentry => Or.inl ?_
      rw [List.mem_singleton.mp hentry]
    · refine .bind (.ofExcept trivial fun step _ => ?_)
      split
      · refine .seq .nothing fun _ _ _ => .seq .nothing fun _ _ _ => ?_
        exact .seq .nothing fun _ _ _ => .pure .ended
      · exact handleStepFailure_leaves h

theorem singleStepSucceeded_leaves (h : OnlyFailed [] run.state) :
    Ensures engine.singleStepSucceeded run Settled fun _ => True := by
  refine singleStepSucceeded_ensures trivial (.continue h) fun action => ?_
  refine .mono (executeTopLevelAction_leaves ?_) ?_ fun _ _ => trivial
  · exact h
  intro result after hafter
  cases result with
  | stepCompleted => trivial
  | workflowEnded outcome => exact .ended
  | loopContinue => exact .continue hafter

/-- A single step leaves no failure behind it. -/
theorem runSingleStepIteration_leaves (h : OnlyFailed [] run.state) :
    Ensures engine.runSingleStepIteration run Settled fun _ => True := by
  refine .seq (stepOnceInterruptible_leaves h) ?_
  intro result after hafter
  cases result with
  | workflowEnded outcome => exact .pure .ended
  | loopContinue => exact .pure (.continue hafter)
  | stepCompleted outcome =>
    unfold StepResultLeaves StepOutcome.failure at hafter
    dsimp only at hafter ⊢
    split
    · rename_i hfailed
      rw [if_neg hfailed] at hafter
      exact singleStepFailed_leaves hafter
    · rename_i hzero
      rw [if_pos (not_not.mp hzero)] at hafter
      exact singleStepSucceeded_leaves hafter

end decisions

end Awman.Engine
