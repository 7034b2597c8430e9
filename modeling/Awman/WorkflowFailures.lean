import Awman.WorkflowCompletion
import Awman.Library.Passes

/-!
# What a pass of the sequential path leaves failed

Readiness looks only at the completed steps, so a failed step would be ready again at once.  Nothing but
the exit of a step that was launched marks it failed in a run that goes on, and the pass that sees the exit
decides it.  A board that sends the run back marks the step cancelled, which is no failure, so unlike what a
completed run has done this holds of every run.
-/

namespace Awman.Engine

open Awman.Interaction

/-- Whether a status is a failure. -/
def StepState.isFailed : StepState → Bool
  | .failed _ _ => true
  | _ => false

/-- The step ended failed with the exit code, and nothing has been decided about it since. -/
def WorkflowState.HasFailed (state : WorkflowState) (name : String) (exitCode : Int) : Prop :=
  ∃ message, state.statusOf name = some (.failed exitCode message)

/-- Only the listed failures are there. -/
def OnlyFailed (failures : List (String × Int)) (state : WorkflowState) : Prop :=
  ∀ name exitCode, state.HasFailed name exitCode → (name, exitCode) ∈ failures

/-- Every failure was there before, and the group lists the same failures. -/
structure KeepsFailures (before after : RunState) : Prop where
  failed : ∀ name exitCode, after.state.HasFailed name exitCode → before.state.HasFailed name exitCode
  listed : after.group.failed = before.group.failed

/-- The failure that the exit of a step leaves to decide. -/
def StepOutcome.failure (outcome : StepOutcome) : List (String × Int) :=
  if outcome.exitCode = 0 then [] else [(outcome.stepName, outcome.exitCode)]

section failures

variable {state : WorkflowState} {name : String} {status : StepState} {failures rest : List (String × Int)}

theorem WorkflowState.HasFailed.of_setStatus {other : String} {exitCode : Int}
    (h : (state.setStatus name status).HasFailed other exitCode) (hstatus : status.isFailed = false) :
    other ≠ name ∧ state.HasFailed other exitCode := by
  obtain ⟨message, hfailed⟩ := h
  rw [WorkflowState.statusOf_setStatus] at hfailed
  split at hfailed
  · cases hfailed
    cases hstatus
  · exact ⟨‹_›, message, hfailed⟩

/-- Setting a status that is no failure decides the step. -/
theorem OnlyFailed.decide (h : OnlyFailed failures state) (hstatus : status.isFailed = false)
    (hlisted : ∀ entry ∈ failures, entry.1 = name ∨ entry ∈ rest) :
    OnlyFailed rest (state.setStatus name status) := by
  intro other exitCode hfailed
  obtain ⟨hne, hold⟩ := hfailed.of_setStatus hstatus
  exact (hlisted _ (h other exitCode hold)).resolve_left hne

/-- Setting another status adds no failure. -/
theorem OnlyFailed.setStatus (h : OnlyFailed failures state) (hstatus : status.isFailed = false) :
    OnlyFailed failures (state.setStatus name status) :=
  h.decide hstatus fun _ hentry => Or.inr hentry

/-- A step that fails is one more failure. -/
theorem OnlyFailed.fail {exitCode : Int} {message : Option String} (h : OnlyFailed failures state) :
    OnlyFailed (failures ++ [(name, exitCode)]) (state.setStatus name (.failed exitCode message)) := by
  rintro other otherCode ⟨otherMessage, hfailed⟩
  rw [WorkflowState.statusOf_setStatus] at hfailed
  split at hfailed
  · rename_i hsame
    cases hfailed
    rw [hsame]
    exact List.mem_append_right _ List.mem_cons_self
  · exact List.mem_append_left _ (h other otherCode ⟨otherMessage, hfailed⟩)

/-- No failure is recorded where none is allowed. -/
theorem OnlyFailed.none (h : OnlyFailed [] state) (exitCode : Int) : ¬ state.HasFailed name exitCode :=
  fun hfailed => nomatch h name exitCode hfailed

end failures

section keeps

variable {before after run : RunState} {failures : List (String × Int)} {engine : WorkflowEngine}

instance : Std.Refl KeepsFailures := ⟨fun _ => ⟨fun _ _ hfailed => hfailed, rfl⟩⟩

instance : IsTrans RunState KeepsFailures := by
  refine ⟨fun first second third hfirst hsecond => ⟨?_, hsecond.listed.trans hfirst.listed⟩⟩
  intro name exitCode hfailed
  exact hfirst.failed name exitCode (hsecond.failed name exitCode hfailed)

/-- What keeps the failures keeps their bound. -/
theorem OnlyFailed.keeps (h : OnlyFailed failures before.state) (hkeeps : KeepsFailures before after) :
    OnlyFailed failures after.state :=
  fun name exitCode hfailed => h name exitCode (hkeeps.failed name exitCode hfailed)

/-- Writing what is no status and no failure of the group keeps both. -/
theorem KeepsFailures.of_same (hstates : after.state.stepStates = before.state.stepStates)
    (hlisted : after.group.failed = before.group.failed) : KeepsFailures before after := by
  refine ⟨?_, hlisted⟩
  rintro name exitCode ⟨message, hfailed⟩
  rw [WorkflowState.statusOf, hstates] at hfailed
  exact ⟨message, hfailed⟩

/-- A status other than failed adds no failure. -/
theorem keeps_setStatus {name : String} {status : StepState} (hstatus : status.isFailed = false) :
    Advances KeepsFailures (setStatus name status) := by
  refine .modifyState fun run => ⟨?_, rfl⟩
  intro other exitCode hfailed
  exact (hfailed.of_setStatus hstatus).2

theorem keeps_orOther {α : Type} {result : Except String α} :
    Advances KeepsFailures (orOther result) :=
  fun _ => orOther_ensures trivial fun _ => Std.Refl.refl _

theorem keeps_persist : Advances KeepsFailures persist :=
  fun _ => persist_ensures trivial (.of_same rfl rfl)

theorem keeps_yoloCountdownTick : Advances KeepsFailures yoloCountdownTick :=
  fun _ => yoloCountdownTick_ensures trivial fun _ => .of_same rfl rfl

theorem keeps_restartCurrent : Advances KeepsFailures WorkflowEngine.restartCurrent := by
  refine .bind .getState fun run => ?_
  split
  · exact (keeps_setStatus rfl).bind fun _ => keeps_persist
  · exact .pure

theorem keeps_handleCancelToPrevious : Advances KeepsFailures engine.handleCancelToPrevious := by
  refine .bind .getState fun run => ?_
  split
  · dsimp only
    split
    · refine (keeps_setStatus rfl).bind fun _ => ?_
      exact (keeps_setStatus rfl).bind fun _ => keeps_persist
    · exact (keeps_setStatus rfl).bind fun _ => keeps_persist
  · exact .fail

theorem keeps_handleContinueInCurrentContainer :
    Advances KeepsFailures engine.handleContinueInCurrentContainer := by
  refine .bind .getState fun run => Advances.bind .ofExcept fun next => ?_
  cases next with
  | none => exact .fail
  | some nextStep =>
    refine .bind .ofExcept fun nextAgent => ?_
    split
    · split
      · refine .bind .receive fun _ => keeps_orOther.bind fun injected => ?_
        cases injected with
        | false => exact .fail
        | true =>
          refine (keeps_setStatus rfl).bind fun _ => ?_
          exact .bind (.modifyState fun _ => .of_same rfl rfl) fun _ => keeps_persist
      · exact .fail
    · exact .fail

theorem keeps_prepareStepLaunch {step : WorkflowStep} :
    Advances KeepsFailures (engine.prepareStepLaunch step) := by
  intro before
  refine .bind (.ofExcept trivial fun agent _ => .read ?_)
  exact .change (.pure (.of_same rfl rfl))

end keeps

section singleStep

variable {engine : WorkflowEngine} {run : RunState} {failures : List (String × Int)}

/-- A finished step leaves at most its own failure. -/
theorem finalizeStep_leaves {stepName : String} {exitCode : Int} (h : OnlyFailed [] run.state) :
    Ensures (engine.finalizeStep stepName exitCode) run
      (fun outcome after => OnlyFailed outcome.failure after.state) fun _ => True := by
  refine .bind (.ofExcept trivial fun _ _ => ?_)
  have hset : OnlyFailed (if exitCode = 0 then [] else [(stepName, exitCode)])
      (run.state.setStatus stepName (if exitCode = 0 then .succeeded else .failed exitCode none)) := by
    split
    · exact h.setStatus rfl
    · exact h.fail
  refine .bind (setStatus_ensures (.bind (persist_ensures trivial ?_)))
  exact .read (.pure hset)

/-- What is left to decide after a board shown while a step runs. -/
def MidStepLeaves (result : MidStepOutcome) (run : RunState) : Prop :=
  match result with
  | .continue | .loopContinue => OnlyFailed [] run.state
  | .stepCompleted outcome => OnlyFailed outcome.failure run.state
  | .workflowEnded _ => True

/-- What is left to decide when the single-step loop is left. -/
def StepResultLeaves (result : InterruptibleStepResult) (run : RunState) : Prop :=
  match result with
  | .stepCompleted outcome => OnlyFailed outcome.failure run.state
  | .workflowEnded _ => True
  | .loopContinue => OnlyFailed [] run.state

/-- What is left to decide after one signal of a single step. -/
def SignalLeaves (result : Option InterruptibleStepResult) (run : RunState) : Prop :=
  match result with
  | none => OnlyFailed [] run.state
  | some result => StepResultLeaves result run

/-- A resumed step leaves only the failure it reports. -/
theorem resumeMidStep_leaves {stepName : String} {exit : Option (Except String Int)}
    (h : OnlyFailed [] run.state) :
    Ensures (engine.resumeMidStep stepName exit) run MidStepLeaves fun _ => True := by
  cases exit with
  | none => exact .pure h
  | some result =>
    refine .bind (orOther_ensures trivial fun exitCode => ?_)
    exact .map (finalizeStep_leaves h)

theorem handleMidStepControlBoard_leaves {stepName : String} {handle : Nat} {cancelHandle : Option Nat}
    (h : OnlyFailed [] run.state) :
    Ensures (engine.handleMidStepControlBoard stepName handle cancelHandle) run MidStepLeaves
      fun _ => True := by
  refine .read (.bind (.ofExcept trivial fun _ _ => ?_))
  refine .bind (showControlBoard_ensures trivial fun action => ?_)
  refine .bind (pollWait_keeps trivial fun exit slots containers => ?_)
  cases action with
  | dismiss | retryFailedStep => exact resumeMidStep_leaves h
  | continueInCurrentContainer _ =>
    refine .read ?_
    split
    · exact .bind (.receive trivial fun _ => resumeMidStep_leaves h)
    · exact resumeMidStep_leaves h
  | pause | abort =>
    refine .seq .nothing fun _ _ _ => .seq .nothing fun _ _ _ => ?_
    exact .seq .nothing fun _ _ _ => .pure trivial
  | finishWorkflow =>
    refine .read ?_
    split
    · refine .seq .nothing fun _ _ _ => .seq .nothing fun _ _ _ => ?_
      exact .seq .nothing fun _ _ _ => .pure trivial
    · exact .fail trivial
  | launchNext | restartCurrentStep =>
    refine .bind (killUnlessFinished_keeps fun _ _ => .bind (setStatus_ensures ?_))
    exact .bind (persist_ensures trivial (.pure (h.setStatus rfl)))
  | cancelToPreviousStep =>
    refine .bind (killUnlessFinished_keeps fun _ _ => .read ?_)
    split
    · refine .bind (setStatus_ensures (.bind (setStatus_ensures ?_)))
      exact .bind (persist_ensures trivial (.pure ((h.setStatus rfl).setStatus rfl)))
    · exact .pure h

/-- A program that keeps the failures leaves none where there was none. -/
theorem OnlyFailed.through {α : Type} {program : EngineM α} (h : OnlyFailed failures run.state)
    (hkeeps : Advances KeepsFailures program) :
    Ensures program run (fun _ after => OnlyFailed failures after.state) fun _ => True :=
  (hkeeps run).mono (fun _ _ hafter => h.keeps hafter) fun _ _ => trivial

/-- A board action leaves only the failure it reports. -/
theorem executeTopLevelAction_leaves {action : NextAction} (h : OnlyFailed [] run.state) :
    Ensures (engine.executeTopLevelAction action) run StepResultLeaves fun _ => True := by
  cases action with
  | dismiss | launchNext | retryFailedStep => exact .pure h
  | finishWorkflow | pause | abort => exact .seq .nothing fun _ _ _ => .pure trivial
  | restartCurrentStep => exact .map (h.through keeps_restartCurrent)
  | cancelToPreviousStep =>
    exact .map (h.through keeps_handleCancelToPrevious)
  | continueInCurrentContainer _ =>
    exact .map (h.through keeps_handleContinueInCurrentContainer)

/-- A container that starts leaves its step running and adds no failure.  One that does not start leaves
its step failed. -/
theorem spawnPreparedStep_starts {step : WorkflowStep} {prepared : PreparedStepLaunch} :
    Ensures (WorkflowEngine.spawnPreparedStep step prepared) run
      (fun result after =>
        match result with
        | .error _ => True
        | .ok _ => KeepsFailures run after ∧ ∀ exitCode, ¬ after.state.HasFailed step.name exitCode)
      fun _ => True := by
  refine .bind (setStatus_ensures (.bind (tryPersist_ensures trivial (fun _ => .pure trivial) ?_)))
  refine .bind (.bind (record_ensures (.receive trivial fun result => ?_)))
  cases result with
  | error message => exact .seq .nothing fun _ _ _ => .seq .nothing fun _ _ _ => .pure trivial
  | ok execution =>
    refine .bind (.read (.change (.pure ?_)))
    refine .bind (setStatus_ensures (.change ?_))
    refine .bind (tryPersist_ensures trivial (fun _ => .pure trivial) (.pure ⟨⟨?_, rfl⟩, ?_⟩))
    · intro name exitCode hfailed
      have hrunning : (run.state.setStatus step.name (.running none)).HasFailed name exitCode :=
        (WorkflowState.HasFailed.of_setStatus hfailed rfl).2
      exact (hrunning.of_setStatus rfl).2
    · intro exitCode hfailed
      exact (WorkflowState.HasFailed.of_setStatus hfailed rfl).1 rfl

theorem keeps_launchStep : Advances KeepsFailures engine.launchStep := by
  refine .bind .getState fun before => ?_
  split
  · exact .fail
  · refine .bind .ofExcept fun step => keeps_prepareStepLaunch.bind fun prepared => ?_
    intro ready
    refine .seq spawnPreparedStep_starts ?_
    intro spawned after hafter
    cases spawned with
    | error _ => exact .bind (.fail trivial)
    | ok launch => exact .bind (.pure (.change (.pure ⟨hafter.1.failed, hafter.1.listed⟩)))

/-- An exit leaves at most the failure of its step. -/
theorem stepExited_leaves {stepName : String} {handle : Nat} {result : Except String Int}
    (h : OnlyFailed [] run.state) :
    Ensures (engine.stepExited stepName handle result) run
      (fun outcome after => OnlyFailed outcome.failure after.state) fun _ => True := by
  refine .change (.bind (containerGone_ensures ?_))
  exact .bind (orOther_ensures trivial fun _ => finalizeStep_leaves h)

section

variable {stepName : String} {handle : Nat} {cancelHandle : Option Nat} (h : OnlyFailed [] run.state)
include h

theorem midStepBoard_leaves :
    Ensures (do
      let outcome ← engine.handleMidStepControlBoard stepName handle cancelHandle
      pure outcome.toResult) run SignalLeaves fun _ => True := by
  refine .seq (handleMidStepControlBoard_leaves h) ?_
  intro outcome after hafter
  cases outcome <;> exact .pure hafter

/-- A stuck step leaves only the failure it reports. -/
theorem handleStepStuck_leaves :
    Ensures (engine.handleStepStuck stepName handle cancelHandle) run SignalLeaves fun _ => True := by
  refine .read ?_
  split
  · refine .bind (driveYoloCountdown_ensures (fun _ => trivial) fun result fired => ?_)
    cases result with
    | stepCompleted exit => exact .map (stepExited_leaves h)
    | showControlBoard => exact midStepBoard_leaves h
    | cancelled | recovered => exact .pure h
    | advanced =>
      have hset : OnlyFailed [] (run.state.setStatus stepName .succeeded) := h.setStatus rfl
      refine .bind (killCurrentContainer_keeps fun slots containers => ?_)
      refine .bind (setStatus_ensures (.bind (persist_ensures trivial ?_)))
      refine .bind (.ofExcept trivial fun _ _ => .read ?_)
      split
      · refine .bind (.ofExcept trivial fun _ _ => ?_)
        refine .bind (showControlBoard_ensures trivial fun action => ?_)
        exact .map (executeTopLevelAction_leaves hset)
      · exact .pure hset
  · exact midStepBoard_leaves h

/-- One turn of the loop leaves only what it reports. -/
theorem stepIteration_leaves :
    Ensures (engine.stepIteration stepName handle cancelHandle) run SignalLeaves fun _ => True :=
  stepIteration_ensures trivial h (fun _ => stepExited_leaves h)
    (killCurrentContainer_keeps fun _ _ => .nothing) (.modifyState h) (handleStepStuck_leaves h)
    (midStepBoard_leaves h)

end

/-- When the step has ended, at most its own failure is left to decide. -/
theorem stepOnceInterruptible_leaves (h : OnlyFailed [] run.state) :
    Ensures engine.stepOnceInterruptible run StepResultLeaves fun _ => True := by
  refine .seq (h.through keeps_launchStep) ?_
  intro stepName after hafter
  refine .read (.change ?_)
  refine .loop (fun before => OnlyFailed [] before.state) ?_ (fun _ _ => trivial) hafter
  intro before hbefore
  refine (stepIteration_leaves hbefore).mono ?_ fun _ _ => trivial
  intro result _ hdone
  cases result <;> exact hdone

end singleStep

end Awman.Engine
