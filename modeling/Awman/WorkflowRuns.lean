import Awman.WorkflowGroupCompletion
import Awman.Library.Checks

/-!
# Whole runs

What holds in every run of the outer loop, from a fresh or a resumed engine and whatever the
environment answers: a completed run has completed every step unless it was sent back, every
written snapshot can be resumed, and reports of superseded launches are fenced off.
-/

namespace Awman.Engine

open Awman.Interaction WorkflowState

section Runs

variable {engine : WorkflowEngine} {run : RunState}

section

variable (h : Progress engine [] run.state run.log)
include h

theorem runReadySteps_decides :
    Ensures engine.runReadySteps run (IterationDone engine []) (Sound engine) := by
  refine .read (.bind (.ofExcept h.toDurable fun ready _ => ?_))
  split
  · refine .seq (runParallelGroup_done h) ?_
    intro outcome after hafter
    cases outcome with
    | drained failed => exact handleGroupFailures_decides hafter
    | ended | rewound => exact .pure hafter
  · exact runSingleStepIteration_decides h

/-- One pass of the outer loop decides every failure or ends the run. -/
theorem runIteration_decides :
    Ensures engine.runIteration run
      (fun result after =>
        match result with
        | some outcome => Reported engine outcome after
        | none => Progress engine [] after.state after.log) (Sound engine) := by
  refine .bind (cancelRequested_ensures h.toDurable fun fired => ?_)
  split
  · exact .map (cancelRun_reports h.toDurable)
  · refine .read ?_
    split
    · rename_i hcomplete
      exact .pure ⟨h.toDurable, fun _ hback => h.allDone hback hcomplete⟩
    · refine .seq (runReadySteps_decides h) ?_
      intro result after hafter
      cases result <;> exact .pure hafter

/-- A whole run keeps its state sound wherever it stops, and reports completion only when
everything is done or the run was sent back. -/
theorem runToCompletion_reports :
    Ensures engine.runToCompletion run (Reported engine) (Sound engine) :=
  .loop (fun before => Progress engine [] before.state before.log)
    (fun _ hbefore => (runIteration_decides hbefore).mono
      (fun result _ hdone => by cases result <;> exact hdone) fun _ hsound => hsound)
    (fun _ hbefore => hbefore.toDurable) h

end

/-- The engines a run can start from: fresh ones, and ones resumed from a state that the state's
own operations produced. -/
inductive Started : WorkflowEngine → RunState → Prop where
  | new {computeWorkflowHash : Workflow → String} {invocationId : Nat} {workItem : Option Nat}
      {workflow : Workflow} {settings : EngineSettings} {engine : WorkflowEngine} {run : RunState}
      (h : WorkflowEngine.new computeWorkflowHash invocationId workItem workflow settings
        = .ok (engine, run)) : Started engine run
  | resume {computeWorkflowHash : Workflow → String} {invocationId : Nat} {workItem : Option Nat}
      {workflow : Workflow} {settings : EngineSettings}
      {loaded : Except DataError (Option WorkflowState)}
      {confirmResume : ResumeMismatch → Except EngineError Bool} {engine : WorkflowEngine}
      {run : RunState} (hsaved : ∀ saved, loaded = .ok (some saved) → saved.Saved)
      (h : WorkflowEngine.resume computeWorkflowHash invocationId workItem workflow settings
        loaded confirmResume = .ok (engine, run)) : Started engine run

theorem Started.progress (h : Started engine run) : Progress engine [] run.state run.log := by
  have horder := WorkflowDag.build_order engine.built
  cases h with
  | @new computeWorkflowHash invocationId workItem workflow settings _ _ hnew =>
    unfold WorkflowEngine.new at hnew
    split at hnew
    · cases hnew
    · cases hnew
      refine ⟨⟨.new _ _ _ _ _, ?_, by simp [RunState.start], by simp [RunState.start]⟩, ?_⟩
      · intro step hstep
        have hname : step.name ∈ workflow.steps.map WorkflowStep.name :=
          List.mem_map.mpr ⟨step, hstep, rfl⟩
        rw [RunState.start, statusOf_new, if_pos hname]
        rfl
      · intro _ name hname
        rw [RunState.start, statusOf_new] at hname
        split at hname <;> simp [StepState.isUnrecovered] at hname
  | resume hsaved hresume =>
    obtain ⟨rfl, state, haccepted, rfl⟩ := resume_ok hresume
    have hstate := stateToResume_saved hsaved haccepted
    have hresumable := resumeState_resumable horder hstate
    refine ⟨⟨hstate.resumeState, ?_, by simp [RunState.start], by simp [RunState.start]⟩, ?_⟩
    · intro step hstep
      have hname : step.name ∈ engine.dag.order := by
        rw [horder]
        exact List.mem_map.mpr ⟨step, hstep, rfl⟩
      exact AList.lookup_isSome.mpr ((hresumable.keys step.name).mpr hname)
    · intro _ name hname
      cases hlookup : (resumeState engine.dag engine.workflow.steps state).statusOf name with
      | none => simp [RunState.start, hlookup] at hname
      | some status =>
        have hopen : status.isUnrecovered = true := by
          simpa [RunState.start, hlookup] using hname
        simp [(hresumable.settled name status hlookup).2] at hopen

/-- Every snapshot a run writes, wherever the run stops, is a state that can be resumed. -/
theorem persisted_saved (h : Started engine run) (answers : List Answer) {snapshot : WorkflowState}
    (hmem : RunEvent.persisted snapshot ∈ (engine.runToCompletion ⟨answers, run⟩).2.state.log) :
    snapshot.Saved :=
  ((runToCompletion_reports h.progress).everywhere (fun _ _ hafter => hafter.durable)
    answers).persisted snapshot hmem

/-- A run that reports completion and was never sent back by a board of a single step has every
step of the graph succeeded or skipped. -/
theorem runToCompletion_completed (h : Started engine run) (answers : List Answer)
    (hcompleted : (engine.runToCompletion ⟨answers, run⟩).1 = .ok .completed)
    (hback : NeverStepsBack (engine.runToCompletion ⟨answers, run⟩).2.state.log) :
    ∀ name ∈ engine.dag.order,
      ((engine.runToCompletion ⟨answers, run⟩).2.state.state.statusOf name = some .succeeded ∨
        (engine.runToCompletion ⟨answers, run⟩).2.state.state.statusOf name = some .skipped) ∧
      name ∈ (engine.runToCompletion ⟨answers, run⟩).2.state.state.completedSteps := by
  intro name hname
  have hreported := (runToCompletion_reports h.progress).returned hcompleted
  rw [WorkflowDag.build_order engine.built] at hname
  obtain ⟨step, hstep, rfl⟩ := List.mem_map.mp hname
  have hdone := hreported.complete rfl hback step hstep
  refine ⟨?_, (hreported.durable.saved.coherent step.name).mpr hdone⟩
  generalize (engine.runToCompletion ⟨answers, run⟩).2.state.state.statusOf step.name = status
    at hdone
  cases status with
  | none => simp at hdone
  | some status => simpa [StepState.isCompleted_iff] using hdone

/-- Two steps, the second after the first. -/
def draftThenReview : Workflow where
  title := none
  steps := [{ name := "draft" }, { name := "review", dependsOn := ["draft"] }]
  agent := some "codex"

/-- A fresh run of the two steps. -/
def draftThenReviewRun : WorkflowEngine × RunState :=
  (WorkflowEngine.new (fun _ => "") 0 none draftThenReview {}).toOption.get (by decide +kernel)

theorem draftThenReviewRun_started : Started draftThenReviewRun.1 draftThenReviewRun.2 :=
  .new (show WorkflowEngine.new (fun _ => "") 0 none draftThenReview {} =
    .ok (draftThenReviewRun.1, draftThenReviewRun.2) from Checks.toOption_get (by decide +kernel))

/-- What the outside answers while a step starts: the state is saved, the container spawned, and
the state saved again. -/
def stepStarts : List Answer :=
  [.saved (.ok ()), .spawned (.ok ⟨"container", "step", true⟩) [], .saved (.ok ())]

/-- What the outside answers when the running step exits with success. -/
def stepSucceeds : List Answer :=
  [.step (.exited (.ok 0)), .saved (.ok ())]

/-- Both steps run once and succeed. -/
def bothSucceed : List Answer :=
  .token false :: stepStarts ++ stepSucceeds ++ [.board (.ok .launchNext), .token false] ++
    stepStarts ++ stepSucceeds ++ [.token false]

/-- The user opens the board while the second step runs and goes back, and the first step succeeds
once more. -/
def reviewSentBack : List Answer :=
  .token false :: stepStarts ++ stepSucceeds ++ [.board (.ok .launchNext), .token false] ++
    stepStarts ++ [.step (.request (.openControlBoard "review")),
      .board (.ok .cancelToPreviousStep), .polled none, .saved (.ok ()), .token false] ++
    stepStarts ++ stepSucceeds ++ [.token false]

/-- The result of a fresh run of the two steps. -/
def draftThenReviewResult (answers : List Answer) :
    Except (Halt EngineError) WorkflowOutcome × World Answer RunState :=
  draftThenReviewRun.1.runToCompletion ⟨answers, draftThenReviewRun.2⟩

theorem runToCompletion_completed_draftThenReview :
    ((draftThenReviewResult bothSucceed).2.state.state.statusOf "review" = some .succeeded ∨
      (draftThenReviewResult bothSucceed).2.state.state.statusOf "review" = some .skipped) ∧
    "review" ∈ (draftThenReviewResult bothSucceed).2.state.state.completedSteps := by
  have hcompleted : (draftThenReviewResult bothSucceed).1.toOption = some .completed := by
    decide +kernel
  have hback : NeverStepsBack (draftThenReviewResult bothSucceed).2.state.log := by
    unfold NeverStepsBack
    decide +kernel
  simp only [draftThenReviewResult] at hcompleted hback ⊢
  exact runToCompletion_completed draftThenReviewRun_started bothSucceed
    (Checks.ok_of_toOption hcompleted) hback "review" (by decide +kernel)

/-- Once the first step has succeeded again, the run reports completion with the second step left
cancelled. -/
theorem runToCompletion_leaves_cancelled :
    Started draftThenReviewRun.1 draftThenReviewRun.2 ∧
    "review" ∈ draftThenReviewRun.1.dag.order ∧
    (draftThenReviewResult reviewSentBack).1 = .ok .completed ∧
    (draftThenReviewResult reviewSentBack).2.state.state.statusOf "review" = some .cancelled ∧
    "review" ∉ (draftThenReviewResult reviewSentBack).2.state.state.completedSteps := by
  have hcompleted : (draftThenReviewResult reviewSentBack).1.toOption = some .completed := by
    decide +kernel
  refine ⟨draftThenReviewRun_started, ?_, Checks.ok_of_toOption hcompleted, ?_, ?_⟩
  · decide +kernel
  · decide +kernel
  · decide +kernel

/-- In every run, the exit of a superseded launch changes nothing, and a watcher's report of a
superseded launch changes nothing exactly if the step has no slot or the slot says the same. -/
theorem runToCompletion_fences (h : Started engine run) (answers : List Answer) :
    ∀ event ∈ (engine.runToCompletion ⟨answers, run⟩).2.state.log,
      event.Fenced engine.settings.yolo :=
  ((runToCompletion_reports h.progress).everywhere (fun _ _ hafter => hafter.durable)
    answers).fenced

/-- Two steps that run side by side. -/
def lintAndTest : Workflow where
  title := none
  steps := [{ name := "lint" }, { name := "test" }]
  agent := some "codex"

/-- A fresh run of the two steps. -/
def lintAndTestRun : WorkflowEngine × RunState :=
  (WorkflowEngine.new (fun _ => "") 0 none lintAndTest {}).toOption.get (by decide +kernel)

theorem lintAndTestRun_started : Started lintAndTestRun.1 lintAndTestRun.2 :=
  .new (show WorkflowEngine.new (fun _ => "") 0 none lintAndTest {} =
    .ok (lintAndTestRun.1, lintAndTestRun.2) from Checks.toOption_get (by decide +kernel))

/-- Both steps are launched, the user restarts the first from the board, and then a signal of its
first launch is delivered. -/
def lintRestarted (signal : GroupSignal) : List Answer :=
  .token false :: stepStarts ++ stepStarts ++
    [.group 0 (.request (.openControlBoard "lint")), .board (.ok .restartCurrentStep),
      .groupDecision (.ok .restartOneAgent), .groupDecision (.ok (.restartStep "lint"))] ++
    stepStarts ++ [.group 0 signal]

/-- The run state after that. -/
def lintRestartedRun (signal : GroupSignal) : RunState :=
  (lintAndTestRun.1.runToCompletion ⟨lintRestarted signal, lintAndTestRun.2⟩).2.state

/-- The slot of the newer launch. -/
def relaunchedSlot : ActiveParallelStep where
  stepName := "lint"
  execution := false
  cancelHandle := true
  containerName := "step"
  handle := 2
  awmanKilled := false
  stuck := false
  yoloDeadline := none
  agent := ⟨"codex", by decide, by decide, by decide⟩
  model := none
  launchId := 2

/-- What the engine holds about the restarted step, with its slot marked stuck or not. -/
def relaunchedView (stuck : Bool) : StepView :=
  ⟨[{ relaunchedSlot with stuck := stuck }], some (.running (some "container"))⟩

theorem runToCompletion_fences_lintRestarted :
    (RunEvent.exitHandled ⟨"lint", 0, 0⟩ (relaunchedView false) (relaunchedView false)).Fenced
      lintAndTestRun.1.settings.yolo := by
  have hlast : (lintRestartedRun (.exited ⟨"lint", 0, 0⟩ (.ok 137))).log.head? =
      some (.exitHandled ⟨"lint", 0, 0⟩ (relaunchedView false) (relaunchedView false)) := by
    decide +kernel
  have hmem := List.mem_of_head? hlast
  rw [lintRestartedRun] at hmem
  exact runToCompletion_fences lintAndTestRun_started _ _ hmem

/-- A report of the first launch marks the newer launch stuck. -/
theorem stuck_report_reaches_newer_launch :
    Started lintAndTestRun.1 lintAndTestRun.2 ∧
    RunEvent.stuckHandled "lint" 0 .stuck (relaunchedView false) (relaunchedView true) ∈
      (lintRestartedRun (.stuck "lint" 0 .stuck)).log ∧
    Superseded (relaunchedView false).slots 0 ∧ relaunchedView true ≠ relaunchedView false := by
  have hlast : (lintRestartedRun (.stuck "lint" 0 .stuck)).log.head? =
      some (.stuckHandled "lint" 0 .stuck (relaunchedView false) (relaunchedView true)) := by
    decide +kernel
  refine ⟨lintAndTestRun_started, List.mem_of_head? hlast, ?_, by decide⟩
  unfold Superseded
  decide

end Runs

end Awman.Engine
