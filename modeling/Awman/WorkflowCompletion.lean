import Awman.WorkflowFencing

/-!
# What a completed run has done

The outer loop ends a run when every status is terminal, and readiness follows the completed set.
Between two passes of the loop no step is left failed or cancelled, as long as no board of a single
step sends the run back from a step with a predecessor: that answer marks the step cancelled, and a
cancelled step counts as ended.  So a run that reports completion without such an answer has every
step succeeded or skipped.
-/

namespace Awman.Engine

open Awman.Interaction WorkflowState

/-- An answer to a board of a single step that sends the run back from a step with a
predecessor. -/
def RunEvent.stepsBack : RunEvent → Bool
  | .boardAnswered .midStep (some _) .cancelToPreviousStep => true
  | .boardAnswered .betweenSteps (some _) .cancelToPreviousStep => true
  | _ => false

/-- No board of a single step sent the run back. -/
def NeverStepsBack (log : List RunEvent) : Prop :=
  ∀ event ∈ log, event.stepsBack = false

/-- What holds at every point of a run: the state and every persisted snapshot come from the
state's own operations, and every step of the workflow has a status. -/
structure Durable (engine : WorkflowEngine) (state : WorkflowState) (log : List RunEvent) :
    Prop where
  saved : state.Saved
  keys : ∀ step ∈ engine.workflow.steps, (state.statusOf step.name).isSome = true
  /-- So does every snapshot that was written. -/
  persisted : ∀ snapshot, RunEvent.persisted snapshot ∈ log → snapshot.Saved
  /-- Every report of a superseded launch was fenced off. -/
  fenced : ∀ event ∈ log, event.Fenced engine.settings.yolo

/-- What holds while only the listed steps may be failed: unless the run was sent back, every other
step is neither failed nor cancelled. -/
structure Progress (engine : WorkflowEngine) (undecided : List String) (state : WorkflowState)
    (log : List RunEvent) : Prop extends Durable engine state log where
  /-- Only the listed steps are failed or cancelled. -/
  recovered : NeverStepsBack log → ∀ name,
    (state.statusOf name).any StepState.isUnrecovered = true → name ∈ undecided

/-- Every step of the workflow counts as completed. -/
def AllDone (engine : WorkflowEngine) (state : WorkflowState) : Prop :=
  ∀ step ∈ engine.workflow.steps, (state.statusOf step.name).any StepState.isCompleted = true

/-- What holds when a run reports an outcome. -/
structure Reported (engine : WorkflowEngine) (outcome : WorkflowOutcome) (run : RunState) :
    Prop where
  durable : Durable engine run.state run.log
  /-- Completion is reported only when everything is done. -/
  complete : outcome = .completed → NeverStepsBack run.log → AllDone engine run.state

/-- What holds after an iteration that leaves the listed failures open. -/
def IterationDone (engine : WorkflowEngine) (undecided : List String)
    (result : IterationOutcome) (run : RunState) : Prop :=
  match result with
  | .continue => Progress engine undecided run.state run.log
  | .ended outcome => Reported engine outcome run

/-- The state is sound wherever a run stops. -/
def Sound (engine : WorkflowEngine) (run : RunState) : Prop :=
  Durable engine run.state run.log

section Invariants

variable {engine : WorkflowEngine} {state : WorkflowState} {log : List RunEvent}
  {undecided : List String}

theorem NeverStepsBack.tail {event : RunEvent} (h : NeverStepsBack (event :: log)) :
    NeverStepsBack log :=
  fun other hmem => h other (List.mem_cons_of_mem event hmem)

section

variable (h : Durable engine state log)
include h

theorem Durable.setStatus (name : String) (status : StepState) :
    Durable engine (state.setStatus name status) log := by
  refine ⟨h.saved.setStatus name status, ?_, h.persisted, h.fenced⟩
  intro step hstep
  have hkey := h.keys step hstep
  rw [statusOf_setStatus]
  split
  · rfl
  · exact hkey

theorem Durable.setStatuses (names : List String) (status : StepState) :
    Durable engine (state.setStatuses names status) log := by
  induction names generalizing state with
  | nil => exact h
  | cons first rest ih => exact ih (h.setStatus first status)

/-- Writes to other fields of the state keep it sound. -/
theorem Durable.other {after : WorkflowState}
    (hstates : after.stepStates = state.stepStates)
    (hcompleted : after.completedSteps = state.completedSteps) : Durable engine after log := by
  refine ⟨h.saved.other hstates hcompleted, ?_, h.persisted, h.fenced⟩
  intro step hstep
  have hkey := h.keys step hstep
  rwa [statusOf, hstates]

theorem Durable.event {event : RunEvent}
    (hevent : ∀ snapshot, event = .persisted snapshot → snapshot.Saved)
    (hfenced : event.Fenced engine.settings.yolo) : Durable engine state (event :: log) := by
  refine ⟨h.saved, h.keys, ?_, List.forall_mem_cons.mpr ⟨hfenced, h.fenced⟩⟩
  intro snapshot hmem
  rcases List.mem_cons.mp hmem with heq | hold
  · exact hevent snapshot heq.symm
  · exact h.persisted snapshot hold

theorem Durable.persist : Durable engine state (.persisted state :: log) := by
  refine h.event ?_ trivial
  intro snapshot heq
  cases heq
  exact h.saved

end

theorem Progress.setStatus {after : List String} (h : Progress engine undecided state log) {name : String}
    {status : StepState} (hlisted : ∀ other ∈ undecided, other = name ∨ other ∈ after)
    (hstatus : status.isUnrecovered = true → name ∈ after) :
    Progress engine after (state.setStatus name status) log := by
  refine ⟨h.toDurable.setStatus name status, ?_⟩
  intro hback other hother
  rw [statusOf_setStatus] at hother
  by_cases heq : other = name
  · subst heq
    simp only [if_true, Option.any_some] at hother
    exact hstatus hother
  · rw [if_neg heq] at hother
    exact (hlisted other (h.recovered hback other hother)).resolve_left heq

/-- A status that is neither failed nor cancelled leaves the same steps undecided. -/
theorem Progress.setRecovered (h : Progress engine undecided state log) (name : String)
    (status : StepState) (hstatus : status.isUnrecovered = false) :
    Progress engine undecided (state.setStatus name status) log :=
  h.setStatus (fun _ hmem => Or.inr hmem) (fun hback => by simp [hstatus] at hback)

/-- Deciding a listed step takes it off the list. -/
theorem Progress.decide {name : String} {rest : List String}
    (h : Progress engine (name :: rest) state log) (status : StepState)
    (hstatus : status.isUnrecovered = false) :
    Progress engine rest (state.setStatus name status) log :=
  h.setStatus (fun _ hmem => List.mem_cons.mp hmem) (fun hback => by simp [hstatus] at hback)

section

variable (h : Progress engine undecided state log)
include h

theorem Progress.weaken (name : String) : Progress engine (name :: undecided) state log :=
  ⟨h.toDurable, fun hback other hother => List.mem_cons_of_mem name (h.recovered hback other hother)⟩

theorem Progress.other {after : WorkflowState}
    (hstates : after.stepStates = state.stepStates)
    (hcompleted : after.completedSteps = state.completedSteps) :
    Progress engine undecided after log := by
  refine ⟨h.toDurable.other hstates hcompleted, ?_⟩
  intro hback name hname
  rw [statusOf, hstates] at hname
  exact h.recovered hback name hname

theorem Progress.event {event : RunEvent}
    (hevent : ∀ snapshot, event = .persisted snapshot → snapshot.Saved)
    (hfenced : event.Fenced engine.settings.yolo) :
    Progress engine undecided state (event :: log) :=
  ⟨h.toDurable.event hevent hfenced, fun hback => h.recovered hback.tail⟩

theorem Progress.persist : Progress engine undecided state (.persisted state :: log) :=
  ⟨h.toDurable.persist, fun hback => h.recovered hback.tail⟩

theorem Progress.board (kind : BoardKind)
    (previous : Option String) (action : NextAction) :
    Progress engine undecided state (.boardAnswered kind previous action :: log) :=
  h.event (fun _ heq => by cases heq) trivial

end

/-- A board answer that steps back makes the condition on the undecided steps vacuous. -/
theorem Durable.steppedBack {event : RunEvent} (h : Durable engine state log) (hmem : event ∈ log)
    (hback : event.stepsBack = true) :
    Progress engine undecided state log :=
  ⟨h, fun hnever => by simp [hnever event hmem] at hback⟩

/-- If nothing is undecided and every status is terminal, everything is done. -/
theorem Progress.allDone (h : Progress engine [] state log) (hback : NeverStepsBack log)
    (hcomplete : state.isComplete = true) : AllDone engine state := by
  intro step hstep
  obtain ⟨status, hstatus⟩ := Option.isSome_iff_exists.mp (h.keys step hstep)
  have hterminal := isComplete_iff.mp hcomplete step.name status hstatus
  have hrecovered : status.isUnrecovered ≠ true := fun hopen => by
    simpa using h.recovered hback step.name (by simp [hstatus, hopen])
  rw [hstatus, Option.any_some]
  cases status <;>
    simp_all [StepState.isTerminal, StepState.isUnrecovered, StepState.isCompleted]

/-- Passing over the unfinished steps finishes everything. -/
theorem Durable.allDone_markUnfinished {run : RunState} (h : Durable engine run.state run.log) :
    AllDone engine (run.state.setStatuses (engine.unfinishedSteps run) .skipped) := by
  intro step hstep
  rw [statusOf_setStatuses]
  split
  · rfl
  · rename_i hfinished
    have hname : step.name ∈ engine.workflow.steps.map WorkflowStep.name :=
      List.mem_map.mpr ⟨step, hstep, rfl⟩
    have hcompleted : step.name ∈ run.state.completedSteps := by
      by_contra hopen
      exact hfinished (by simp [WorkflowEngine.unfinishedSteps, hname, hopen])
    exact (h.saved.coherent step.name).mp hcompleted

theorem Durable.reported {run : RunState} {outcome : WorkflowOutcome}
    (h : Durable engine run.state run.log) (houtcome : outcome ≠ .completed) :
    Reported engine outcome run :=
  ⟨h, fun heq => absurd heq houtcome⟩

end Invariants

section Control

variable {engine : WorkflowEngine} {run : RunState} {undecided : List String}

/-- An abort is reported as it is recorded. -/
theorem handleAbort_reports (h : Sound engine run) :
    Ensures engine.handleAbort run (fun outcome after => Reported engine outcome after)
      (Sound engine) := by
  have hmarked := Durable.setStatuses h (engine.unfinishedSteps run) .cancelled
  refine .change ?_
  refine .bind (persist_ensures hmarked (.pure ?_))
  exact Durable.reported hmarked.persist (by simp)

/-- So is a cancellation. -/
theorem cancelRun_reports (h : Sound engine run) :
    Ensures engine.cancelRun run (fun outcome after => Reported engine outcome after)
      (Sound engine) := by
  have hmarked := Durable.setStatuses h (engine.unfinishedSteps run) .cancelled
  have hstamped : Durable engine { run.state.setStatuses (engine.unfinishedSteps run)
      .cancelled with cancelledAt := true } run.log := hmarked.other rfl rfl
  refine .change ?_
  refine .change ?_
  refine .change ?_
  refine .change ?_
  refine .bind (persist_ensures hstamped (.pure ?_))
  exact Durable.reported hstamped.persist (by simp)

/-- So is a finish from the board. -/
theorem handleFinishWorkflow_reports (h : Sound engine run) :
    Ensures engine.handleFinishWorkflow run (fun outcome after => Reported engine outcome after)
      (Sound engine) := by
  refine .read ?_
  split
  · have hmarked := Durable.setStatuses h (engine.unfinishedSteps run) .skipped
    refine .change ?_
    refine .bind (persist_ensures hmarked (.pure ?_))
    exact ⟨hmarked.persist, fun _ _ => Durable.allDone_markUnfinished h⟩
  · exact .fail h

variable {exitCode : Int}

/-- So is a failure. -/
theorem failWorkflow_reports {stepName : String} {message : String} (h : Sound engine run) :
    Ensures (engine.failWorkflow stepName exitCode message) run (IterationDone engine undecided)
      (Sound engine) := by
  have hmarked := Durable.setStatuses h (engine.unfinishedSteps run) .cancelled
  have hfailed := hmarked.setStatus stepName (.failed exitCode (some message))
  refine .change ?_
  refine .bind (setStatus_ensures ?_)
  refine .bind (persist_ensures hfailed (.pure ?_))
  exact Durable.reported hfailed.persist (by simp)

/-- A board decides about a failed step. -/
theorem handleStepFailureInteractive_decides {stepName : String}
    (h : Progress engine (stepName :: undecided) run.state run.log) :
    Ensures (engine.handleStepFailureInteractive stepName exitCode) run
      (IterationDone engine undecided) (Sound engine) := by
  refine .loop (fun before => Progress engine (stepName :: undecided) before.state before.log)
    ?_ (fun _ hbefore => hbefore.toDurable) h
  intro before hbefore
  refine .read (.bind (showControlBoard_ensures hbefore.toDurable ?_))
  intro action
  have hboard := hbefore.board .failure (engine.previousStepName before) action
  cases action with
  | restartCurrentStep =>
    have hset := hboard.decide .pending rfl
    exact .bind (setStatus_ensures (.bind (persist_ensures hset.toDurable
      (.pure hset.persist))))
  | cancelToPreviousStep =>
    dsimp only
    split
    · exact .pure hboard
    · rename_i prev _
      have hset := (hboard.decide .pending rfl).setRecovered prev .pending rfl
      refine .bind (setStatus_ensures ?_)
      exact .bind (setStatus_ensures (.bind (persist_ensures hset.toDurable
        (.pure hset.persist))))
  | launchNext =>
    dsimp only
    split
    · exact .pure hboard
    · have hset := hboard.decide .skipped rfl
      exact .bind (setStatus_ensures (.bind (persist_ensures hset.toDurable
        (.pure hset.persist))))
  | abort =>
    exact .map (handleAbort_reports hboard.toDurable)
  | pause =>
    exact .bind (persist_ensures hboard.toDurable
      (.pure (Durable.reported hboard.toDurable.persist (by simp))))
  | dismiss | finishWorkflow | continueInCurrentContainer | retryFailedStep => exact .pure hboard

/-- Without a board a retry or the end decides. -/
theorem handleStepFailureUnattended_decides {stepName : String}
    (h : Progress engine (stepName :: undecided) run.state run.log) :
    Ensures (engine.handleStepFailureUnattended stepName exitCode) run
      (IterationDone engine undecided) (Sound engine) := by
  refine .read ?_
  split
  · exact failWorkflow_reports h.toDurable
  · refine .bind (runFailureRetryCountdown_ensures (fun _ => h.toDurable) fun countdown _ => ?_)
    refine .bind (cancelRequested_ensures h.toDurable ?_)
    intro fired
    split
    · exact .map (cancelRun_reports h.toDurable)
    · have hset := h.decide .pending rfl
      cases countdown with
      | cancel => exact failWorkflow_reports h.toDurable
      | «continue» | advanceNow =>
        refine .change (.bind (setStatus_ensures ?_))
        exact .bind (persist_ensures hset.toDurable (.pure hset.persist))

/-- A failed step is decided in either way. -/
theorem handleStepFailure_decides {stepName : String}
    (h : Progress engine (stepName :: undecided) run.state run.log) :
    Ensures (engine.handleStepFailure stepName exitCode) run (IterationDone engine undecided)
      (Sound engine) := by
  refine .bind (cancelRequested_ensures h.toDurable ?_)
  intro fired
  split
  · exact .map (cancelRun_reports h.toDurable)
  · split
    · exact handleStepFailureInteractive_decides h
    · exact handleStepFailureUnattended_decides h

/-- Deciding the failures of a drained group one after the other decides all of them. -/
theorem handleGroupFailures_decides {failed : List (String × Int)}
    (h : Progress engine (failed.map Prod.fst) run.state run.log) :
    Ensures (engine.handleGroupFailures failed) run (IterationDone engine []) (Sound engine) := by
  induction failed generalizing run with
  | nil => exact .pure h
  | cons entry rest ih =>
    obtain ⟨name, exitCode⟩ := entry
    have hfirst : Ensures (engine.handleGroupStepFailure name exitCode) run
        (IterationDone engine (rest.map Prod.fst)) (Sound engine) :=
      .change (handleStepFailure_decides h)
    refine .seq hfirst ?_
    intro result after hafter
    cases result with
    | «continue» => exact ih hafter
    | ended outcome => exact .pure hafter

/-- What holds after a step of the given name ended with an exit code. -/
def StepDone (engine : WorkflowEngine) (outcome : StepOutcome) (run : RunState) : Prop :=
  Progress engine (if outcome.exitCode = 0 then [] else [outcome.stepName]) run.state run.log

/-- An exit is recorded, and a failure decided. -/
theorem finalizeStep_done {stepName : String} (h : Progress engine [] run.state run.log) :
    Ensures (engine.finalizeStep stepName exitCode) run (StepDone engine) (Sound engine) := by
  refine .bind (.ofExcept h.toDurable ?_)
  intro _ _
  have hset : Progress engine (if exitCode = 0 then [] else [stepName])
      (run.state.setStatus stepName (if exitCode = 0 then .succeeded else .failed exitCode none))
      run.log := by
    refine h.setStatus (fun _ hmem => nomatch hmem) ?_
    by_cases hzero : exitCode = 0 <;> simp [hzero, StepState.isUnrecovered]
  refine .bind (setStatus_ensures (.bind (persist_ensures hset.toDurable ?_)))
  exact .read (.pure hset.persist)

/-- What holds after a board shown while a step runs. -/
def MidStepDone (engine : WorkflowEngine) (result : MidStepOutcome) (run : RunState) : Prop :=
  match result with
  | .continue | .loopContinue => Progress engine [] run.state run.log
  | .stepCompleted outcome => StepDone engine outcome run
  | .workflowEnded outcome => Reported engine outcome run

/-- What holds when the single-step loop is left. -/
def StepResultDone (engine : WorkflowEngine) (result : InterruptibleStepResult) (run : RunState) :
    Prop :=
  match result with
  | .stepCompleted outcome => StepDone engine outcome run
  | .workflowEnded outcome => Reported engine outcome run
  | .loopContinue => Progress engine [] run.state run.log

/-- What a program that touches only containers, slots and flags keeps. -/
theorem killCurrentContainer_keeps {handle : Option Nat} {post : Unit → RunState → Prop}
    {halt : RunState → Prop}
    (hpost : ∀ slots containers, post () { run with
      activeSteps := slots, containers := containers }) :
    Ensures (WorkflowEngine.killCurrentContainer handle) run post halt := by
  refine .change ?_
  cases handle with
  | none => exact .pure (hpost _ run.containers)
  | some _ => exact cancelContainer_ensures (hpost _ _)

theorem killUnlessFinished_keeps {exit : Option (Except String Int)} {handle : Option Nat}
    {post : Unit → RunState → Prop} {halt : RunState → Prop}
    (hpost : ∀ slots containers, post () { run with
      activeSteps := slots, containers := containers }) :
    Ensures (WorkflowEngine.killUnlessFinished exit handle) run post halt := by
  cases exit with
  | none => exact killCurrentContainer_keeps hpost
  | some _ => exact .pure (hpost run.activeSteps run.containers)

theorem pollWait_keeps {handle : Nat} {post : Option (Except String Int) → RunState → Prop}
    {halt : RunState → Prop} (hhalt : halt run)
    (hpost : ∀ exit slots containers, post exit { run with
      activeSteps := slots, containers := containers }) :
    Ensures (WorkflowEngine.pollWait handle) run post halt := by
  refine .bind (.receive hhalt ?_)
  intro exit
  cases exit with
  | none => exact .pure (hpost none run.activeSteps run.containers)
  | some result =>
    exact .change (.bind (containerGone_ensures (.pure (hpost _ _ _))))

/-- A step goes on behind the board. -/
theorem resumeMidStep_done {stepName : String} {exit : Option (Except String Int)}
    (h : Progress engine [] run.state run.log) :
    Ensures (engine.resumeMidStep stepName exit) run (MidStepDone engine) (Sound engine) := by
  cases exit with
  | none => exact .pure h
  | some result =>
    refine .bind (orOther_ensures h.toDurable fun exitCode => ?_)
    exact .map (finalizeStep_done h)

/-- Every answer to a board shown while a step runs leaves nothing undecided, ends the run, or
steps back. -/
theorem handleMidStepControlBoard_done {stepName : String} {handle : Nat} {cancelHandle : Option Nat}
    (h : Progress engine [] run.state run.log) :
    Ensures (engine.handleMidStepControlBoard stepName handle cancelHandle) run
      (MidStepDone engine) (Sound engine) := by
  refine .read (.bind (.ofExcept h.toDurable fun _ _ => ?_))
  refine .bind (showControlBoard_ensures h.toDurable fun action => ?_)
  have hboard := h.board .midStep (engine.previousStepName run) action
  refine .bind (pollWait_keeps hboard.toDurable fun exit slots containers => ?_)
  cases action with
  | dismiss => exact resumeMidStep_done hboard
  | retryFailedStep _ =>
    exact resumeMidStep_done hboard
  | continueInCurrentContainer _ =>
    refine .read ?_
    split
    · refine .bind (.receive hboard.toDurable fun _ => ?_)
      exact resumeMidStep_done hboard
    · exact resumeMidStep_done hboard
  | pause =>
    have hset := hboard.setRecovered stepName .pending rfl
    refine .bind (killUnlessFinished_keeps fun _ _ => .bind (setStatus_ensures ?_))
    refine .bind (persist_ensures hset.toDurable (.pure ?_))
    exact Durable.reported hset.toDurable.persist (by simp)
  | abort =>
    refine .bind (killUnlessFinished_keeps fun _ _ => .change ?_)
    have hmarked := hboard.toDurable.setStatuses (engine.unfinishedSteps run) .cancelled
    refine .bind (persist_ensures hmarked (.pure ?_))
    exact Durable.reported hmarked.persist (by simp)
  | finishWorkflow =>
    refine .read ?_
    split
    · refine .bind (killUnlessFinished_keeps fun _ _ => .change ?_)
      have hmarked := hboard.toDurable.setStatuses (engine.unfinishedSteps run) .skipped
      refine .bind (persist_ensures hmarked (.pure ?_))
      exact ⟨hmarked.persist, fun _ _ => Durable.allDone_markUnfinished hboard.toDurable⟩
    · exact .fail hboard.toDurable
  | launchNext =>
    have hset := hboard.setRecovered stepName .succeeded rfl
    refine .bind (killUnlessFinished_keeps fun _ _ => .bind (setStatus_ensures ?_))
    exact .bind (persist_ensures hset.toDurable (.pure hset.persist))
  | restartCurrentStep =>
    have hset := hboard.setRecovered stepName .pending rfl
    refine .bind (killUnlessFinished_keeps fun _ _ => .bind (setStatus_ensures ?_))
    exact .bind (persist_ensures hset.toDurable (.pure hset.persist))
  | cancelToPreviousStep =>
    refine .bind (killUnlessFinished_keeps fun _ _ => .read ?_)
    have hsame : ∀ slots containers, engine.previousStepName { run with
        log := .boardAnswered .midStep (engine.previousStepName run) .cancelToPreviousStep
          :: run.log, activeSteps := slots, containers := containers } =
        engine.previousStepName run := fun _ _ => rfl
    rw [hsame]
    cases hprevious : engine.previousStepName run with
    | none =>
      rw [hprevious] at hboard
      exact .pure hboard
    | some prev =>
      rw [hprevious] at hboard
      have hset := (hboard.toDurable.setStatus stepName .cancelled).setStatus prev .pending
      have hback : Progress engine [] _ _ := hset.persist.steppedBack
        (List.mem_cons_of_mem _ List.mem_cons_self) rfl
      refine .bind (setStatus_ensures (.bind (setStatus_ensures ?_)))
      exact .bind (persist_ensures hset (.pure hback))

theorem handleCancelToPrevious_done {kind : BoardKind} {log : List RunEvent}
    (hkind : kind = .betweenSteps) (h : Sound engine run)
    (hlog : run.log = .boardAnswered kind (engine.previousStepName run) .cancelToPreviousStep
      :: log) :
    Ensures engine.handleCancelToPrevious run
      (fun _ after => Progress engine [] after.state after.log) (Sound engine) := by
  refine .read ?_
  cases hprevious : engine.previousStepName run with
  | none => exact .fail h
  | some prev =>
    have hmem : RunEvent.boardAnswered kind (some prev) .cancelToPreviousStep ∈ run.log := by
      rw [hlog, hprevious]
      exact List.mem_cons_self
    have hback : (RunEvent.boardAnswered kind (some prev) .cancelToPreviousStep).stepsBack
        = true := by
      rw [hkind]
      rfl
    dsimp only
    split
    · rename_i curr _
      have hset := (Durable.setStatus h curr .cancelled).setStatus prev .pending
      refine .bind (setStatus_ensures (.bind (setStatus_ensures ?_)))
      exact persist_ensures hset (hset.persist.steppedBack (List.mem_cons_of_mem _ hmem) hback)
    · have hset := Durable.setStatus h prev .pending
      refine .bind (setStatus_ensures ?_)
      exact persist_ensures hset (hset.persist.steppedBack (List.mem_cons_of_mem _ hmem) hback)

theorem handleContinueInCurrentContainer_done (h : Progress engine [] run.state run.log) :
    Ensures engine.handleContinueInCurrentContainer run
      (fun _ after => Progress engine [] after.state after.log) (Sound engine) := by
  refine .read (.bind (.ofExcept h.toDurable fun next _ => ?_))
  cases next with
  | none => exact .fail h.toDurable
  | some nextStep =>
    refine .bind (.ofExcept h.toDurable fun nextAgent _ => ?_)
    split
    · split
      · refine .bind (.receive h.toDurable fun _ => ?_)
        refine .bind (orOther_ensures h.toDurable fun injected => ?_)
        cases injected with
        | false => exact .fail h.toDurable
        | true =>
          have hset := h.setRecovered nextStep.name .succeeded rfl
          refine .bind (setStatus_ensures (.change ?_))
          exact persist_ensures hset.toDurable hset.persist
      · exact .fail h.toDurable
    · exact .fail h.toDurable

theorem restartCurrent_done (h : Progress engine [] run.state run.log) :
    Ensures WorkflowEngine.restartCurrent run
      (fun _ after => Progress engine [] after.state after.log) (Sound engine) := by
  refine .read ?_
  split
  · rename_i name _
    have hset := h.setRecovered name .pending rfl
    exact .bind (setStatus_ensures (persist_ensures hset.toDurable hset.persist))
  · exact .pure h

/-- Every answer to a board between steps leaves nothing undecided, ends the run, or steps back. -/
theorem executeTopLevelAction_done {action : NextAction} {log : List RunEvent}
    (h : Progress engine [] run.state run.log)
    (hlog : run.log = .boardAnswered .betweenSteps (engine.previousStepName run) action :: log) :
    Ensures (engine.executeTopLevelAction action) run (StepResultDone engine) (Sound engine) := by
  cases action with
  | dismiss | launchNext | retryFailedStep => exact .pure h
  | finishWorkflow =>
    exact .map (handleFinishWorkflow_reports h.toDurable)
  | pause =>
    exact .bind (persist_ensures h.toDurable
      (.pure (Durable.reported h.toDurable.persist (by simp))))
  | abort => exact .map (handleAbort_reports h.toDurable)
  | restartCurrentStep => exact .map (restartCurrent_done h)
  | cancelToPreviousStep =>
    exact .map (handleCancelToPrevious_done rfl h.toDurable hlog)
  | continueInCurrentContainer _ =>
    exact .map (handleContinueInCurrentContainer_done h)

end Control

section SingleStep

variable {engine : WorkflowEngine} {run : RunState} {undecided : List String}

/-- Starting a container decides its step and leaves the others as they are; a failed start ends
the run. -/
theorem spawnPreparedStep_done {step : WorkflowStep} {prepared : PreparedStepLaunch}
    (h : Progress engine (step.name :: undecided) run.state run.log) :
    Ensures (WorkflowEngine.spawnPreparedStep step prepared) run
      (fun result after =>
        match result with
        | .error _ => Sound engine after
        | .ok _ => Progress engine undecided after.state after.log ∧ after.group = run.group ∧
            after.activeSteps = run.activeSteps) (Sound engine) := by
  have hrunning := h.decide (.running none) rfl
  refine .bind (setStatus_ensures ?_)
  refine .bind (tryPersist_ensures hrunning.toDurable (fun _ => .pure hrunning.toDurable) ?_)
  have hsaved := hrunning.persist
  have hlaunched : Progress engine undecided _ (.launched step.name prepared.attempt :: _) :=
    hsaved.event (fun _ heq => by cases heq) trivial
  refine .bind (.bind (record_ensures (.receive hlaunched.toDurable fun result => ?_)))
  cases result with
  | error message =>
    have hfailed := hlaunched.toDurable.setStatus step.name (.failed (-1) (some message))
    refine .bind (setStatus_ensures ?_)
    exact .bind (tryPersist_ensures hfailed (fun _ => .pure hfailed) (.pure hfailed.persist))
  | ok started =>
    obtain ⟨execution, ended⟩ := started
    have hrecorded := hlaunched.setRecovered step.name (.running (some execution.id)) rfl
    have hstarted : Progress engine undecided (((run.state.setStatus step.name
        (.running none)).setStatus step.name (.running (some execution.id))).recordStepContainer
          step.name execution.name) _ := hrecorded.other rfl rfl
    refine .bind (.read (.change (.pure ?_)))
    refine .bind (setStatus_ensures (.change ?_))
    refine .bind (tryPersist_ensures hstarted.toDurable (fun _ => .pure hstarted.toDurable) ?_)
    exact .pure ⟨hstarted.persist, rfl, rfl⟩

theorem prepareStepLaunch_done {step : WorkflowStep} (h : Progress engine undecided run.state run.log) :
    Ensures (engine.prepareStepLaunch step) run
      (fun _ after => Progress engine undecided after.state after.log ∧ after.group = run.group ∧
        after.activeSteps = run.activeSteps) (Sound engine) := by
  refine .bind (.ofExcept h.toDurable fun agent _ => ?_)
  refine .read (.change (.pure ?_))
  exact ⟨h.other rfl rfl, rfl, rfl⟩

/-- A launch decides nothing. -/
theorem launchStep_done (h : Progress engine [] run.state run.log) :
    Ensures engine.launchStep run (fun _ after => Progress engine [] after.state after.log)
      (Sound engine) := by
  refine .read ?_
  split
  · exact .fail h.toDurable
  · refine .bind (.ofExcept h.toDurable fun step _ => ?_)
    refine .seq (prepareStepLaunch_done h) ?_
    rintro prepared ready ⟨hready, _⟩
    refine .seq (spawnPreparedStep_done (hready.weaken step.name)) ?_
    intro spawned after hafter
    cases spawned with
    | error _ => exact .bind (.fail hafter)
    | ok launch => exact .bind (.pure (.change (.pure hafter.1)))

theorem recoverAuthFailure_done {stepName : String} {post : Bool → RunState → Prop}
    {halt : RunState → Prop} (hhalt : halt run)
    (hpost : ∀ recovered retries, post recovered { run with authRetriesUsed := retries }) :
    Ensures (WorkflowEngine.recoverAuthFailure stepName) run post halt := by
  refine .read ?_
  split
  · exact .pure (hpost false run.authRetriesUsed)
  · split
    · refine .bind (.receive hhalt fun _ => .bind (orOther_ensures hhalt fun recovered => ?_))
      cases recovered with
      | false => exact .pure (hpost false run.authRetriesUsed)
      | true => exact .change (.pure (hpost true _))
    · exact .pure (hpost false run.authRetriesUsed)

/-- A step that exited is done. -/
theorem stepExited_done {stepName : String} {handle : Nat} {result : Except String Int}
    (h : Progress engine [] run.state run.log) :
    Ensures (engine.stepExited stepName handle result) run (StepDone engine) (Sound engine) := by
  refine .change (.bind (containerGone_ensures ?_))
  exact .bind (orOther_ensures h.toDurable fun _ => finalizeStep_done h)

theorem MidStepOutcome.toResult_done {outcome : MidStepOutcome} (h : MidStepDone engine outcome run) :
    match outcome.toResult with
    | none => Progress engine [] run.state run.log
    | some result => StepResultDone engine result run := by
  cases outcome <;> exact h

/-- What holds after one signal of a single step. -/
def SignalDone (engine : WorkflowEngine) (result : Option InterruptibleStepResult)
    (run : RunState) : Prop :=
  match result with
  | none => Progress engine [] run.state run.log
  | some result => StepResultDone engine result run

section

variable {stepName : String} {handle : Nat} {cancelHandle : Option Nat}
  (h : Progress engine [] run.state run.log)
include h

theorem midStepBoard_done :
    Ensures (do
      let outcome ← engine.handleMidStepControlBoard stepName handle cancelHandle
      pure outcome.toResult) run (SignalDone engine) (Sound engine) :=
  .seq (handleMidStepControlBoard_done h) fun _ _ hafter =>
    .pure (MidStepOutcome.toResult_done hafter)

theorem handleStepStuck_done :
    Ensures (engine.handleStepStuck stepName handle cancelHandle) run (SignalDone engine)
      (Sound engine) := by
  refine .read ?_
  split
  · refine .bind (driveYoloCountdown_ensures (fun _ => h.toDurable) fun result fired => ?_)
    cases result with
    | stepCompleted exit => exact .map (stepExited_done h)
    | showControlBoard => exact midStepBoard_done h
    | cancelled | recovered => exact .pure h
    | advanced =>
      have hset := h.setRecovered stepName .succeeded rfl
      refine .bind (killCurrentContainer_keeps fun slots containers => ?_)
      refine .bind (setStatus_ensures (.bind (persist_ensures hset.toDurable ?_)))
      refine .bind (.ofExcept hset.persist.toDurable fun _ _ => .read ?_)
      split
      · refine .bind (.ofExcept hset.persist.toDurable fun _ _ => ?_)
        refine .bind (showControlBoard_ensures hset.persist.toDurable fun action => ?_)
        exact .map (executeTopLevelAction_done (hset.persist.board _ _ _) rfl)
      · exact .pure hset.persist
  · exact midStepBoard_done h

theorem stepIteration_done :
    Ensures (engine.stepIteration stepName handle cancelHandle) run (SignalDone engine)
      (Sound engine) :=
  stepIteration_ensures h.toDurable h (fun _ => stepExited_done h)
    (killCurrentContainer_keeps fun _ _ => cancelRun_reports h.toDurable) (.modifyState h)
    (handleStepStuck_done h) (midStepBoard_done h)

end

/-- A step runs to an end or an interruption. -/
theorem stepOnceInterruptible_done (h : Progress engine [] run.state run.log) :
    Ensures engine.stepOnceInterruptible run (StepResultDone engine) (Sound engine) := by
  refine .seq (launchStep_done h) ?_
  intro stepName after hafter
  refine .read (.change ?_)
  exact .loop (fun before => Progress engine [] before.state before.log)
    (fun before hbefore => (stepIteration_done hbefore).mono
      (fun result _ hdone => by cases result <;> exact hdone) fun _ hsound => hsound)
    (fun _ hbefore => hbefore.toDurable) hafter

/-- A single step that failed is decided. -/
theorem singleStepFailed_decides {outcome : StepOutcome}
    (h : Progress engine [outcome.stepName] run.state run.log) :
    Ensures (engine.singleStepFailed outcome) run (IterationDone engine []) (Sound engine) := by
  refine .bind (cancelRequested_ensures h.toDurable fun fired => ?_)
  split
  · exact .map (cancelRun_reports h.toDurable)
  · refine .bind (recoverAuthFailure_done h.toDurable fun recovered retries => ?_)
    split
    · have hset := h.decide .pending rfl
      exact .bind (setStatus_ensures (.bind (persist_ensures hset.toDurable
        (.pure hset.persist))))
    · refine .bind (.ofExcept h.toDurable fun step _ => ?_)
      split
      · have hmarked := h.toDurable.setStatuses (engine.unfinishedSteps run) .cancelled
        refine .change (.change ?_)
        refine .bind (persist_ensures hmarked (.pure ?_))
        exact Durable.reported hmarked.persist (by simp)
      · exact handleStepFailure_decides h

/-- So is one that succeeded. -/
theorem singleStepSucceeded_decides (h : Progress engine [] run.state run.log) :
    Ensures engine.singleStepSucceeded run (IterationDone engine []) (Sound engine) := by
  refine singleStepSucceeded_ensures h.toDurable h fun action => ?_
  refine (executeTopLevelAction_done (h.board _ _ action) rfl).mono ?_ fun _ hsound => hsound
  intro result after hafter
  cases result with
  | stepCompleted => trivial
  | workflowEnded | loopContinue => exact hafter

/-- A single step leaves nothing undecided. -/
theorem runSingleStepIteration_decides (h : Progress engine [] run.state run.log) :
    Ensures engine.runSingleStepIteration run (IterationDone engine []) (Sound engine) := by
  refine .seq (stepOnceInterruptible_done h) ?_
  intro result after hafter
  cases result with
  | workflowEnded | loopContinue => exact .pure hafter
  | stepCompleted outcome =>
    unfold StepResultDone StepDone at hafter
    dsimp only at hafter ⊢
    split
    · rename_i hfailed
      rw [if_neg hfailed] at hafter
      exact singleStepFailed_decides hafter
    · rename_i hzero
      rw [if_pos (by simpa using hzero)] at hafter
      exact singleStepSucceeded_decides hafter

end SingleStep

end Awman.Engine
