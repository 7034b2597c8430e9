import Awman.WorkflowResume

/-!
# Rules for the engine's primitive steps

One rule for each primitive question or change of the engine, and for its countdowns and loops.  Each
states what has to hold before the step for a postcondition to hold after it, so that the
specification of an engine function is proved by following its body.
-/

namespace Awman.Engine

open Awman.Interaction

variable {run : RunState} {halt : RunState → Prop} {α : Type}

theorem orOther_ensures {result : Except String α} {post : α → RunState → Prop} (hhalt : halt run)
    (hpost : ∀ a, post a run) : Ensures (orOther result) run post halt := by
  cases result with
  | error message => exact .fail hhalt
  | ok a => exact .pure (hpost a)

theorem record_ensures {event : RunEvent} {post : Unit → RunState → Prop}
    (hpost : post () { run with log := event :: run.log }) :
    Ensures (record event) run post halt :=
  .modifyState hpost

/-- Looking at the token changes nothing but what the engine knows of it. -/
theorem cancelRequested_ensures {post : Bool → RunState → Prop} (hhalt : halt run)
    (hpost : ∀ fired, post fired { run with cancel := fired }) :
    Ensures cancelRequested run post halt := by
  refine .read ?_
  by_cases hcancel : run.cancel = true
  · rw [if_pos hcancel]
    have hsame : { run with cancel := true } = run := by
      cases run
      simp_all
    exact .pure (hsame ▸ hpost true)
  · rw [if_neg hcancel]
    exact .bind (.receive hhalt fun fired => .change (.pure (hpost fired)))

theorem tryPersist_ensures {post : Except EngineError Unit → RunState → Prop} (hhalt : halt run)
    (herror : ∀ e, post (.error e) run)
    (hok : post (.ok ()) { run with log := .persisted run.state :: run.log }) :
    Ensures tryPersist run post halt := by
  refine .read (.bind (.receive hhalt fun result => ?_))
  cases result with
  | error e => exact .pure (herror _)
  | ok _ => exact .bind (record_ensures (.pure hok))

theorem persist_ensures {post : Unit → RunState → Prop} (hhalt : halt run)
    (hpost : post () { run with log := .persisted run.state :: run.log }) :
    Ensures persist run post halt :=
  .bind (tryPersist_ensures hhalt (fun _ => .fail hhalt) (.pure hpost))

theorem setStatus_ensures {name : String} {status : StepState} {post : Unit → RunState → Prop}
    (hpost : post () { run with state := run.state.setStatus name status }) :
    Ensures (setStatus name status) run post halt :=
  .modifyState hpost

theorem showControlBoard_ensures {kind : BoardKind} {previous : Option String}
    {post : NextAction → RunState → Prop} (hhalt : halt run)
    (hpost : ∀ action, post action
      { run with log := .boardAnswered kind previous action :: run.log }) :
    Ensures (showControlBoard kind previous) run post halt :=
  .bind (.receive hhalt fun _ =>
    .bind (orOther_ensures hhalt fun action => .bind (record_ensures (.pure (hpost action)))))

theorem yoloCountdownTick_ensures {post : YoloTickOutcome × Bool → RunState → Prop} (hhalt : halt run)
    (hpost : ∀ result, post result run) :
    Ensures yoloCountdownTick run post halt :=
  .bind (.receive hhalt fun _ => .bind (orOther_ensures hhalt fun _ => .pure (hpost _)))

theorem containerGone_ensures {handle : Nat} {post : Unit → RunState → Prop}
    (hpost : post () { run with containers := run.containers.filter fun c => c.handle ≠ handle }) :
    Ensures (containerGone handle) run post halt :=
  .modifyState hpost

theorem cancelContainer_ensures {handle : Nat} {post : Unit → RunState → Prop}
    (hpost : post () { run with containers := tellToStop [handle] run.containers }) :
    Ensures (cancelContainer handle) run post halt :=
  .modifyState hpost

/-- A step that is found has the name that was asked for, and is a step of the workflow. -/
theorem findStep_ok {engine : WorkflowEngine} {name : String} {step : WorkflowStep}
    (h : engine.findStep name = .ok step) : step.name = name ∧ step ∈ engine.workflow.steps := by
  unfold WorkflowEngine.findStep at h
  split at h
  · rename_i found hfound
    cases h
    exact ⟨by simpa using List.find?_some hfound, List.mem_of_find?_eq_some hfound⟩
  · cases h

section Countdowns

/-- The countdown to a retry changes nothing but what the engine knows of the token. -/
theorem runFailureRetryCountdown_ensures {post : YoloTickOutcome → RunState → Prop}
    (hhalt : ∀ fired, halt { run with cancel := fired })
    (hpost : ∀ outcome fired, post outcome { run with cancel := fired }) :
    Ensures WorkflowEngine.runFailureRetryCountdown run post halt := by
  refine .loop (fun before => ∃ fired, before = { run with cancel := fired }) ?_ ?_
    ⟨run.cancel, rfl⟩
  · rintro before ⟨looked, rfl⟩
    refine .bind (cancelRequested_ensures (hhalt looked) fun fired => ?_)
    split
    · exact .pure (hpost _ fired)
    · refine .bind (yoloCountdownTick_ensures (hhalt fired) ?_)
      rintro ⟨outcome, expired⟩
      cases outcome with
      | «continue» =>
        cases expired with
        | true => exact .pure (hpost _ fired)
        | false => exact .pure ⟨fired, rfl⟩
      | cancel | advanceNow => exact .pure (hpost _ fired)
  · rintro before ⟨looked, rfl⟩
    exact hhalt looked

/-- So does the countdown over a step that is stuck. -/
theorem driveYoloCountdown_ensures {post : MidStepYoloResult → RunState → Prop}
    (hhalt : ∀ fired, halt { run with cancel := fired })
    (hpost : ∀ result fired, post result { run with cancel := fired }) :
    Ensures WorkflowEngine.driveYoloCountdown run post halt := by
  refine .loop (fun before => ∃ fired, before = { run with cancel := fired }) ?_ ?_
    ⟨run.cancel, rfl⟩
  · rintro before ⟨looked, rfl⟩
    refine .bind (cancelRequested_ensures (hhalt looked) fun fired => ?_)
    have hgoes : ∃ again, ({ run with cancel := fired } : RunState) = { run with cancel := again } :=
      ⟨fired, rfl⟩
    split
    · exact .pure (hpost _ fired)
    · refine .bind (.receive (hhalt fired) fun pending => ?_)
      split
      · exact .pure (hpost _ fired)
      · refine .bind (yoloCountdownTick_ensures (hhalt fired) ?_)
        rintro ⟨outcome, expired⟩
        cases outcome with
        | advanceNow | cancel => exact .pure (hpost _ fired)
        | «continue» =>
          cases expired with
          | true => exact .pure (hpost _ fired)
          | false =>
            refine .bind (.receive (hhalt fired) fun signal => ?_)
            cases signal with
            | exited => exact .pure (hpost _ fired)
            | cancelled | elapsed => exact .pure hgoes
            | stuck event =>
              cases event with
              | stuck => exact .pure hgoes
              | unstuck | startupGraceExpired => exact .pure (hpost _ fired)
            | request request =>
              cases request with
              | stepStuck => exact .pure hgoes
              | stepUnstuck | openControlBoard => exact .pure (hpost _ fired)
  · rintro before ⟨looked, rfl⟩
    exact hhalt looked

end Countdowns

section Loops

variable {engine : WorkflowEngine}

/-- One signal of a single step ends it, cancels the run, brings up a question, or leaves the step
running. -/
theorem stepIteration_ensures {stepName : String} {handle : Nat} {cancelHandle : Option Nat}
    {post : Option InterruptibleStepResult → RunState → Prop} (hhalt : halt run)
    (hgoes : post none run)
    (hexited : ∀ result, Ensures (engine.stepExited stepName handle result) run
      (fun outcome => post (some (.stepCompleted outcome))) halt)
    (hcancelled : Ensures (WorkflowEngine.killCurrentContainer cancelHandle)
      { run with cancel := true } (fun _ killed => Ensures engine.cancelRun killed
        (fun outcome => post (some (.workflowEnded outcome))) halt) halt)
    (hmarked : Ensures markFocusedKilled run (fun _ => post none) halt)
    (hstuck : Ensures (engine.handleStepStuck stepName handle cancelHandle) run post halt)
    (hboard : Ensures (do
      let outcome ← engine.handleMidStepControlBoard stepName handle cancelHandle
      pure outcome.toResult) run post halt) :
    Ensures (engine.stepIteration stepName handle cancelHandle) run post halt := by
  refine .bind (.bind (.receive hhalt fun signal => ?_))
  cases signal with
  | exited result => exact .bind (.pure (.pure (.map (hexited result))))
  | cancelled =>
    refine .change (.pure ?_)
    exact .seq hcancelled fun _ _ hkilled => .map hkilled
  | elapsed => exact .bind (.pure (.pure (.pure hgoes)))
  | stuck event =>
    refine .bind (.pure (.pure ?_))
    cases event with
    | stuck => exact hstuck
    | unstuck => exact .pure hgoes
    | startupGraceExpired => exact .map hmarked
  | request request =>
    refine .bind (.pure (.pure ?_))
    cases request with
    | openControlBoard _ => exact hboard
    | stepStuck _ => exact hstuck
    | stepUnstuck _ => exact .pure hgoes

/-- The result of carrying out a board answer, as the outer loop reads it. -/
def InterruptibleStepResult.Leads (post : IterationOutcome → RunState → Prop)
    (result : InterruptibleStepResult) (run : RunState) : Prop :=
  match result with
  | .loopContinue => post .continue run
  | .workflowEnded outcome => post (.ended outcome) run
  | .stepCompleted _ => True

/-- After a step that succeeded the run goes on, or a board is answered as one over a running
step. -/
theorem singleStepSucceeded_ensures {post : IterationOutcome → RunState → Prop} (hhalt : halt run)
    (hgoes : post .continue run)
    (hboard : ∀ action, Ensures (engine.executeTopLevelAction action)
      { run with log := .boardAnswered .betweenSteps (engine.previousStepName run) action :: run.log }
      (InterruptibleStepResult.Leads post) halt) :
    Ensures engine.singleStepSucceeded run post halt := by
  refine .read ?_
  dsimp only
  split
  · exact .pure hgoes
  · split
    · refine .bind (.ofExcept hhalt fun _ _ => .bind (showControlBoard_ensures hhalt ?_))
      intro action
      have hanswer := hboard action
      cases action with
      | dismiss | launchNext | retryFailedStep => exact .pure (hanswer [])
      | continueInCurrentContainer | restartCurrentStep | cancelToPreviousStep | finishWorkflow |
        pause | abort => exact .map hanswer.unmap
    · exact .pure hgoes

theorem askParallelGroup_ensures {post : ParallelGroupDecision → RunState → Prop} (hhalt : halt run)
    (hpost : ∀ decision, post decision run) :
    Ensures engine.askParallelGroup run post halt := by
  unfold WorkflowEngine.askParallelGroup
  split
  · exact .bind (.receive hhalt fun _ => orOther_ensures hhalt fun decision => hpost decision)
  · exact .pure (hpost _)

variable {members : List String}

/-- A board answer on the whole group goes on, names a member to run again, goes back over the
members or over what they depend on, or passes over the members. -/
theorem resolveParallelGroupAction_ensures {action : NextAction}
    {post : ParallelRequestOutcome → RunState → Prop} (hhalt : halt run) (hgoes : post .continue run)
    (hrestart : ∀ name ∈ members, post (.restartStep name) run)
    (hwhole : Ensures (engine.rewindParallelGroup members) run (fun _ => post .rewound) halt)
    (hback : Ensures (engine.rewindParallelGroup ((engine.dependenciesOf members ++
      engine.dependentsOf (engine.dependenciesOf members) ++ members).insertionSort (· ≤ ·)).dedup)
      run (fun _ => post .rewound) halt)
    (hskip : Ensures (engine.skipParallelGroup members) run (fun _ => post .rewound) halt) :
    Ensures (engine.resolveParallelGroupAction action members) run post halt := by
  unfold WorkflowEngine.resolveParallelGroupAction
  split
  · refine .bind (askParallelGroup_ensures hhalt fun decision => ?_)
    split
    · exact .map hwhole
    · refine .bind (askParallelGroup_ensures hhalt fun which => ?_)
      split
      · split
        · rename_i name hmember
          exact .pure (hrestart name hmember)
        · exact .pure hgoes
      · exact .pure hgoes
    · exact .pure hgoes
  · dsimp only
    split
    · exact .pure hgoes
    · refine .bind (askParallelGroup_ensures hhalt fun decision => ?_)
      split
      · exact .map hback
      · exact .pure hgoes
  · refine .bind (askParallelGroup_ensures hhalt fun decision => ?_)
    split
    · exact .map hskip
    · exact .pure hgoes
  · exact .pure hgoes

/-- A request reports on a step, or shows the group's board and carries out the answer. -/
theorem handleParallelEngineRequest_ensures {now : Nat} {request : EngineRequest}
    {retryable : Option String} {post : ParallelRequestOutcome → RunState → Prop}
    (Shown : RunState → Prop)
    (hstuck : ∀ stepName event, Ensures (engine.handleParallelStuckEvent now stepName event) run
      (fun _ => post .continue) halt)
    (hfocused : ∀ stepName, Ensures (focusParallelStep stepName) run (fun _ focused =>
      halt focused ∧ ∀ previous action, Shown { focused with
        log := .boardAnswered .parallelGroup previous action :: focused.log }) halt)
    (hgoes : ∀ board, Shown board → post .continue board)
    (hretry : ∀ name, retryable = some name → ∀ board, Shown board → post (.restartStep name) board)
    (hpause : ∀ board, Shown board → Ensures WorkflowEngine.pauseParallelGroup board
      (fun outcome => post (.ended outcome)) halt)
    (habort : ∀ board, Shown board → Ensures engine.abortParallelGroup board
      (fun outcome => post (.ended outcome)) halt)
    (hresolve : ∀ action board, Shown board →
      Ensures (engine.resolveParallelGroupAction action members) board post halt) :
    Ensures (engine.handleParallelEngineRequest now request members retryable) run post halt := by
  cases request with
  | stepStuck | stepUnstuck => exact .map (hstuck _ _)
  | openControlBoard stepName =>
    refine .seq (hfocused stepName) ?_
    rintro _ focused ⟨hhalt, hshown⟩
    refine .read (.bind (.ofExcept hhalt fun _ _ => ?_))
    refine .bind (showControlBoard_ensures hhalt fun action => ?_)
    have hboard := hshown (engine.previousStepName focused) action
    cases action with
    | pause => exact .map (hpause _ hboard)
    | abort => exact .map (habort _ hboard)
    | retryFailedStep name =>
      dsimp only
      split
      · rename_i hname
        exact .pure (hretry name hname _ hboard)
      · exact .pure (hgoes _ hboard)
    | restartCurrentStep | cancelToPreviousStep | launchNext =>
      dsimp only
      split
      · exact hresolve _ _ hboard
      · exact .pure (hgoes _ hboard)
    | dismiss | finishWorkflow | continueInCurrentContainer => exact .pure (hgoes _ hboard)

variable {post : Option GroupOutcome → RunState → Prop}

/-- After a recorded exit the group is cancelled, the step is queued again, the workflow is aborted,
the failure is listed, or a queued step takes the free slot. -/
theorem afterParallelExit_ensures {step : WorkflowStep} {exitCode : Int} {authRecovered : Bool}
    (hhalt : halt run)
    (hcancelled : ∀ fired, Ensures engine.cancelParallelGroup { run with cancel := fired }
      (fun outcome => post (some (.ended outcome))) halt)
    (hrecovered : authRecovered = true → ∀ fired, Ensures engine.launchFromQueue { run with
        cancel := fired, group := { run.group with queue := step :: run.group.queue } }
      (fun _ => post none) halt)
    (haborted : ∀ fired, Ensures engine.abortParallelGroup { run with cancel := fired }
      (fun outcome => post (some (.ended outcome))) halt)
    (hfailed : authRecovered = false → exitCode ≠ 0 → ∀ fired, post none { run with
      cancel := fired
      group := { run.group with failed := run.group.failed ++ [(step.name, exitCode)] } })
    (hfreed : authRecovered = false → exitCode = 0 → ∀ fired,
      post none { run with cancel := fired } ∧
      Ensures engine.launchFromQueue { run with cancel := fired } (fun _ => post none) halt) :
    Ensures (engine.afterParallelExit step exitCode authRecovered) run post halt := by
  refine .bind (cancelRequested_ensures hhalt fun fired => ?_)
  split
  · exact .map (hcancelled fired)
  · refine .read ?_
    split
    · rename_i hauth
      exact .change (.map (hrecovered hauth fired))
    · rename_i hauth
      rw [Bool.not_eq_true] at hauth
      split
      · rename_i hexit
        split
        · exact .map (haborted fired)
        · exact .change (.pure (hfailed hauth hexit fired))
      · rename_i hexit
        obtain ⟨hgoes, hlaunch⟩ := hfreed hauth (not_not.mp hexit) fired
        split
        · exact .map hlaunch
        · exact .pure hgoes

theorem cancelledFailedExit_ensures {exitCode : Int} {post : Bool → RunState → Prop}
    (hhalt : halt run) (hpost : ∀ fired cancel, post fired { run with cancel := cancel }) :
    Ensures (WorkflowEngine.cancelledFailedExit exitCode) run post halt := by
  unfold WorkflowEngine.cancelledFailedExit
  split
  · exact cancelRequested_ensures hhalt fun fired => hpost fired fired
  · exact .pure (hpost false run.cancel)

/-- A resolved wait is passed over unless its launch still holds its slot. -/
theorem handleParallelExit_ensures {wait : ParallelWait} {result : Except String Int}
    (hhalt : ∀ fired, halt { run with cancel := fired }) (hgoes : post none run)
    (hcancelled : ∀ fired, Ensures engine.cancelParallelGroup { run with cancel := fired }
      (fun outcome => post (some (.ended outcome))) halt)
    (hlive : ∀ slot ∈ run.activeSteps, slot.stepName = wait.stepName →
      slot.launchId = wait.launchId → ∀ exitCode fired,
        Ensures (engine.recordParallelExit wait.stepName exitCode) { run with cancel := fired }
          post halt) :
    Ensures (engine.handleParallelExit wait result) run post halt := by
  refine .read ?_
  split
  · rename_i hany
    obtain ⟨slot, hslot, hwait⟩ := List.any_eq_true.mp hany
    obtain ⟨hname, hlaunch⟩ := of_decide_eq_true hwait
    refine .bind (cancelRequested_ensures (hhalt run.cancel) fun fired => ?_)
    split
    · exact .map (hcancelled fired)
    · refine .bind (orOther_ensures (hhalt fired) fun exitCode => ?_)
      refine .bind (cancelledFailedExit_ensures (hhalt fired) fun cancelled again => ?_)
      split
      · exact .map (hcancelled again)
      · exact hlive slot hslot hname hlaunch exitCode again
  · exact .pure hgoes

end Loops

end Awman.Engine
