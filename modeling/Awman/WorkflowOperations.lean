import Awman.WorkflowGroupCompletion

/-!
# Properties that every operation of an engine keeps

A run changes its state in a few ways: it launches a step, records the status of a step at work,
passes over a failed step, sends a step back, resets a group, or marks what is unfinished.
`RunInvariant` lists what a property has to survive, one field for each way.  A property that
survives them holds in every state of every run.
-/

namespace Awman.Engine

open Awman.Interaction WorkflowState

/-- What the engine does with the steps at work: it runs them, or decides their failures. -/
inductive Stage where
  /-- The steps may be launched and completed. -/
  | working
  /-- The steps have ended, and failed ones wait for a decision. -/
  | deciding
deriving DecidableEq, Repr

/-- An event that neither launches a container nor writes the state. -/
def RunEvent.isNote : RunEvent → Bool
  | .persisted _ | .launched _ _ => false
  | .boardAnswered _ _ _ | .exitHandled _ _ _ | .stuckHandled _ _ _ _ _ => true

/-- A property of runs that every operation of the engine keeps.  It may depend on the stage, on
the names of the steps at work, and on whether the state was written since it last changed. -/
structure RunInvariant (engine : WorkflowEngine) where
  Holds : Stage → List String → Bool → RunState → Prop
  /-- It depends on the state and the log alone. -/
  frame : ∀ {stage names written run after}, Holds stage names written run →
    after.state = run.state → after.log = run.log → Holds stage names written after
  /-- It need not use that the state is written. -/
  changing : ∀ {stage names run}, Holds stage names true run → Holds stage names false run
  /-- Steps that are ready may be taken to work. -/
  opened : ∀ {run} names, Holds .deciding [] true run →
    (∀ name ∈ names, name ∈ engine.nextReady run) → Holds .working names true run
  ended : ∀ {names written run}, Holds .working names written run →
    Holds .deciding names written run
  /-- Steps whose failures are decided may be left. -/
  closed : ∀ {names written run}, Holds .deciding names written run →
    Holds .deciding [] written run
  /-- The state may be written. -/
  persisted : ∀ {stage names run}, Holds stage names false run →
    Holds stage names true { run with log := .persisted run.state :: run.log }
  /-- Other events may be recorded. -/
  noted : ∀ {stage names written run} event, Holds stage names written run →
    event.isNote = true → Holds stage names written { run with log := event :: run.log }
  counted : ∀ {names run name}, Holds .working names true run → name ∈ names →
    Holds .working names false { run with state := (run.state.recordStepLaunch name).1 }
  /-- A counted launch may be written and made. -/
  launched : ∀ {names run name}, Holds .working names true run → name ∈ names →
    let state := (run.state.recordStepLaunch name).1.setStatus name (.running none)
    Holds .working names true { run with
      state := state
      log := .launched name (run.state.recordStepLaunch name).2 :: .persisted state :: run.log }
  /-- The container of a launch may be recorded. -/
  contained : ∀ {names run} name container, Holds .working names false run →
    Holds .working names false
      { run with state := run.state.recordStepContainer name container }
  worked : ∀ {names run name} status, Holds .working names false run → name ∈ names →
    Holds .working names false { run with state := run.state.setStatus name status }
  /-- A step that ended may be run again. -/
  retried : ∀ {names run name} status, Holds .deciding names false run → name ∈ names →
    status.isCompleted = false →
    Holds .deciding names false { run with state := run.state.setStatus name status }
  /-- A failed step may be passed over, as the board answered. -/
  passedOver : ∀ {names run name log}, Holds .deciding names true run → name ∈ names →
    run.currentStepName = some name →
    engine.dag.readySteps (insert name run.state.completedSteps) ≠ [] →
    run.log = .boardAnswered .failure (engine.previousStepName run) .launchNext :: log →
    Holds .deciding names false { run with state := run.state.setStatus name .skipped }
  /-- A step may be sent back to the one before it, as the board answered. -/
  sentBack : ∀ {names run name kind prev log} status, Holds .deciding names true run →
    name ∈ names → status.isCompleted = false → run.currentStepName = some name →
    engine.previousStepName run = some prev → kind ≠ .parallelGroup →
    run.log = .boardAnswered kind (engine.previousStepName run) .cancelToPreviousStep :: log →
    Holds .deciding names false
      { run with state := (run.state.setStatus name status).setStatus prev .pending }
  /-- A group may go back to the steps before it. -/
  rewound : ∀ {names run}, Holds .working names false run →
    Holds .deciding [] false { run with
      state := run.state.setStatuses ((engine.dependenciesOf names ++
        engine.dependentsOf (engine.dependenciesOf names) ++ names).insertionSort
          (· ≤ ·)).dedup .pending }
  /-- The unfinished steps may be cancelled. -/
  cancelled : ∀ {names run}, Holds .deciding names false run →
    Holds .deciding names false
      { run with state := run.state.setStatuses (engine.unfinishedSteps run) .cancelled }
  /-- The unfinished steps may be passed over. -/
  finished : ∀ {names run}, Holds .deciding names false run →
    Holds .deciding [] false
      { run with state := run.state.setStatuses (engine.unfinishedSteps run) .skipped }
  /-- A cancel may be recorded. -/
  stamped : ∀ {names run}, Holds .deciding names false run →
    Holds .deciding names false { run with state := { run.state with cancelledAt := true } }

namespace RunInvariant

variable {engine : WorkflowEngine} (invariant : RunInvariant engine)

/-- The property holds in some form. -/
def Reached (run : RunState) : Prop :=
  ∃ stage names written, invariant.Holds stage names written run

/-- Between two steps no step is at work and the state is written. -/
abbrev Idle (run : RunState) : Prop :=
  invariant.Holds .deciding [] true run

/-- The named step is at work alone, and it is the current one. -/
structure Running (name : String) (run : RunState) : Prop where
  holds : invariant.Holds .working [name] true run
  current : run.currentStepName = some name

/-- The steps at work are decided, and the named one, one of them, is the current one. -/
structure Deciding (names : List String) (name : String) (run : RunState) : Prop where
  holds : invariant.Holds .deciding names true run
  mem : name ∈ names
  current : run.currentStepName = some name

variable {invariant} {run after : RunState} {names : List String} {name : String} {stage : Stage}
  {written : Bool}

theorem reached (h : invariant.Holds stage names written run) : invariant.Reached run :=
  ⟨stage, names, written, h⟩

theorem idle (h : invariant.Holds stage names true run) : invariant.Idle run := by
  cases stage with
  | working => exact invariant.closed (invariant.ended h)
  | deciding => exact invariant.closed h

theorem Running.frame (h : invariant.Running name run) (hstate : after.state = run.state)
    (hlog : after.log = run.log) (hcurrent : after.currentStepName = run.currentStepName) :
    invariant.Running name after :=
  ⟨invariant.frame h.holds hstate hlog, hcurrent.trans h.current⟩

theorem Running.deciding (h : invariant.Running name run) :
    invariant.Deciding [name] name run :=
  ⟨invariant.ended h.holds, List.mem_singleton_self name, h.current⟩

theorem Running.noted (event : RunEvent) (h : invariant.Running name run) (hevent : event.isNote = true) :
    invariant.Running name { run with log := event :: run.log } :=
  ⟨invariant.noted event h.holds hevent, h.current⟩

theorem Deciding.noted (event : RunEvent) (h : invariant.Deciding names name run)
    (hevent : event.isNote = true) :
    invariant.Deciding names name { run with log := event :: run.log } :=
  ⟨invariant.noted event h.holds hevent, h.mem, h.current⟩

/-- The state may change again, written or not. -/
theorem unwritten (h : invariant.Holds stage names written run) :
    invariant.Holds stage names false run := by
  cases written with
  | true => exact invariant.changing h
  | false => exact h

theorem workedAll {resets : List String} (status : StepState)
    (h : invariant.Holds .working names false run) (hresets : ∀ name ∈ resets, name ∈ names) :
    invariant.Holds .working names false
      { run with state := run.state.setStatuses resets status } := by
  induction resets generalizing run with
  | nil => exact h
  | cons first rest ih =>
    have hfirst := invariant.worked status h (hresets first List.mem_cons_self)
    exact ih hfirst fun name hname => hresets name (List.mem_cons_of_mem first hname)

end RunInvariant

section Control

variable {engine : WorkflowEngine} {invariant : RunInvariant engine} {run : RunState}
  {names : List String} {name : String}

open RunInvariant

/-- What holds after a failure was decided. -/
def AfterDecision (invariant : RunInvariant engine) (names : List String)
    (result : IterationOutcome) (run : RunState) : Prop :=
  match result with
  | .continue => invariant.Holds .deciding names true run
  | .ended _ => invariant.Reached run

section

variable (h : invariant.Holds .deciding names true run)
include h

/-- What the unfinished steps are marked as ends the run. -/
theorem markCancelled_reaches {α : Type} {result : α} {post : α → RunState → Prop}
    (hpost : ∀ after, invariant.Reached after → post result after) :
    Ensures (do engine.markUnfinished .cancelled; persist; pure result) run post invariant.Reached := by
  have hmarked := invariant.cancelled (invariant.changing h)
  refine .change (.bind (persist_ensures (reached hmarked) (.pure ?_)))
  exact hpost _ (reached (invariant.persisted hmarked))

theorem handleAbort_reaches :
    Ensures engine.handleAbort run (fun _ => invariant.Reached) invariant.Reached :=
  markCancelled_reaches h fun _ hafter => hafter

theorem cancelRun_reaches :
    Ensures engine.cancelRun run (fun _ => invariant.Reached) invariant.Reached := by
  have hstopped : invariant.Holds .deciding names false { run with
      containers := tellToStop (run.activeSteps.map (·.handle)) run.containers
      activeSteps := []
      abortOnFailureTriggered := false } := invariant.frame (invariant.changing h) rfl rfl
  have hstamped := invariant.stamped (invariant.cancelled hstopped)
  refine .change (.change (.change (.change ?_)))
  exact .bind (persist_ensures (reached hstamped) (.pure (reached (invariant.persisted hstamped))))

theorem markSkipped_reaches {α : Type} {result : α} {post : α → RunState → Prop}
    (hpost : ∀ after, invariant.Reached after → post result after) :
    Ensures (do engine.markUnfinished .skipped; persist; pure result) run post invariant.Reached := by
  have hmarked := invariant.finished (invariant.changing h)
  refine .change (.bind (persist_ensures (reached hmarked) (.pure ?_)))
  exact hpost _ (reached (invariant.persisted hmarked))

theorem handleFinishWorkflow_reaches :
    Ensures engine.handleFinishWorkflow run (fun _ => invariant.Reached) invariant.Reached := by
  refine .read ?_
  split
  · exact markSkipped_reaches h fun _ hafter => hafter
  · exact .fail (reached h)

end

variable {exitCode : Int}

theorem failWorkflow_reaches {message : String} (h : invariant.Holds .deciding names true run)
    (hname : name ∈ names) :
    Ensures (engine.failWorkflow name exitCode message) run (AfterDecision invariant names)
      invariant.Reached := by
  have hmarked := invariant.cancelled (invariant.changing h)
  have hfailed := invariant.retried (.failed exitCode (some message)) hmarked hname rfl
  refine .change (.bind (setStatus_ensures ?_))
  exact .bind (persist_ensures (reached hfailed) (.pure (reached (invariant.persisted hfailed))))

theorem handleStepFailureInteractive_keeps (h : invariant.Deciding names name run) :
    Ensures (engine.handleStepFailureInteractive name exitCode) run
      (AfterDecision invariant names) invariant.Reached := by
  refine .loop (invariant.Deciding names name) ?_ (fun _ hbefore => reached hbefore.holds) h
  intro before hbefore
  refine .read (.bind (showControlBoard_ensures (reached hbefore.holds) ?_))
  intro action
  have hboard := hbefore.noted (.boardAnswered .failure (engine.previousStepName before)
    action) rfl
  cases action with
  | restartCurrentStep =>
    have hset := invariant.retried .pending (invariant.changing hboard.holds)
      hboard.mem rfl
    exact .bind (setStatus_ensures (.bind (persist_ensures (reached hset)
      (.pure (invariant.persisted hset)))))
  | cancelToPreviousStep =>
    dsimp only
    split
    · exact .pure hboard
    · rename_i prev hprev
      have hset := invariant.sentBack .pending hboard.holds hboard.mem rfl
        hboard.current hprev (by decide) rfl
      refine .bind (setStatus_ensures (.bind (setStatus_ensures ?_)))
      exact .bind (persist_ensures (reached hset) (.pure (invariant.persisted hset)))
  | launchNext =>
    dsimp only
    split
    · exact .pure hboard
    · rename_i next hnext
      have hready : engine.dag.readySteps (insert name before.state.completedSteps) ≠ [] :=
        List.ne_nil_of_mem (List.mem_of_head? hnext)
      have hset := invariant.passedOver hboard.holds hboard.mem hboard.current hready rfl
      exact .bind (setStatus_ensures (.bind (persist_ensures (reached hset)
        (.pure (invariant.persisted hset)))))
  | abort =>
    exact .map (handleAbort_reaches hboard.holds)
  | pause =>
    have hpaused := invariant.persisted (invariant.changing hboard.holds)
    exact .bind (persist_ensures (reached hboard.holds) (.pure (reached hpaused)))
  | dismiss | finishWorkflow | continueInCurrentContainer | retryFailedStep => exact .pure hboard

theorem RunInvariant.Deciding.cancel {fired : Bool} (h : invariant.Deciding names name run) :
    invariant.Deciding names name { run with cancel := fired } :=
  ⟨invariant.frame h.holds rfl rfl, h.mem, h.current⟩

theorem handleStepFailureUnattended_keeps (h : invariant.Deciding names name run) :
    Ensures (engine.handleStepFailureUnattended name exitCode) run
      (AfterDecision invariant names) invariant.Reached := by
  refine .read ?_
  split
  · exact failWorkflow_reaches h.holds h.mem
  · refine .bind (runFailureRetryCountdown_ensures (fun _ => reached h.cancel.holds) ?_)
    intro countdown counted
    have hcounted : invariant.Deciding names name { run with cancel := counted } := h.cancel
    refine .bind (cancelRequested_ensures (reached hcounted.holds) fun fired => ?_)
    split
    · exact .map (cancelRun_reaches hcounted.cancel.holds)
    · have hmarked : invariant.Holds .deciding names false { run with
          cancel := fired, autoRetriedSteps := insert name run.autoRetriedSteps } :=
        invariant.frame (invariant.changing hcounted.holds) rfl rfl
      have hset := invariant.retried .pending hmarked hcounted.mem rfl
      cases countdown with
      | cancel => exact failWorkflow_reaches hcounted.cancel.holds hcounted.mem
      | «continue» | advanceNow =>
        refine .change (.bind (setStatus_ensures ?_))
        exact .bind (persist_ensures (reached hset) (.pure (invariant.persisted hset)))

/-- A failed step is decided within the invariant. -/
theorem handleStepFailure_keeps (h : invariant.Deciding names name run) :
    Ensures (engine.handleStepFailure name exitCode) run (AfterDecision invariant names)
      invariant.Reached := by
  refine .bind (cancelRequested_ensures (reached h.holds) fun fired => ?_)
  split
  · exact .map (cancelRun_reaches h.cancel.holds)
  · split
    · exact handleStepFailureInteractive_keeps h.cancel
    · exact handleStepFailureUnattended_keeps h.cancel

/-- Each failure of a drained group is decided while the others wait. -/
theorem handleGroupFailures_keeps {failed : List (String × Int)}
    (h : invariant.Holds .deciding names true run) (hfailed : ∀ entry ∈ failed, entry.1 ∈ names) :
    Ensures (engine.handleGroupFailures failed) run (AfterDecision invariant names)
      invariant.Reached := by
  induction failed generalizing run with
  | nil => exact .pure h
  | cons entry rest ih =>
    obtain ⟨name, exitCode⟩ := entry
    have hfocused : invariant.Deciding names name { run with currentStepName := some name } :=
      ⟨invariant.frame h rfl rfl, hfailed _ List.mem_cons_self, rfl⟩
    refine .seq (.change (handleStepFailure_keeps hfocused)) ?_
    intro result after hafter
    cases result with
    | «continue» => exact ih hafter fun entry hentry => hfailed entry (List.mem_cons_of_mem _ hentry)
    | ended outcome => exact .pure hafter

/-- What holds after the named step ended. -/
def AfterStep (invariant : RunInvariant engine) (name : String) (outcome : StepOutcome)
    (run : RunState) : Prop :=
  outcome.stepName = name ∧ invariant.Running name run

/-- Recording an exit keeps it. -/
theorem finalizeStep_keeps (h : invariant.Running name run) :
    Ensures (engine.finalizeStep name exitCode) run (AfterStep invariant name)
      invariant.Reached := by
  refine .bind (.ofExcept (reached h.holds) fun _ _ => ?_)
  have hset := invariant.worked (if exitCode = 0 then .succeeded else .failed exitCode none)
    (invariant.changing h.holds) (List.mem_singleton_self name)
  refine .bind (setStatus_ensures (.bind (persist_ensures (reached hset) ?_)))
  exact .read (.pure ⟨rfl, invariant.persisted hset, h.current⟩)

/-- What holds after a board shown while the named step runs. -/
def AfterBoard (invariant : RunInvariant engine) (name : String) (result : MidStepOutcome)
    (run : RunState) : Prop :=
  match result with
  | .continue => invariant.Running name run
  | .loopContinue => invariant.Idle run
  | .stepCompleted outcome => AfterStep invariant name outcome run
  | .workflowEnded _ => invariant.Reached run

/-- What holds when the single-step loop is left. -/
def AfterSignals (invariant : RunInvariant engine) (name : String)
    (result : InterruptibleStepResult) (run : RunState) : Prop :=
  match result with
  | .stepCompleted outcome => AfterStep invariant name outcome run
  | .loopContinue => invariant.Idle run
  | .workflowEnded _ => invariant.Reached run

theorem resumeMidStep_keeps {exit : Option (Except String Int)} (h : invariant.Running name run) :
    Ensures (engine.resumeMidStep name exit) run (AfterBoard invariant name)
      invariant.Reached := by
  cases exit with
  | none => exact .pure h
  | some result =>
    refine .bind (orOther_ensures (reached h.holds) fun exitCode => ?_)
    exact .map (finalizeStep_keeps h)

/-- A status of the running step that leaves it. -/
theorem leaveStep_keeps {status : StepState} {result : MidStepOutcome} (h : invariant.Running name run)
    (hresult : ∀ after, invariant.Idle after → AfterBoard invariant name result after) :
    Ensures (do setStatus name status; persist; pure result) run (AfterBoard invariant name)
      invariant.Reached := by
  have hset := invariant.worked status (invariant.changing h.holds)
    (List.mem_singleton_self name)
  refine .bind (setStatus_ensures (.bind (persist_ensures (reached hset) ?_)))
  exact .pure (hresult _ (idle (invariant.persisted hset)))

/-- The board of a running step keeps it. -/
theorem handleMidStepControlBoard_keeps {handle : Nat} {cancelHandle : Option Nat}
    (h : invariant.Running name run) :
    Ensures (engine.handleMidStepControlBoard name handle cancelHandle) run
      (AfterBoard invariant name) invariant.Reached := by
  refine .read (.bind (.ofExcept (reached h.holds) fun _ _ => ?_))
  refine .bind (showControlBoard_ensures (reached h.holds) fun action => ?_)
  have hboard := h.noted (.boardAnswered .midStep (engine.previousStepName run) action) rfl
  refine .bind (pollWait_keeps (reached hboard.holds) fun exit slots containers => ?_)
  have hkilled : ∀ slots containers, invariant.Running name { run with
      log := .boardAnswered .midStep (engine.previousStepName run) action :: run.log
      activeSteps := slots
      containers := containers } := fun _ _ => hboard.frame rfl rfl rfl
  have hpolled := hkilled slots containers
  cases action with
  | dismiss | retryFailedStep => exact resumeMidStep_keeps hpolled
  | continueInCurrentContainer _ =>
    refine .read ?_
    split
    · exact .bind (.receive (reached hpolled.holds) fun _ => resumeMidStep_keeps hpolled)
    · exact resumeMidStep_keeps hpolled
  | pause =>
    refine .bind (killUnlessFinished_keeps fun slots containers => ?_)
    exact leaveStep_keeps (hkilled slots containers) fun _ hafter => reached hafter
  | abort =>
    refine .bind (killUnlessFinished_keeps fun slots containers => ?_)
    exact markCancelled_reaches (hkilled slots containers).deciding.holds fun _ hafter => hafter
  | finishWorkflow =>
    refine .read ?_
    split
    · refine .bind (killUnlessFinished_keeps fun slots containers => ?_)
      exact markSkipped_reaches (hkilled slots containers).deciding.holds fun _ hafter => hafter
    · exact .fail (reached hpolled.holds)
  | launchNext | restartCurrentStep =>
    refine .bind (killUnlessFinished_keeps fun slots containers => ?_)
    exact leaveStep_keeps (hkilled slots containers) fun _ hafter => hafter
  | cancelToPreviousStep =>
    refine .bind (killUnlessFinished_keeps fun slots containers => .read ?_)
    have hstep := hkilled slots containers
    split
    · rename_i prev hprev
      have hset := invariant.sentBack .cancelled hstep.deciding.holds
        (List.mem_singleton_self name) rfl hstep.current hprev (by decide) rfl
      refine .bind (setStatus_ensures (.bind (setStatus_ensures ?_)))
      exact .bind (persist_ensures (reached hset)
        (.pure (idle (invariant.persisted hset))))
    · exact .pure (idle hstep.holds)

/-- So does going back to the step before. -/
theorem handleCancelToPrevious_keeps {log : List RunEvent} (h : invariant.Running name run)
    (hlog : run.log = .boardAnswered .betweenSteps (engine.previousStepName run)
      .cancelToPreviousStep :: log) :
    Ensures engine.handleCancelToPrevious run (fun _ => invariant.Idle) invariant.Reached := by
  refine .read ?_
  split
  · rename_i prev hprev
    have hset := invariant.sentBack .cancelled h.deciding.holds
      (List.mem_singleton_self name) rfl h.current hprev (by decide) hlog
    rw [h.current]
    refine .bind (setStatus_ensures (.bind (setStatus_ensures ?_)))
    exact persist_ensures (reached hset) (idle (invariant.persisted hset))
  · exact .fail (reached h.holds)

theorem nextReadyStep_ok {step : WorkflowStep} (h : engine.nextReadyStep run = .ok (some step)) :
    step.name ∈ engine.nextReady run := by
  unfold WorkflowEngine.nextReadyStep at h
  split at h
  · cases h
  · rename_i first hfirst
    cases hfound : engine.findStep first with
    | error e => simp [hfound, Except.map] at h
    | ok found =>
      obtain rfl : found = step := by simpa [hfound, Except.map] using h
      rw [(findStep_ok hfound).1]
      exact List.mem_of_head? hfirst

theorem handleContinueInCurrentContainer_keeps (h : invariant.Idle run) :
    Ensures engine.handleContinueInCurrentContainer run (fun _ => invariant.Idle)
      invariant.Reached := by
  refine .read (.bind (.ofExcept (reached h) fun next hnext => ?_))
  cases next with
  | none => exact .fail (reached h)
  | some nextStep =>
    refine .bind (.ofExcept (reached h) fun nextAgent _ => ?_)
    split
    · split
      · refine .bind (.receive (reached h) fun _ => ?_)
        refine .bind (orOther_ensures (reached h) fun injected => ?_)
        cases injected with
        | false => exact .fail (reached h)
        | true =>
          have hopened := invariant.opened [nextStep.name] h
            (by simpa using nextReadyStep_ok hnext)
          have hset := invariant.worked .succeeded (invariant.changing hopened)
            (List.mem_singleton_self nextStep.name)
          have hmoved : invariant.Holds .working [nextStep.name] false { run with
              state := run.state.setStatus nextStep.name .succeeded
              currentStepName := some nextStep.name } := invariant.frame hset rfl rfl
          refine .bind (setStatus_ensures (.change ?_))
          exact persist_ensures (reached hmoved) (idle (invariant.persisted hmoved))
      · exact .fail (reached h)
    · exact .fail (reached h)

theorem restartCurrent_keeps (h : invariant.Running name run) :
    Ensures WorkflowEngine.restartCurrent run (fun _ => invariant.Idle) invariant.Reached := by
  refine .read ?_
  have hset := invariant.worked .pending (invariant.changing h.holds)
    (List.mem_singleton_self name)
  rw [h.current]
  exact .bind (setStatus_ensures (persist_ensures (reached hset)
    (idle (invariant.persisted hset))))

/-- Every answer to a board between steps leaves the step or ends the run. -/
theorem executeTopLevelAction_keeps {action : NextAction} {log : List RunEvent}
    (h : invariant.Running name run)
    (hlog : run.log = .boardAnswered .betweenSteps (engine.previousStepName run) action :: log) :
    Ensures (engine.executeTopLevelAction action) run (AfterSignals invariant name)
      invariant.Reached := by
  have hidle : invariant.Idle run := idle h.holds
  cases action with
  | dismiss | launchNext | retryFailedStep => exact .pure hidle
  | finishWorkflow =>
    exact .map (handleFinishWorkflow_reaches hidle)
  | pause =>
    have hpaused := invariant.persisted (invariant.changing hidle)
    exact .bind (persist_ensures (reached hidle) (.pure (reached hpaused)))
  | abort => exact .map (handleAbort_reaches hidle)
  | restartCurrentStep => exact .map (restartCurrent_keeps h)
  | cancelToPreviousStep =>
    exact .map (handleCancelToPrevious_keeps h hlog)
  | continueInCurrentContainer _ =>
    exact .map (handleContinueInCurrentContainer_keeps hidle)

end Control

section SingleStep

variable {engine : WorkflowEngine} {invariant : RunInvariant engine} {run : RunState}
  {names : List String} {name : String}

open RunInvariant

/-- What preparing a launch does: it counts the launch. -/
theorem prepareStepLaunch_counts {step : WorkflowStep} {halt : RunState → Prop}
    {post : PreparedStepLaunch → RunState → Prop} (hhalt : halt run)
    (hpost : ∀ prepared, prepared.attempt = (run.state.recordStepLaunch step.name).2 →
      post prepared { run with state := (run.state.recordStepLaunch step.name).1 }) :
    Ensures (engine.prepareStepLaunch step) run post halt := by
  refine .bind (.ofExcept hhalt fun agent _ => .read ?_)
  exact .change (.pure (hpost _ rfl))

/-- Starting the container of a counted launch keeps the property. -/
theorem spawnPreparedStep_keeps {step : WorkflowStep} {prepared : PreparedStepLaunch}
    (h : invariant.Holds .working names true run) (hname : step.name ∈ names)
    (hattempt : prepared.attempt = (run.state.recordStepLaunch step.name).2) :
    Ensures (WorkflowEngine.spawnPreparedStep step prepared)
      { run with state := (run.state.recordStepLaunch step.name).1 }
      (fun result after =>
        match result with
        | .error _ => after.activeSteps = run.activeSteps ∧
            ∃ written, invariant.Holds .working names written after
        | .ok _ => invariant.Holds .working names true after ∧ after.group = run.group ∧
            after.activeSteps = run.activeSteps) invariant.Reached := by
  have hcounted := invariant.worked (.running none) (invariant.counted h hname) hname
  refine .bind (setStatus_ensures ?_)
  refine .bind (tryPersist_ensures (reached hcounted) (fun _ => .pure ⟨rfl, false, hcounted⟩) ?_)
  have hlaunched := invariant.launched h hname
  rw [← hattempt] at hlaunched
  refine .bind (.bind (record_ensures (.receive (reached hlaunched) fun result => ?_)))
  cases result with
  | error message =>
    have hfailed := invariant.worked (.failed (-1) (some message))
      (invariant.changing hlaunched) hname
    refine .bind (setStatus_ensures ?_)
    refine .bind (tryPersist_ensures (reached hfailed) (fun _ => .pure ⟨rfl, false, hfailed⟩) ?_)
    exact .pure ⟨rfl, true, invariant.persisted hfailed⟩
  | ok started =>
    obtain ⟨execution, ended⟩ := started
    have hrunning := invariant.contained step.name execution.name
      (invariant.worked (.running (some execution.id)) (invariant.changing hlaunched)
        hname)
    have hstarted : invariant.Holds .working names false { run with
        state := (((run.state.recordStepLaunch step.name).1.setStatus step.name
          (.running none)).setStatus step.name (.running (some execution.id))).recordStepContainer
            step.name execution.name
        log := .launched step.name prepared.attempt :: .persisted
          ((run.state.recordStepLaunch step.name).1.setStatus step.name (.running none)) :: run.log
        containers := if execution.running then
            { stepName := step.name, handle := run.starts.length } :: stillAlive ended run.containers
          else stillAlive ended run.containers
        starts := ⟨step.name, (stillAlive ended run.containers).filter (·.stopping)⟩ ::
          run.starts } := invariant.frame hrunning rfl rfl
    refine .bind (.read (.change (.pure ?_)))
    refine .bind (setStatus_ensures (.change ?_))
    refine .bind (tryPersist_ensures (reached hstarted) (fun _ => .pure ⟨rfl, false, hstarted⟩) ?_)
    exact .pure ⟨invariant.persisted hstarted, rfl, rfl⟩

/-- A launch leads to a running step. -/
theorem launchStep_keeps (h : invariant.Idle run) :
    Ensures engine.launchStep run (fun name after => invariant.Running name after)
      invariant.Reached := by
  refine .read ?_
  split
  · exact .fail (reached h)
  · rename_i stepName hfirst
    refine .bind (.ofExcept (reached h) fun step hstep => ?_)
    have hready : step.name ∈ engine.nextReady run := by
      rw [(findStep_ok hstep).1]
      exact List.mem_of_head? hfirst
    have hopened := invariant.opened [step.name] h (by simpa using hready)
    have hmem := List.mem_singleton_self step.name
    refine .bind (prepareStepLaunch_counts (reached h) fun prepared hattempt => ?_)
    refine .seq (spawnPreparedStep_keeps hopened hmem hattempt) ?_
    intro spawned after hafter
    cases spawned with
    | error _ => exact .bind (.fail (reached hafter.2.choose_spec))
    | ok launch =>
      exact .bind (.pure (.change (.pure ⟨invariant.frame hafter.1 rfl rfl, rfl⟩)))

theorem stepExited_keeps {handle : Nat} {result : Except String Int} (h : invariant.Running name run) :
    Ensures (engine.stepExited name handle result) run (AfterStep invariant name)
      invariant.Reached := by
  have hseen : ∀ slots containers, invariant.Running name { run with
      activeSteps := slots, containers := containers } := fun _ _ => h.frame rfl rfl rfl
  refine .change (.bind (containerGone_ensures ?_))
  exact .bind (orOther_ensures (reached (hseen _ _).holds) fun _ => finalizeStep_keeps (hseen _ _))

/-- What holds after one signal of the running step. -/
def AfterSignal (invariant : RunInvariant engine) (name : String)
    (result : Option InterruptibleStepResult) (run : RunState) : Prop :=
  match result with
  | none => invariant.Running name run
  | some result => AfterSignals invariant name result run

section

variable {handle : Nat} {cancelHandle : Option Nat} (h : invariant.Running name run)
include h

theorem midStepBoard_keeps :
    Ensures (do
      let outcome ← engine.handleMidStepControlBoard name handle cancelHandle
      pure outcome.toResult) run (AfterSignal invariant name) invariant.Reached := by
  refine .seq (handleMidStepControlBoard_keeps h) ?_
  intro outcome after hafter
  cases outcome <;> exact .pure hafter

/-- A step that is stuck keeps the invariant. -/
theorem handleStepStuck_keeps :
    Ensures (engine.handleStepStuck name handle cancelHandle) run (AfterSignal invariant name)
      invariant.Reached := by
  refine .read ?_
  split
  · have hcounted : ∀ fired, invariant.Running name { run with cancel := fired } :=
      fun _ => h.frame rfl rfl rfl
    refine .bind (driveYoloCountdown_ensures (fun fired => reached (hcounted fired).holds) ?_)
    intro result fired
    have hlooked := hcounted fired
    cases result with
    | stepCompleted exit => exact .map (stepExited_keeps hlooked)
    | showControlBoard => exact midStepBoard_keeps hlooked
    | cancelled | recovered => exact .pure hlooked
    | advanced =>
      refine .bind (killCurrentContainer_keeps fun slots containers => ?_)
      have hkilled : invariant.Running name { run with
          cancel := fired, activeSteps := slots, containers := containers } := h.frame rfl rfl rfl
      have hset := invariant.worked .succeeded
        (invariant.changing hkilled.holds) (List.mem_singleton_self name)
      have hdone : invariant.Running name _ := ⟨invariant.persisted hset, hkilled.current⟩
      refine .bind (setStatus_ensures (.bind (persist_ensures (reached hset) ?_)))
      refine .bind (.ofExcept (reached hdone.holds) fun _ _ => .read ?_)
      split
      · refine .bind (.ofExcept (reached hdone.holds) fun _ _ => ?_)
        refine .bind (showControlBoard_ensures (reached hdone.holds) fun action => ?_)
        exact .map (executeTopLevelAction_keeps (hdone.noted _ rfl) rfl)
      · exact .pure (idle hdone.holds)
  · exact midStepBoard_keeps h

theorem stepIteration_keeps :
    Ensures (engine.stepIteration name handle cancelHandle) run (AfterSignal invariant name)
      invariant.Reached := by
  refine stepIteration_ensures (reached h.holds) h (fun _ => stepExited_keeps h) ?_
    (.modifyState (h.frame rfl rfl rfl)) (handleStepStuck_keeps h) (midStepBoard_keeps h)
  refine killCurrentContainer_keeps fun slots containers => ?_
  have hkilled : invariant.Running name { run with
      cancel := true, activeSteps := slots, containers := containers } := h.frame rfl rfl rfl
  exact cancelRun_reaches hkilled.deciding.holds

end

/-- A step keeps it up to its end. -/
theorem stepOnceInterruptible_keeps (h : invariant.Idle run) :
    Ensures engine.stepOnceInterruptible run
      (fun result after => ∃ name, AfterSignals invariant name result after)
      invariant.Reached := by
  refine .seq (launchStep_keeps h) ?_
  intro stepName after hafter
  refine .read (.change ?_)
  refine .loop (invariant.Running stepName) ?_ (fun _ hbefore => reached hbefore.holds)
    (hafter.frame rfl rfl rfl)
  intro before hbefore
  refine (stepIteration_keeps hbefore).mono ?_ fun _ hreached => hreached
  intro result last hlast
  cases result with
  | none => exact hlast
  | some result => exact ⟨stepName, hlast⟩

theorem singleStepFailed_keeps {outcome : StepOutcome} (h : invariant.Running outcome.stepName run) :
    Ensures (engine.singleStepFailed outcome) run (AfterDecision invariant []) invariant.Reached := by
  have hframe : ∀ retries fired, invariant.Running outcome.stepName { run with
      authRetriesUsed := retries, cancel := fired } := fun _ _ => h.frame rfl rfl rfl
  refine .bind (cancelRequested_ensures (reached h.holds) fun fired => ?_)
  split
  · exact .map (cancelRun_reaches (hframe run.authRetriesUsed fired).deciding.holds)
  · refine .bind (recoverAuthFailure_done (reached (hframe run.authRetriesUsed fired).holds) ?_)
    intro recovered retries
    have hstep := hframe retries fired
    split
    · have hset := invariant.worked .pending (invariant.changing hstep.holds)
        (List.mem_singleton_self outcome.stepName)
      exact .bind (setStatus_ensures (.bind (persist_ensures (reached hset)
        (.pure (idle (invariant.persisted hset))))))
    · refine .bind (.ofExcept (reached hstep.holds) fun step _ => ?_)
      split
      · refine .change ?_
        have hflagged : invariant.Running outcome.stepName { run with
            cancel := fired, authRetriesUsed := retries, abortOnFailureTriggered := true } :=
          h.frame rfl rfl rfl
        exact markCancelled_reaches hflagged.deciding.holds fun _ hafter => hafter
      · refine (handleStepFailure_keeps hstep.deciding).mono ?_ fun _ hreached => hreached
        intro result after hafter
        cases result with
        | «continue» => exact invariant.closed hafter
        | ended _ => exact hafter

theorem singleStepSucceeded_keeps (h : invariant.Running name run) :
    Ensures engine.singleStepSucceeded run (AfterDecision invariant []) invariant.Reached := by
  refine singleStepSucceeded_ensures (reached h.holds) (idle h.holds) fun action => ?_
  refine (executeTopLevelAction_keeps (h.noted _ rfl) rfl).mono ?_ fun _ hreached => hreached
  intro result after hafter
  cases result with
  | stepCompleted => trivial
  | workflowEnded | loopContinue => exact hafter

/-- An iteration of one step keeps the invariant. -/
theorem runSingleStepIteration_keeps (h : invariant.Idle run) :
    Ensures engine.runSingleStepIteration run (AfterDecision invariant []) invariant.Reached := by
  refine .seq (stepOnceInterruptible_keeps h) ?_
  rintro result after ⟨name, hafter⟩
  cases result with
  | workflowEnded | loopContinue => exact .pure hafter
  | stepCompleted outcome =>
    obtain ⟨rfl, hrunning⟩ := hafter
    dsimp only
    split
    · exact singleStepFailed_keeps hrunning
    · exact singleStepSucceeded_keeps hrunning

end SingleStep

end Awman.Engine
