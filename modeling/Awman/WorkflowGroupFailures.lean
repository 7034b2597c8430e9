import Awman.WorkflowFailureDecisions
import Awman.WorkflowRuns

/-!
# Each failure of a group is decided

A running group lists the failures of its members.  A failure leaves the list only when its step is launched
again, and a group that ends without ending the run leaves just the listed ones.  The outer loop decides
those in turn, so no pass of it begins with a failed step.
-/

namespace Awman.Engine

open Awman.Interaction

section group

variable {engine : WorkflowEngine} {run : RunState} {members : List String}

theorem keeps_setQueue {queue : List WorkflowStep} : Advances KeepsFailures (setQueue queue) :=
  .modifyState fun _ => .of_same rfl rfl

theorem keeps_modifySlots {change : List ActiveParallelStep → List ActiveParallelStep} :
    Advances KeepsFailures (modifySlots change) :=
  .modifyState fun _ => .of_same rfl rfl

variable {stepName : String} {step : WorkflowStep} {now : Nat}

theorem keeps_releaseSlot : Advances KeepsFailures (releaseSlot stepName) := by
  refine .modifyState fun run => ?_
  split
  · exact .of_same rfl rfl
  · exact .of_same rfl rfl

theorem keeps_focusParallelStep :
    Advances KeepsFailures (focusParallelStep stepName) := by
  refine .modifyState fun run => ?_
  split
  · exact .of_same rfl rfl
  · exact .of_same rfl rfl

/-- What deciding a step by launching it or setting its status leaves. -/
structure Relaunched (name : String) (before after : RunState) : Prop extends
    KeepsFailures before after where
  /-- The step itself has not failed. -/
  running : ∀ exitCode, ¬ after.state.HasFailed name exitCode

/-- A launched step is running again. -/
theorem launchParallelStep_starts :
    Ensures (engine.launchParallelStep step) run (fun _ after => Relaunched step.name run after)
      fun _ => True := by
  refine .seq (keeps_prepareStepLaunch run) ?_
  intro prepared ready hready
  refine .seq spawnPreparedStep_starts ?_
  intro result after hafter
  cases result with
  | error error =>
    refine .seq .nothing fun _ _ _ => .seq .nothing fun _ _ _ => ?_
    exact .seq .nothing fun _ _ _ => .fail trivial
  | ok launch =>
    obtain ⟨hkeeps, hrunning⟩ := hafter
    have hboth : KeepsFailures run after := IsTrans.trans _ _ _ hready hkeeps
    exact .modifyState ⟨⟨hboth.failed, hboth.listed⟩, hrunning⟩

theorem keeps_launchParallelStep :
    Advances KeepsFailures (engine.launchParallelStep step) :=
  fun _ => launchParallelStep_starts.mono (fun _ _ hafter => hafter.toKeepsFailures) fun _ _ => trivial

/-- A launch from the queue keeps the failures. -/
theorem keeps_launchFromQueue : Advances KeepsFailures engine.launchFromQueue := by
  refine Advances.bind .getState fun before => ?_
  split
  · split
    · exact .pure
    · refine keeps_setQueue.bind fun _ => ?_
      exact keeps_launchParallelStep.bind fun _ => .pure
  · exact .pure

theorem keeps_launchInitialBatch : Advances KeepsFailures engine.launchInitialBatch := by
  refine Advances.loop (keeps_launchFromQueue.bind fun launched => ?_)
  cases launched with
  | false | true => exact .pure

theorem keeps_yoloAdvanceParallel {launchQueued : Bool} :
    Advances KeepsFailures (engine.yoloAdvanceParallel stepName launchQueued) := by
  refine keeps_releaseSlot.bind fun _ => (keeps_setStatus rfl).bind fun _ => ?_
  refine Advances.bind .ofExcept fun _ => keeps_persist.bind fun _ => ?_
  split
  · exact keeps_launchFromQueue.bind fun _ => .pure
  · exact .pure

theorem keeps_tickParallelYolo {launchQueued : Bool} :
    Advances KeepsFailures (engine.tickParallelYolo now launchQueued) := by
  refine Advances.bind .getState fun before => Advances.forEach ?_
  rintro ⟨stepName, deadline⟩
  refine keeps_yoloCountdownTick.bind ?_
  rintro ⟨outcome, expired⟩
  cases outcome with
  | cancel => exact keeps_modifySlots
  | advanceNow => exact keeps_yoloAdvanceParallel
  | «continue» =>
    dsimp only
    split
    · exact keeps_yoloAdvanceParallel
    · exact .pure

theorem keeps_deliverStuckEvent {launchId : Nat} {event : StuckEvent} :
    Advances KeepsFailures (engine.deliverStuckEvent now stepName launchId event) := by
  refine Advances.bind .getState fun before => keeps_modifySlots.bind fun _ => ?_
  exact Advances.bind .getState fun after => .modifyState fun _ => .of_same rfl rfl

theorem keeps_nextGroupSignal : Advances KeepsFailures nextGroupSignal :=
  fun _ => nextGroupSignal_ensures trivial fun _ _ _ _ => .of_same rfl rfl

/-- Running a member again decides it. -/
theorem restartParallelStep_starts :
    Ensures (engine.restartParallelStep stepName) run (fun _ after => Relaunched stepName run after)
      fun _ => True := by
  refine .seq (keeps_releaseSlot run) ?_
  intro _ released hreleased
  refine .read (.seq (keeps_setQueue released) ?_)
  intro _ queued hqueued
  have hboth : KeepsFailures run queued := IsTrans.trans _ _ _ hreleased hqueued
  refine .bind (.ofExcept trivial fun step hstep => ?_)
  obtain ⟨rfl, _⟩ := findStep_ok hstep
  split
  · refine launchParallelStep_starts.mono ?_ fun _ _ => trivial
    intro _ after hafter
    exact ⟨IsTrans.trans _ _ _ hboth hafter.toKeepsFailures, hafter.running⟩
  · refine .bind (setStatus_ensures (.bind (persist_ensures trivial (.read ?_))))
    refine .modifyState ⟨⟨?_, hboth.listed⟩, ?_⟩
    · exact fun other exitCode hfailed => hboth.failed other exitCode (hfailed.of_setStatus rfl).2
    · exact fun exitCode hfailed => (hfailed.of_setStatus rfl).1 rfl

/-- A pass over some names in which each takes its own step out of the failures takes out all of them. -/
theorem forEach_decides {names : List String} {body : String → EngineM Unit}
    (hbody : ∀ name before, Ensures (body name) before (fun _ after => ∀ other exitCode,
      after.state.HasFailed other exitCode → other ≠ name ∧ before.state.HasFailed other exitCode)
      fun _ => True) :
    Ensures (forEach names body) run (fun _ after => ∀ other exitCode,
      after.state.HasFailed other exitCode → other ∉ names ∧ run.state.HasFailed other exitCode)
      fun _ => True := by
  induction names generalizing run with
  | nil => exact .pure fun _ _ hfailed => ⟨List.not_mem_nil, hfailed⟩
  | cons name rest ih =>
    refine .seq (hbody name run) fun _ middle hmiddle => ih.mono ?_ fun _ _ => trivial
    intro _ after hafter other exitCode hfailed
    obtain ⟨hrest, hbefore⟩ := hafter other exitCode hfailed
    obtain ⟨hne, hrun⟩ := hmiddle other exitCode hbefore
    exact ⟨fun hmem => (List.mem_cons.mp hmem).elim hne hrest, hrun⟩

/-- A rewind leaves no failure of the group. -/
theorem rewindParallelGroup_leaves {names : List String} {failures : List (String × Int)}
    (h : OnlyFailed failures run.state) (hnames : ∀ entry ∈ failures, entry.1 ∈ names) :
    Ensures (engine.rewindParallelGroup names) run (fun _ after => OnlyFailed [] after.state)
      fun _ => True := by
  refine .bind (killActiveParallelSteps_ensures fun containers => ?_)
  refine .seq (forEach_decides ?_) ?_
  · intro name before
    refine .bind (setStatus_ensures (.bind (.ofExcept trivial fun _ _ => .pure ?_)))
    exact fun _ _ hfailed => hfailed.of_setStatus rfl
  · intro _ after hafter
    refine persist_ensures trivial ?_
    intro name exitCode hfailed
    obtain ⟨hnot, hrun⟩ := hafter name exitCode hfailed
    exact absurd (hnames _ (h name exitCode hrun)) hnot

/-- Nor does skipping it. -/
theorem skipParallelGroup_leaves {failures : List (String × Int)} (h : OnlyFailed failures run.state)
    (hmembers : ∀ entry ∈ failures, entry.1 ∈ members) :
    Ensures (engine.skipParallelGroup members) run (fun _ after => OnlyFailed [] after.state)
      fun _ => True := by
  refine .bind (killActiveParallelSteps_ensures fun containers => ?_)
  refine .seq (forEach_decides ?_) ?_
  · intro name before
    refine .read ?_
    split
    · rename_i hsucceeded
      refine .pure fun other exitCode hfailed => ⟨?_, hfailed⟩
      rintro rfl
      obtain ⟨message, hstatus⟩ := hfailed
      rw [hsucceeded] at hstatus
      cases hstatus
    · refine .bind (setStatus_ensures (.bind (.ofExcept trivial fun _ _ => .pure ?_)))
      exact fun _ _ hfailed => hfailed.of_setStatus rfl
  · intro _ after hafter
    refine persist_ensures trivial ?_
    intro name exitCode hfailed
    obtain ⟨hnot, hrun⟩ := hafter name exitCode hfailed
    exact absurd (hmembers _ (h name exitCode hrun)) hnot

/-- What a request to a running group leaves to decide. -/
def RequestLeaves (result : ParallelRequestOutcome) (run : RunState) : Prop :=
  match result with
  | .continue | .restartStep _ => OnlyFailed run.group.failed run.state
  | .ended _ => True
  | .rewound => OnlyFailed [] run.state

/-- What a pass of the group's loop leaves to decide. -/
def GroupLeaves (result : Option GroupOutcome) (run : RunState) : Prop :=
  match result with
  | none => OnlyFailed run.group.failed run.state
  | some (.drained failed) => OnlyFailed failed run.state
  | some (.ended _) => True
  | some .rewound => OnlyFailed [] run.state

/-- What keeps the failures keeps the list complete. -/
theorem KeepsFailures.complete {before after : RunState} (h : KeepsFailures before after)
    (hlisted : OnlyFailed before.group.failed before.state) :
    OnlyFailed after.group.failed after.state := by
  rw [h.listed]
  exact hlisted.keeps h

/-- What keeps the failures keeps them listed. -/
theorem listed_through {α : Type} {program : EngineM α} (h : OnlyFailed run.group.failed run.state)
    (hkeeps : Advances KeepsFailures program) :
    Ensures program run (fun _ after => OnlyFailed after.group.failed after.state) fun _ => True :=
  (hkeeps run).mono (fun _ _ hafter => hafter.complete h) fun _ _ => trivial

theorem resolveParallelGroupAction_leaves {action : NextAction}
    (h : OnlyFailed run.group.failed run.state)
    (hmembers : ∀ entry ∈ run.group.failed, entry.1 ∈ members) :
    Ensures (engine.resolveParallelGroupAction action members) run RequestLeaves fun _ => True := by
  refine resolveParallelGroupAction_ensures trivial h (fun _ _ => h)
    (rewindParallelGroup_leaves h hmembers) (rewindParallelGroup_leaves h ?_)
    (skipParallelGroup_leaves h hmembers)
  intro entry hentry
  simp [hmembers entry hentry]

theorem handleParallelEngineRequest_leaves {request : EngineRequest} {retryable : Option String}
    (h : OnlyFailed run.group.failed run.state)
    (hmembers : ∀ entry ∈ run.group.failed, entry.1 ∈ members) :
    Ensures (engine.handleParallelEngineRequest now request members retryable) run RequestLeaves
      fun _ => True := by
  refine handleParallelEngineRequest_ensures (fun board =>
      OnlyFailed board.group.failed board.state ∧ ∀ entry ∈ board.group.failed, entry.1 ∈ members)
    (fun _ _ => listed_through h keeps_modifySlots) (fun _ => ?_) (fun _ hboard => hboard.1)
    (fun _ _ _ hboard => hboard.1) (fun _ _ => .nothing) (fun _ _ => .nothing)
    fun _ _ hboard => resolveParallelGroupAction_leaves hboard.1 hboard.2
  refine (keeps_focusParallelStep run).mono ?_ fun _ _ => trivial
  intro _ focused hfocused
  rw [← hfocused.listed] at hmembers
  exact ⟨trivial, fun _ _ => ⟨hfocused.complete h, hmembers⟩⟩

/-- The failures once an exit is recorded and before it is listed. -/
def failuresAfterExit (failed : List (String × Int)) (stepName : String) (exitCode : Int)
    (authRecovered : Bool) : List (String × Int) :=
  failed ++ if exitCode ≠ 0 ∧ authRecovered = false then [(stepName, exitCode)] else []

theorem afterParallelExit_leaves {exitCode : Int} {authRecovered : Bool}
    (h : OnlyFailed (failuresAfterExit run.group.failed step.name exitCode authRecovered) run.state) :
    Ensures (engine.afterParallelExit step exitCode authRecovered) run GroupLeaves fun _ => True := by
  unfold failuresAfterExit at h
  refine afterParallelExit_ensures trivial (fun _ => .nothing) ?_ (fun _ => .nothing) ?_ ?_
  · intro hrecovered fired
    rw [if_neg fun hfailed => by simp [hrecovered] at hfailed, List.append_nil] at h
    exact listed_through h keeps_launchFromQueue
  · intro hnotRecovered hfailed fired
    rw [if_pos ⟨hfailed, hnotRecovered⟩] at h
    exact h
  · intro _ hzero fired
    rw [if_neg fun hfailed => hfailed.1 hzero, List.append_nil] at h
    exact ⟨h, listed_through h keeps_launchFromQueue⟩

/-- A failed exit is listed. -/
theorem recordParallelExit_leaves {exitCode : Int} (h : OnlyFailed run.group.failed run.state) :
    Ensures (engine.recordParallelExit stepName exitCode) run GroupLeaves fun _ => True := by
  refine .bind (recoverFailedExit_ensures trivial fun authRecovered retries => ?_)
  refine .change (.bind (.ofExcept trivial fun step hstep => ?_))
  obtain ⟨hname, _⟩ := findStep_ok hstep
  refine .bind (setStatus_ensures (.bind (persist_ensures trivial (afterParallelExit_leaves ?_))))
  change OnlyFailed (failuresAfterExit run.group.failed step.name exitCode authRecovered)
    (run.state.setStatus stepName (if exitCode = 0 then .succeeded
      else if authRecovered then .pending else .failed exitCode none))
  unfold failuresAfterExit
  rw [hname]
  by_cases hfailed : exitCode ≠ 0 ∧ authRecovered = false
  · obtain ⟨hnonzero, rfl⟩ := hfailed
    rw [if_pos ⟨hnonzero, rfl⟩, if_neg hnonzero, if_neg Bool.false_ne_true]
    exact h.fail
  · rw [if_neg hfailed, List.append_nil]
    refine h.setStatus ?_
    split
    · rfl
    · rename_i hnonzero
      rw [if_pos (by simpa [hnonzero] using hfailed)]
      rfl

theorem handleParallelExit_leaves {wait : ParallelWait} {result : Except String Int}
    (h : OnlyFailed run.group.failed run.state) :
    Ensures (engine.handleParallelExit wait result) run GroupLeaves fun _ => True :=
  handleParallelExit_ensures (fun _ => trivial) h (fun _ => .nothing)
    fun _ _ _ _ _ _ => recordParallelExit_leaves h

theorem deliverExit_leaves {wait : ParallelWait} {result : Except String Int}
    (h : OnlyFailed run.group.failed run.state) :
    Ensures (engine.deliverExit wait result) run GroupLeaves fun _ => True := by
  refine .read (.seq (handleParallelExit_leaves h) ?_)
  intro outcome after hafter
  refine .read (.bind (record_ensures (.pure ?_)))
  cases outcome with
  | none => exact hafter
  | some outcome => cases outcome <;> exact hafter

/-- A pass of the group's loop that goes on leaves no failure that is not listed. -/
theorem groupIteration_leaves (h : OnlyFailed run.group.failed run.state)
    (hmembers : ∀ entry ∈ run.group.failed, entry.1 ∈ members) :
    Ensures (engine.groupIteration members) run GroupLeaves fun _ => True := by
  refine .read ?_
  split
  · exact .pure h
  · refine .seq (keeps_nextGroupSignal run) ?_
    rintro ⟨now, signal⟩ woken hwoken
    have hlisted := hwoken.complete h
    rw [← hwoken.listed] at hmembers
    cases signal with
    | exited wait result => exact deliverExit_leaves hlisted
    | cancelled => exact .seq .nothing fun _ _ _ => .pure trivial
    | stuck stepName launchId event =>
      exact .map (listed_through hlisted keeps_deliverStuckEvent)
    | request request =>
      refine .read ?_
      refine .seq (handleParallelEngineRequest_leaves hlisted hmembers) ?_
      intro result after hafter
      cases result with
      | «continue» | rewound => exact .pure hafter
      | ended outcome => exact .pure trivial
      | restartStep name =>
        refine .read (.change (.seq restartParallelStep_starts ?_))
        intro _ restarted hrestarted
        refine .pure ?_
        intro other exitCode hfailed
        have hentry := hafter other exitCode (hrestarted.failed other exitCode hfailed)
        rw [hrestarted.listed]
        refine List.mem_filter.mpr ⟨hentry, decide_eq_true ?_⟩
        rintro rfl
        exact hrestarted.running exitCode hfailed
    | elapsed =>
      refine .read ?_
      exact .map (listed_through hlisted keeps_tickParallelYolo)

/-- A group that drains hands on the failures it has. -/
theorem groupLoop_leaves (hgroup : GroupProgress engine members run)
    (h : OnlyFailed run.group.failed run.state) :
    Ensures (loop (engine.groupIteration members)) run
      (fun outcome after => GroupLeaves (some outcome) after) fun _ => True := by
  refine .loop (fun before => GroupProgress engine members before ∧
    OnlyFailed before.group.failed before.state) ?_ (fun _ _ => trivial) ⟨hgroup, h⟩
  rintro before ⟨hbefore, hlisted⟩
  have hpass := (groupIteration_done hbefore).and (groupIteration_leaves hlisted hbefore.failures)
  refine hpass.mono ?_ fun _ _ => trivial
  rintro result after ⟨hdone, hleaves⟩
  cases result with
  | none => exact ⟨hdone, hleaves⟩
  | some outcome => exact hleaves

/-- A group that drains leaves no failure that it does not report. -/
theorem runParallelGroup_leaves {ready : List WorkflowStep}
    (hprogress : Progress engine [] run.state run.log) (h : OnlyFailed [] run.state) :
    Ensures (engine.runParallelGroup ready) run (fun outcome after => GroupLeaves (some outcome) after)
      fun _ => True := by
  refine .change ?_
  have hqueued : ∀ step ∈ ready, step.name ∈ ready.map WorkflowStep.name :=
    fun step hstep => List.mem_map.mpr ⟨step, hstep, rfl⟩
  refine .seq (.mono (.and (launchInitialBatch_keeps
    ⟨hprogress, by simp, hqueued, by simp [ParallelGroup.idle]⟩)
    (listed_through h keeps_launchInitialBatch)) (fun _ _ hboth => hboth) fun _ _ => trivial) ?_
  rintro _ launched ⟨hlaunched, hlisted⟩
  refine .seq (groupLoop_leaves hlaunched hlisted) ?_
  intro outcome after hafter
  refine .change (.pure ?_)
  cases outcome <;> exact hafter

/-- Ready steps leave the failures decided. -/
theorem runReadySteps_leaves (hprogress : Progress engine [] run.state run.log)
    (h : OnlyFailed [] run.state) : Ensures engine.runReadySteps run Settled fun _ => True := by
  refine .read (.bind (.ofExcept trivial fun ready _ => ?_))
  split
  · refine .seq (runParallelGroup_leaves hprogress h) ?_
    intro outcome after hafter
    cases outcome with
    | drained failed => exact handleGroupFailures_leaves hafter
    | ended outcome => exact .pure .ended
    | rewound => exact .pure (.continue hafter)
  · exact runSingleStepIteration_leaves h

/-- A pass of the outer loop that goes on leaves nothing failed. -/
theorem runIteration_leaves (hprogress : Progress engine [] run.state run.log)
    (h : OnlyFailed [] run.state) :
    Ensures engine.runIteration run
      (fun result after =>
        match result with
        | some _ => True
        | none => OnlyFailed [] after.state) fun _ => True := by
  refine .bind (cancelRequested_ensures trivial fun fired => ?_)
  split
  · exact .seq .nothing fun _ _ _ => .pure trivial
  · refine .read ?_
    split
    · exact .pure trivial
    · refine .seq (runReadySteps_leaves ⟨hprogress.toDurable, hprogress.recovered⟩ h) ?_
      intro result after hafter
      cases result with
      | «continue» => exact .pure (hafter rfl)
      | ended outcome => exact .pure trivial

theorem Started.onlyFailed (h : Started engine run) : OnlyFailed [] run.state := by
  have hlog : run.log = [] := by
    cases h with
    | new hnew =>
      unfold WorkflowEngine.new at hnew
      split at hnew
      · cases hnew
      · cases hnew
        rfl
    | resume _ hresume =>
      obtain ⟨rfl, state, haccepted, rfl⟩ := resume_ok hresume
      rfl
  rintro name exitCode ⟨message, hfailed⟩
  have hnever : NeverStepsBack run.log := by
    rw [hlog]
    exact fun _ hmem => nomatch hmem
  have hopen := h.progress.recovered hnever name (by rw [hfailed]; rfl)
  exact nomatch hopen

/-- No pass of a run begins with a failed step. -/
theorem Started.passes {answers : List Answer} {head : World Answer RunState} (h : Started engine run)
    (hhead : Passes engine.runIteration ⟨answers, run⟩ head) :
    Progress engine [] head.state.state head.state.log ∧ OnlyFailed [] head.state.state := by
  refine hhead.keeps (fun run => Progress engine [] run.state run.log ∧ OnlyFailed [] run.state) ?_
    ⟨h.progress, h.onlyFailed⟩
  rintro before ⟨hprogress, hfailed⟩
  have hpass := (runIteration_decides hprogress).and (runIteration_leaves hprogress hfailed)
  refine hpass.mono ?_ fun _ _ => trivial
  rintro result after ⟨hdone, hleaves⟩
  cases result with
  | none => exact ⟨hdone, hleaves⟩
  | some outcome => trivial

end group

/-! ## The failures of a drained group -/

namespace WorkflowEngine

/-- The failures are decided in turn, each by a board or a retry of its own, until one decision ends the
run or the run stops.  No container is started meanwhile. -/
inductive DecidedInTurn (engine : WorkflowEngine) : List (String × Int) → World Answer RunState →
    Except (Halt EngineError) IterationOutcome → World Answer RunState → Prop where
  /-- None is left. -/
  | nil {world : World Answer RunState} : DecidedInTurn engine [] world (.ok .continue) world
  /-- The first is decided, and then the others. -/
  | decided {name : String} {exitCode : Int} {rest : List (String × Int)}
      {before after last : World Answer RunState}
      {result : Except (Halt EngineError) IterationOutcome}
      (hrun : engine.handleGroupStepFailure name exitCode before = (.ok .continue, after))
      (hdecided : FailureDecided engine name { before.state with currentStepName := some name }
        after.state)
      (hlaunches : SameLaunches before.state after.state)
      (hrest : DecidedInTurn engine rest after result last) :
      DecidedInTurn engine ((name, exitCode) :: rest) before result last
  /-- The run does not go on. -/
  | stopped {name : String} {exitCode : Int} {rest : List (String × Int)}
      {before last : World Answer RunState} {result : Except (Halt EngineError) IterationOutcome}
      (hrun : engine.handleGroupStepFailure name exitCode before = (result, last))
      (hstopped : result ≠ .ok .continue) (hlaunches : SameLaunches before.state last.state) :
      DecidedInTurn engine ((name, exitCode) :: rest) before result last

/-- The pass that begins at `head` runs a group, and the group drains with some failures. -/
def DrainsAt (engine : WorkflowEngine) (head : World Answer RunState) (failed : List (String × Int))
    (drained : World Answer RunState) : Prop :=
  ∃ ready before, cancelRequested head = (.ok false, before) ∧ before.state.state.isComplete = false ∧
    engine.nextReadySteps before.state = .ok ready ∧
    (1 < ready.length ∧ engine.settings.maxConcurrent ≠ some 1) ∧
    engine.runParallelGroup ready before = (.ok (.drained failed), drained)

end WorkflowEngine

/-- How the outer loop goes on after an iteration. -/
def IterationOutcome.ends : IterationOutcome → Option WorkflowOutcome
  | .continue => none
  | .ended outcome => some outcome

section runs

variable {engine : WorkflowEngine} {run : RunState}

/-- The failures are decided one after another. -/
theorem handleGroupFailures_inTurn (engine : WorkflowEngine) (failed : List (String × Int))
    (world : World Answer RunState) :
    engine.DecidedInTurn failed world (engine.handleGroupFailures failed world).1
      (engine.handleGroupFailures failed world).2 := by
  induction failed generalizing world with
  | nil => exact .nil
  | cons entry rest ih =>
    obtain ⟨name, exitCode⟩ := entry
    have hdecides : Ensures (engine.handleGroupStepFailure name exitCode) world.state
        (Decides engine name { world.state with currentStepName := some name })
        (SameLaunches world.state) := handleGroupStepFailure_settles
    have hsettles := hdecides world.answers
    cases hrun : engine.handleGroupStepFailure name exitCode world with
    | mk result after =>
      have hsame : engine.handleGroupStepFailure name exitCode ⟨world.answers, world.state⟩ =
        (result, after) := hrun
      rw [hsame] at hsettles
      rw [WorkflowEngine.handleGroupFailures]
      cases result with
      | error halt =>
        rw [bind_stopped hrun]
        exact .stopped hrun nofun hsettles
      | ok outcome =>
        rw [bind_returned hrun]
        cases outcome with
        | «continue» =>
          exact .decided hrun (hsettles.decided rfl) hsettles.launches (ih after)
        | ended outcome => exact .stopped hrun nofun hsettles.launches

variable {failed : List (String × Int)}

theorem WorkflowEngine.DecidedInTurn.sameLaunches {before last : World Answer RunState}
    {result : Except (Halt EngineError) IterationOutcome}
    (h : engine.DecidedInTurn failed before result last) : SameLaunches before.state last.state := by
  induction h with
  | nil => rfl
  | decided _ _ hlaunches _ ih => exact Eq.trans ih hlaunches
  | stopped _ _ hlaunches => exact hlaunches

/-- A group that drains lists every failure it leaves. -/
theorem WorkflowEngine.DrainsAt.listed {head drained : World Answer RunState}
    (h : engine.DrainsAt head failed drained)
    (hprogress : Progress engine [] head.state.state head.state.log)
    (hnone : OnlyFailed [] head.state.state) : OnlyFailed failed drained.state.state := by
  obtain ⟨ready, before, htoken, -, -, -, hdrained⟩ := h
  have hlooks : Ensures cancelRequested head.state
      (fun _ after => Progress engine [] after.state after.log ∧ OnlyFailed [] after.state)
      fun _ => True :=
    cancelRequested_ensures trivial fun _ => ⟨hprogress, hnone⟩
  obtain ⟨hbefore, hopen⟩ := hlooks.of_run htoken
  exact (runParallelGroup_leaves hbefore hopen).of_run hdrained

/-- The pass in which a group drains ends as the decisions on its failures do. -/
theorem WorkflowEngine.DrainsAt.runIteration {head drained : World Answer RunState}
    (h : engine.DrainsAt head failed drained) :
    engine.runIteration head = ((engine.handleGroupFailures failed drained).1.map IterationOutcome.ends,
      (engine.handleGroupFailures failed drained).2) := by
  obtain ⟨ready, before, htoken, hopen, hready, hgroup, hdrained⟩ := h
  have hstate : getState before = ((.ok before.state, before) :
      Except (Halt EngineError) RunState × World Answer RunState) := rfl
  have hfound : ofExcept (engine.nextReadySteps before.state) before = (.ok ready, before) := by
    rw [hready]
    rfl
  have hsteps : engine.runReadySteps before = engine.handleGroupFailures failed drained := by
    rw [WorkflowEngine.runReadySteps, bind_returned hstate, bind_returned hfound, if_pos hgroup,
      bind_returned hdrained]
  rw [WorkflowEngine.runIteration, bind_returned htoken, if_neg Bool.false_ne_true,
    bind_returned hstate, if_neg (by rw [hopen]; exact Bool.false_ne_true)]
  cases hfailures : engine.handleGroupFailures failed drained with
  | mk result last =>
    rw [hfailures] at hsteps
    cases result with
    | error halt => rw [bind_stopped hsteps]; rfl
    | ok outcome =>
      rw [bind_returned hsteps]
      cases outcome with
      | «continue» | ended => rfl

/-- In every run, no pass of the outer loop begins with a failed step.  Where a group drains, every member
that has failed is on the list that the pass is handed, with the exit code it failed with.  Each failure on
the list is decided by a board or a retry of its own before the pass ends, unless an answer ends the run,
and no container is started while the failures are decided. -/
theorem group_failures_decided (hstarted : Started engine run) {answers : List Answer}
    {head : World Answer RunState} (hhead : Passes engine.runIteration ⟨answers, run⟩ head) :
    (∀ name exitCode, ¬ head.state.state.HasFailed name exitCode) ∧
    ∀ failed drained, engine.DrainsAt head failed drained →
      (∀ name exitCode, drained.state.state.HasFailed name exitCode → (name, exitCode) ∈ failed) ∧
      ∃ result last, engine.DecidedInTurn failed drained result last ∧
        SameLaunches drained.state last.state ∧
        engine.runIteration head = (result.map IterationOutcome.ends, last) := by
  obtain ⟨hprogress, hnone⟩ := hstarted.passes hhead
  refine ⟨fun name exitCode => hnone.none exitCode, ?_⟩
  intro failed drained hdrains
  have hturn := handleGroupFailures_inTurn engine failed drained
  exact ⟨hdrains.listed hprogress hnone, _, _, hturn, hturn.sameLaunches, hdrains.runIteration⟩

/-- What the outside answers when a member of a group exits with a failure that is no authentication
failure. -/
def memberFails (wait : ParallelWait) (exitCode : Int) : List Answer :=
  [.group 0 (.exited wait (.ok exitCode)), .token false, .token false, .authRecovered (.ok false),
    .saved (.ok ()), .token false]

/-- Both steps fail side by side.  The user runs the first again and passes over the second. -/
def bothFail : World Answer RunState where
  answers := .token false :: stepStarts ++ stepStarts ++ memberFails ⟨"lint", 0, 0⟩ 1 ++
    memberFails ⟨"test", 1, 1⟩ 2 ++ [.token false, .board (.ok .restartCurrentStep), .saved (.ok ()),
      .token false, .board (.ok .launchNext), .saved (.ok ())]
  state := lintAndTestRun.2

/-- The failures a group drained with. -/
def GroupOutcome.failures : GroupOutcome → Option (List (String × Int))
  | .drained failed => some failed
  | _ => none

theorem GroupOutcome.of_failures {result : Except (Halt EngineError) GroupOutcome}
    (h : result.toOption.bind GroupOutcome.failures = some failed) :
    result = .ok (.drained failed) := by
  obtain ⟨outcome, houtcome, hfailures⟩ := Option.bind_eq_some_iff.mp h
  rw [Checks.ok_of_toOption houtcome]
  cases outcome <;> cases hfailures
  rfl

/-- A token that does not fire is looked at once. -/
theorem cancelRequested_unfired {run : RunState} {answers : List Answer} (h : run.cancel = false) :
    cancelRequested ⟨.token false :: answers, run⟩ =
      (.ok false, ⟨answers, { run with cancel := false }⟩) := by
  have hstate : getState ⟨.token false :: answers, run⟩ = ((.ok run, ⟨.token false :: answers, run⟩) :
      Except (Halt EngineError) RunState × World Answer RunState) := rfl
  rw [cancelRequested, bind_returned hstate, if_neg (by rw [h]; exact Bool.false_ne_true)]
  rfl

/-- The run when the group starts. -/
def bothFailStart : World Answer RunState :=
  ⟨bothFail.answers.tail, { lintAndTestRun.2 with cancel := false }⟩

theorem bothFail_drains : lintAndTestRun.1.DrainsAt bothFail [("lint", 1), ("test", 2)]
    (lintAndTestRun.1.runParallelGroup lintAndTest.steps bothFailStart).2 := by
  have hready : lintAndTestRun.1.nextReadySteps bothFailStart.state = .ok lintAndTest.steps :=
    Checks.ok_of_toOption (by decide +kernel)
  have hfailures : (lintAndTestRun.1.runParallelGroup lintAndTest.steps bothFailStart).1.toOption.bind
      GroupOutcome.failures = some [("lint", 1), ("test", 2)] := by decide +kernel
  refine ⟨lintAndTest.steps, bothFailStart, cancelRequested_unfired (by decide +kernel), ?_, hready, ?_, ?_⟩
  · decide +kernel
  · exact ⟨by decide +kernel, by decide +kernel⟩
  · rw [← GroupOutcome.of_failures hfailures]

theorem group_failures_decided_bothFail :
    ∃ drained result last,
      lintAndTestRun.1.DecidedInTurn [("lint", 1), ("test", 2)] drained result last ∧
      SameLaunches drained.state last.state ∧
      lintAndTestRun.1.runIteration bothFail = (result.map IterationOutcome.ends, last) ∧
      (lintAndTestRun.1.runIteration bothFail).1.toOption = some none := by
  have hhead : Passes lintAndTestRun.1.runIteration ⟨bothFail.answers, lintAndTestRun.2⟩ bothFail :=
    .start
  obtain ⟨-, result, last, hturn, hlaunches, hpass⟩ :=
    (group_failures_decided lintAndTestRun_started hhead).2 _ _ bothFail_drains
  exact ⟨_, result, last, hturn, hlaunches, hpass, by decide +kernel⟩

end runs

end Awman.Engine
