import Awman.WorkflowCompletion

/-!
# What a parallel group leaves undecided

A running group keeps its failures on a list until it drains, so the invariant of the sequential
path carries over with that list as the undecided steps.
-/

namespace Awman.Engine

open Awman.Interaction WorkflowState

/-- What holds while a group of the given members runs and only the listed steps are undecided: its
slots, queue and failures are members. -/
structure GroupOpen (engine : WorkflowEngine) (members undecided : List String) (run : RunState) :
    Prop where
  /-- Only the listed steps are undecided. -/
  progress : Progress engine undecided run.state run.log
  slots : ∀ slot ∈ run.activeSteps, slot.stepName ∈ members
  queued : ∀ step ∈ run.group.queue, step.name ∈ members
  failures : ∀ entry ∈ run.group.failed, entry.1 ∈ members

/-- What holds between two passes: only the recorded failures are undecided. -/
abbrev GroupProgress (engine : WorkflowEngine) (members : List String) (run : RunState) : Prop :=
  GroupOpen engine members (run.group.failed.map Prod.fst) run

/-- What holds after one pass of the group loop. -/
def GroupDone (engine : WorkflowEngine) (members : List String) (result : Option GroupOutcome)
    (run : RunState) : Prop :=
  match result with
  | none => GroupProgress engine members run
  | some (.drained failed) => Progress engine (failed.map Prod.fst) run.state run.log
  | some (.ended outcome) => Reported engine outcome run
  | some .rewound => Progress engine [] run.state run.log

section Group

variable {engine : WorkflowEngine} {run : RunState} {members : List String}

variable {undecided : List String} {stepName : String} {now : Nat} {halt : RunState → Prop}
  {exitCode : Int} {wait : ParallelWait}

theorem GroupOpen.sound (h : GroupOpen engine members undecided run) :
    Sound engine run :=
  h.progress.toDurable

/-- Changing slots without renaming them keeps the invariant. -/
theorem GroupOpen.modifySlots {change : List ActiveParallelStep → List ActiveParallelStep}
    (h : GroupOpen engine members undecided run)
    (hchange : ∀ slots, ∀ slot ∈ change slots, ∃ old ∈ slots, old.stepName = slot.stepName) :
    GroupOpen engine members undecided { run with activeSteps := change run.activeSteps } := by
  refine ⟨h.progress, ?_, h.queued, h.failures⟩
  intro slot hslot
  obtain ⟨old, hold, hname⟩ := hchange run.activeSteps slot hslot
  exact hname ▸ h.slots old hold

theorem mem_modifySlot {change : ActiveParallelStep → ActiveParallelStep}
    (hname : ∀ slot, (change slot).stepName = slot.stepName) :
    ∀ slots : List ActiveParallelStep, ∀ slot ∈ modifySlot stepName change slots,
      ∃ old ∈ slots, old.stepName = slot.stepName := by
  intro slots
  induction slots with
  | nil => intro slot hslot; cases hslot
  | cons first rest ih =>
    intro slot hslot
    rw [modifySlot] at hslot
    split at hslot
    · rcases List.mem_cons.mp hslot with rfl | hrest
      · exact ⟨first, List.mem_cons_self, (hname first).symm⟩
      · exact ⟨slot, List.mem_cons_of_mem _ hrest, rfl⟩
    · rcases List.mem_cons.mp hslot with rfl | hrest
      · exact ⟨slot, List.mem_cons_self, rfl⟩
      · obtain ⟨old, hold, heq⟩ := ih slot hrest
        exact ⟨old, List.mem_cons_of_mem _ hold, heq⟩

theorem handleParallelStuckEvent_keeps {event : StuckEvent} (h : GroupProgress engine members run) :
    Ensures (engine.handleParallelStuckEvent now stepName event) run
      (fun _ after => GroupProgress engine members after) halt :=
  handleParallelStuckEvent_ensures (h.modifySlots (mem_modifySlot (event.applyTo_stepName _ _)))

/-- Resetting steps to pending leaves at most the others undecided. -/
theorem resetSiblings_done {names : List String} (h : Progress engine undecided run.state run.log) :
    Ensures (engine.resetSiblings names) run
      (fun _ after => Progress engine (undecided.filter (· ∉ names)) after.state after.log)
      (Sound engine) := by
  refine (Ensures.forEach (fun rest before =>
      Progress engine (undecided.filter fun name => name ∉ names ∨ name ∈ rest) before.state
        before.log) ?_ ?_).mono ?_ fun _ hsound => hsound
  · intro name rest before hbefore
    have hset : Progress engine (undecided.filter fun other => other ∉ names ∨ other ∈ rest)
        (before.state.setStatus name .pending) before.log := by
      refine hbefore.setStatus ?_ (by simp [StepState.isUnrecovered])
      intro other hother
      simp only [List.mem_filter, List.mem_cons, decide_eq_true_eq] at hother ⊢
      tauto
    refine .bind (setStatus_ensures (.bind (.ofExcept hset.toDurable fun _ _ => ?_)))
    exact .pure hset
  · have hall : (undecided.filter fun name => name ∉ names ∨ name ∈ names) = undecided :=
      List.filter_eq_self.mpr fun name _ => by simp [em']
    rw [hall]
    exact h
  · intro _ after hafter
    simpa using hafter

theorem killActiveParallelSteps_ensures {post : List String → RunState → Prop}
    (hpost : ∀ containers, post (run.activeSteps.map (·.stepName))
      { run with activeSteps := [], containers := containers }) :
    Ensures killActiveParallelSteps run post halt :=
  .read (.change (.pure (hpost _)))

/-- Launching a step decides it. -/
theorem launchParallelStep_keeps {step : WorkflowStep}
    (h : GroupOpen engine members (step.name :: run.group.failed.map Prod.fst) run)
    (hstep : step.name ∈ members) :
    Ensures (engine.launchParallelStep step) run
      (fun _ after => GroupProgress engine members after) (Sound engine) := by
  refine .seq (prepareStepLaunch_done h.progress) ?_
  rintro prepared ready ⟨hready, hgroup, hslots⟩
  refine .seq (spawnPreparedStep_done hready) ?_
  intro result after hafter
  cases result with
  | error error =>
    refine .bind (killActiveParallelSteps_ensures fun containers => ?_)
    have hopen : Progress engine (after.state.stepsWhere StepState.isUnrecovered) after.state
        after.log := ⟨hafter, fun _ name hname => mem_stepsWhere.mpr hname⟩
    refine .seq (resetSiblings_done hopen) ?_
    intro _ reset hreset
    exact .bind (tryPersist_ensures hreset.toDurable (fun _ => .fail hreset.toDurable)
      (.fail hreset.toDurable.persist))
  | ok launch =>
    obtain ⟨hprogress, hgroup', hslots'⟩ := hafter
    refine .modifyState ⟨?_, ?_, ?_, ?_⟩
    · rw [hgroup', hgroup]
      exact hprogress
    · intro slot hslot
      rcases List.mem_append.mp hslot with hold | hnew
      · rw [hslots', hslots] at hold
        exact h.slots slot hold
      · obtain rfl := List.mem_singleton.mp hnew
        exact hstep
    · intro queued hqueued
      rw [hgroup', hgroup] at hqueued
      exact h.queued queued hqueued
    · intro entry hentry
      rw [hgroup', hgroup] at hentry
      exact h.failures entry hentry

/-- A launch keeps the progress of the group. -/
theorem launchFromQueue_keeps (h : GroupProgress engine members run) :
    Ensures engine.launchFromQueue run (fun _ after => GroupProgress engine members after)
      (Sound engine) := by
  refine .read ?_
  split
  · split
    · exact .pure h
    · rename_i next rest hqueue
      have hqueued : ∀ step ∈ next :: rest, step.name ∈ members := hqueue ▸ h.queued
      refine .change ?_
      refine .map (launchParallelStep_keeps ⟨h.progress.weaken next.name, h.slots, ?_, h.failures⟩
        (hqueued next List.mem_cons_self))
      exact fun step hstep => hqueued step (List.mem_cons_of_mem _ hstep)
  · exact .pure h

theorem launchInitialBatch_keeps (h : GroupProgress engine members run) :
    Ensures engine.launchInitialBatch run (fun _ after => GroupProgress engine members after)
      (Sound engine) := by
  refine .loop (GroupProgress engine members) ?_ (fun _ hbefore => hbefore.sound) h
  intro before hbefore
  refine .seq (launchFromQueue_keeps hbefore) ?_
  intro launched after hafter
  cases launched <;> exact .pure hafter

section

variable (h : GroupOpen engine members undecided run)
include h

/-- Setting a status that is neither failed nor cancelled keeps the invariant. -/
theorem GroupOpen.setRecovered (name : String)
    (status : StepState) (hstatus : status.isUnrecovered = false) :
    GroupOpen engine members undecided { run with state := run.state.setStatus name status } :=
  ⟨h.progress.setRecovered name status hstatus, h.slots, h.queued, h.failures⟩

theorem GroupOpen.persist :
    GroupOpen engine members undecided { run with log := .persisted run.state :: run.log } :=
  ⟨h.progress.persist, h.slots, h.queued, h.failures⟩

/-- Dropping a slot keeps the invariant. -/
theorem GroupOpen.dropSlots {slots : List ActiveParallelStep} {containers : List Container} (hslots : ∀ slot ∈ slots, slot ∈ run.activeSteps) :
    GroupOpen engine members undecided
      { run with containers := containers, activeSteps := slots } :=
  ⟨h.progress, fun slot hslot => h.slots slot (hslots slot hslot), h.queued, h.failures⟩

/-- A released slot decides nothing. -/
theorem releaseSlot_keeps :
    Ensures (releaseSlot stepName) run (fun _ after => GroupOpen engine members undecided after ∧
      after.group = run.group) halt := by
  refine .modifyState ?_
  split
  · exact ⟨h, rfl⟩
  · exact ⟨h.dropSlots fun slot hslot => List.mem_of_mem_eraseP hslot, rfl⟩

end

theorem yoloAdvanceParallel_keeps {launchQueued : Bool} (h : GroupProgress engine members run) :
    Ensures (engine.yoloAdvanceParallel stepName launchQueued) run
      (fun _ after => GroupProgress engine members after) (Sound engine) := by
  refine .seq (releaseSlot_keeps h) ?_
  rintro _ before ⟨hbefore, hgroup⟩
  rw [← hgroup] at hbefore
  have hset := hbefore.setRecovered stepName .succeeded rfl
  refine .bind (setStatus_ensures (.bind (.ofExcept hset.sound fun _ _ => ?_)))
  refine .bind (persist_ensures hset.sound ?_)
  split
  · exact .map (launchFromQueue_keeps hset.persist)
  · exact .pure hset.persist

theorem tickParallelYolo_keeps {launchQueued : Bool} (h : GroupProgress engine members run) :
    Ensures (engine.tickParallelYolo now launchQueued) run
      (fun _ after => GroupProgress engine members after) (Sound engine) := by
  refine .read ?_
  refine Ensures.forEach (fun _ before => GroupProgress engine members before) ?_ h
  rintro ⟨stepName, deadline⟩ rest before hbefore
  refine .bind (yoloCountdownTick_ensures hbefore.sound ?_)
  rintro ⟨outcome, expired⟩
  cases outcome with
  | cancel => exact .modifyState (hbefore.modifySlots (mem_modifySlot fun _ => rfl))
  | advanceNow => exact yoloAdvanceParallel_keeps hbefore
  | «continue» =>
    dsimp only
    split
    · exact yoloAdvanceParallel_keeps hbefore
    · exact .pure hbefore

/-- Running a member again decides it. -/
theorem restartParallelStep_keeps
    (h : GroupOpen engine members (stepName :: run.group.failed.map Prod.fst) run)
    (hname : stepName ∈ members) :
    Ensures (engine.restartParallelStep stepName) run
      (fun _ after => GroupProgress engine members after) (Sound engine) := by
  refine .seq (releaseSlot_keeps h) ?_
  rintro _ before ⟨hbefore, hgroup⟩
  rw [← hgroup] at hbefore
  have hqueue : GroupOpen engine members (stepName :: before.group.failed.map Prod.fst)
      { before with group := { before.group with
        queue := before.group.queue.filter fun step => step.name ≠ stepName } } :=
    ⟨hbefore.progress, hbefore.slots,
      fun step hstep => hbefore.queued step (List.mem_of_mem_filter hstep), hbefore.failures⟩
  refine .read (.change (.bind (.ofExcept hqueue.sound ?_)))
  intro step hstep
  obtain ⟨rfl, _⟩ := findStep_ok hstep
  split
  · exact launchParallelStep_keeps hqueue hname
  · have hset : GroupProgress engine members { before with
        state := before.state.setStatus step.name .pending
        group := { before.group with
          queue := before.group.queue.filter fun other => other.name ≠ step.name } } :=
      ⟨hqueue.progress.decide _ rfl, hqueue.slots, hqueue.queued, hqueue.failures⟩
    refine .bind (setStatus_ensures (.bind (persist_ensures hset.sound ?_)))
    refine .read (.modifyState ⟨hset.progress.persist, hset.slots, ?_, hset.failures⟩)
    intro queued hqueued
    rcases List.mem_cons.mp hqueued with rfl | hrest
    · exact hname
    · exact hset.queued queued hrest

/-- Resetting a set that contains the members decides every recorded failure. -/
theorem rewindParallelGroup_done {names : List String} (h : GroupProgress engine members run)
    (hnames : ∀ name ∈ members, name ∈ names) :
    Ensures (engine.rewindParallelGroup names) run
      (fun _ after => Progress engine [] after.state after.log) (Sound engine) := by
  refine .bind (killActiveParallelSteps_ensures fun containers => ?_)
  refine .seq (resetSiblings_done h.progress) ?_
  intro _ after hafter
  have hnone : (run.group.failed.map Prod.fst).filter (· ∉ names) = [] := by
    refine List.filter_eq_nil_iff.mpr fun name hname => ?_
    obtain ⟨entry, hentry, rfl⟩ := List.mem_map.mp hname
    simpa using hnames _ (h.failures entry hentry)
  rw [hnone] at hafter
  exact persist_ensures hafter.toDurable hafter.persist

/-- Passing over the members that have not succeeded decides every recorded failure. -/
theorem skipParallelGroup_done (h : GroupProgress engine members run) :
    Ensures (engine.skipParallelGroup members) run
      (fun _ after => Progress engine [] after.state after.log) (Sound engine) := by
  refine .bind (killActiveParallelSteps_ensures fun containers => ?_)
  refine .seq (Ensures.forEach (fun rest before =>
    Progress engine rest before.state before.log) ?_ ?_) ?_
  · intro name rest before hbefore
    refine .read ?_
    split
    · rename_i hsucceeded
      refine .pure ⟨hbefore.toDurable, ?_⟩
      intro hback other hother
      refine (List.mem_cons.mp (hbefore.recovered hback other hother)).resolve_left ?_
      rintro rfl
      simp [hsucceeded, StepState.isUnrecovered] at hother
    · have hset := hbefore.decide .skipped rfl
      refine .bind (setStatus_ensures (.bind (.ofExcept hset.toDurable fun _ _ => ?_)))
      exact .pure hset
  · refine ⟨h.progress.toDurable, ?_⟩
    intro hback name hname
    obtain ⟨entry, hentry, rfl⟩ := List.mem_map.mp (h.progress.recovered hback name hname)
    exact h.failures entry hentry
  · intro _ after hafter
    exact persist_ensures hafter.toDurable hafter.persist

/-- A cancelled group reports its outcome. -/
theorem cancelParallelGroup_reports (h : Sound engine run) :
    Ensures engine.cancelParallelGroup run (fun outcome after => Reported engine outcome after)
      (Sound engine) :=
  .change (cancelRun_reports h)

theorem abortParallelGroup_reports (h : Sound engine run) :
    Ensures engine.abortParallelGroup run (fun outcome after => Reported engine outcome after)
      (Sound engine) := by
  have hmarked := Durable.setStatuses h (engine.unfinishedSteps run) .cancelled
  refine .change (.bind (killActiveParallelSteps_ensures fun containers => ?_))
  refine .change (.bind (persist_ensures hmarked (.pure ?_)))
  exact Durable.reported hmarked.persist (by simp)

theorem pauseParallelGroup_reports (h : Sound engine run) :
    Ensures WorkflowEngine.pauseParallelGroup run
      (fun outcome after => Reported engine outcome after) (Sound engine) := by
  have hset := Durable.setStatuses h (run.activeSteps.map (·.stepName)) .pending
  refine .bind (killActiveParallelSteps_ensures fun containers => .change ?_)
  refine .bind (persist_ensures hset (.pure ?_))
  exact Durable.reported hset.persist (by simp)

/-- What holds after a request to a running group was handled. -/
def RequestDone (engine : WorkflowEngine) (members : List String)
    (result : ParallelRequestOutcome) (run : RunState) : Prop :=
  match result with
  | .continue => GroupProgress engine members run
  | .ended outcome => Reported engine outcome run
  | .rewound => Progress engine [] run.state run.log
  | .restartStep name => GroupProgress engine members run ∧ name ∈ members

theorem resolveParallelGroupAction_done {action : NextAction} (h : GroupProgress engine members run) :
    Ensures (engine.resolveParallelGroupAction action members) run (RequestDone engine members)
      (Sound engine) :=
  resolveParallelGroupAction_ensures h.sound h (fun _ hmember => ⟨h, hmember⟩)
    (rewindParallelGroup_done h fun _ hname => hname)
    (rewindParallelGroup_done h fun name hname => by simp [hname]) (skipParallelGroup_done h)

theorem mem_swapToFront {position : Nat} {slots : List ActiveParallelStep} {slot : ActiveParallelStep}
    (hslot : slot ∈ swapToFront position slots) : slot ∈ slots := by
  unfold swapToFront at hslot
  split at hslot
  · rename_i first focused hfirst hfocused
    rcases List.mem_or_eq_of_mem_set hslot with hinner | rfl
    · rcases List.mem_or_eq_of_mem_set hinner with hold | rfl
      · exact hold
      · exact List.mem_of_getElem? hfocused
    · exact List.mem_of_getElem? hfirst
  · exact hslot

theorem focusParallelStep_keeps (h : GroupProgress engine members run) :
    Ensures (focusParallelStep stepName) run (fun _ after => GroupProgress engine members after ∧
      after.group = run.group) halt := by
  refine .modifyState ?_
  split
  · exact ⟨h, rfl⟩
  · exact ⟨⟨h.progress, fun slot hslot => h.slots slot (mem_swapToFront hslot), h.queued,
      h.failures⟩, rfl⟩

theorem handleParallelEngineRequest_done {request : EngineRequest} {retryable : Option String}
    (h : GroupProgress engine members run) (hretryable : ∀ name, retryable = some name → name ∈ members) :
    Ensures (engine.handleParallelEngineRequest now request members retryable) run
      (RequestDone engine members) (Sound engine) := by
  refine handleParallelEngineRequest_ensures (GroupProgress engine members)
    (fun _ _ => handleParallelStuckEvent_keeps h) (fun _ => ?_) (fun _ hboard => hboard)
    (fun name hname _ hboard => ⟨hboard, hretryable name hname⟩)
    (fun _ hboard => pauseParallelGroup_reports hboard.sound)
    (fun _ hboard => abortParallelGroup_reports hboard.sound)
    fun _ _ hboard => resolveParallelGroupAction_done hboard
  refine (focusParallelStep_keeps h).mono ?_ fun _ hsound => hsound
  rintro _ focused ⟨hfocused, _⟩
  refine ⟨hfocused.sound, fun previous action => ?_⟩
  exact ⟨hfocused.progress.board _ _ _, hfocused.slots, hfocused.queued, hfocused.failures⟩

/-- Waiting for a signal changes waits, containers and what is known of the token. -/
theorem nextGroupSignal_ensures {post : Nat × GroupSignal → RunState → Prop} (hhalt : halt run)
    (hpost : ∀ result waits cancel containers, post result { run with
      cancel := cancel, group := { run.group with waits := waits }, containers := containers }) :
    Ensures nextGroupSignal run post halt := by
  refine .read (.bind (.receive hhalt ?_))
  rintro ⟨now, signal⟩
  cases signal with
  | exited wait result =>
    refine .change (.bind (containerGone_ensures (.pure ?_)))
    exact hpost _ _ run.cancel _
  | cancelled =>
    refine .change (.pure ?_)
    exact hpost _ run.group.waits true run.containers
  | stuck | request | elapsed =>
    exact .bind (.pure (.pure (hpost _ run.group.waits run.cancel run.containers)))

theorem GroupOpen.signalled (h : GroupOpen engine members undecided run) (waits : List ParallelWait)
    (cancel : Bool) (containers : List Container) :
    GroupOpen engine members undecided { run with
      cancel := cancel, group := { run.group with waits := waits }, containers := containers } :=
  ⟨h.progress, h.slots, h.queued, h.failures⟩

/-- A failure taken off the list is undecided until its step is launched or queued. -/
theorem GroupOpen.forget (h : GroupProgress engine members run) (name : String) :
    GroupOpen engine members
      (name :: (run.group.failed.filter fun entry => entry.1 ≠ name).map Prod.fst)
      { run with group := { run.group with
        failed := run.group.failed.filter fun entry => entry.1 ≠ name } } := by
  refine ⟨⟨h.progress.toDurable, ?_⟩, h.slots, h.queued,
    fun entry hentry => h.failures entry (List.mem_of_mem_filter hentry)⟩
  intro hback other hother
  obtain ⟨entry, hentry, rfl⟩ := List.mem_map.mp (h.progress.recovered hback other hother)
  by_cases heq : entry.1 = name
  · exact heq ▸ List.mem_cons_self
  · exact List.mem_cons_of_mem _ (List.mem_map.mpr
      ⟨entry, List.mem_filter.mpr ⟨hentry, by simpa using heq⟩, rfl⟩)

/-- The steps that are undecided once an exit is recorded but its failure is not on the list. -/
def undecidedAfterExit (failed : List (String × Int)) (stepName : String) (exitCode : Int)
    (authRecovered : Bool) : List String :=
  failed.map Prod.fst ++ if exitCode ≠ 0 ∧ authRecovered = false then [stepName] else []

theorem afterParallelExit_done {step : WorkflowStep} {authRecovered : Bool}
    (hprogress : Progress engine
      (undecidedAfterExit run.group.failed step.name exitCode authRecovered) run.state run.log)
    (hslots : ∀ slot ∈ run.activeSteps, slot.stepName ∈ members)
    (hqueued : ∀ queued ∈ run.group.queue, queued.name ∈ members)
    (hfailures : ∀ entry ∈ run.group.failed, entry.1 ∈ members) (hstep : step.name ∈ members) :
    Ensures (engine.afterParallelExit step exitCode authRecovered) run (GroupDone engine members)
      (Sound engine) := by
  refine afterParallelExit_ensures hprogress.toDurable ?_ ?_ ?_ ?_ ?_
  · exact fun _ => cancelParallelGroup_reports hprogress.toDurable
  · intro hrecovered fired
    refine launchFromQueue_keeps ⟨?_, hslots, ?_, hfailures⟩
    · simpa [undecidedAfterExit, hrecovered] using hprogress
    · intro queued hmem
      rcases List.mem_cons.mp hmem with rfl | hrest
      · exact hstep
      · exact hqueued queued hrest
  · exact fun _ => abortParallelGroup_reports hprogress.toDurable
  · intro hnotRecovered hfailed fired
    refine ⟨?_, hslots, hqueued, ?_⟩
    · have hlist : undecidedAfterExit run.group.failed step.name exitCode authRecovered =
          (run.group.failed ++ [(step.name, exitCode)]).map Prod.fst := by
        simp [undecidedAfterExit, hfailed, hnotRecovered]
      exact hlist ▸ hprogress
    · intro entry hentry
      rcases List.mem_append.mp hentry with hold | hnew
      · exact hfailures entry hold
      · obtain rfl := List.mem_singleton.mp hnew
        exact hstep
  · intro _ hzero fired
    have hgroup : GroupProgress engine members { run with cancel := fired } := by
      refine ⟨?_, hslots, hqueued, hfailures⟩
      simpa [undecidedAfterExit, hzero] using hprogress
    exact ⟨hgroup, launchFromQueue_keeps hgroup⟩

theorem recoverFailedExit_ensures {post : Bool → RunState → Prop} (hhalt : halt run)
    (hpost : ∀ recovered retries, post recovered { run with authRetriesUsed := retries }) :
    Ensures (WorkflowEngine.recoverFailedExit stepName exitCode) run post halt := by
  unfold WorkflowEngine.recoverFailedExit
  split
  · exact recoverAuthFailure_done hhalt hpost
  · exact .pure (hpost false run.authRetriesUsed)

/-- The exit of a member either leaves a recorded failure, or leaves the member decided. -/
theorem recordParallelExit_done (h : GroupProgress engine members run) (hname : stepName ∈ members) :
    Ensures (engine.recordParallelExit stepName exitCode) run (GroupDone engine members)
      (Sound engine) := by
  have hrecord : ∀ authRecovered retries,
      Ensures (do
        Engine.modifySlots fun slots => slots.filter fun slot => slot.stepName ≠ stepName
        let step ← Interaction.ofExcept (engine.findStep stepName)
        setStatus stepName
          (if exitCode = 0 then .succeeded
            else if authRecovered then .pending
            else .failed exitCode none)
        persist
        engine.afterParallelExit step exitCode authRecovered)
        { run with authRetriesUsed := retries } (GroupDone engine members) (Sound engine) := by
    intro authRecovered retries
    refine .change (.bind (.ofExcept h.sound ?_))
    intro step hstep
    obtain ⟨hstepName, _⟩ := findStep_ok hstep
    have hset : Progress engine
        (undecidedAfterExit run.group.failed step.name exitCode authRecovered)
        (run.state.setStatus stepName (if exitCode = 0 then .succeeded
          else if authRecovered then .pending else .failed exitCode none)) run.log := by
      refine h.progress.setStatus (fun _ hmem => Or.inr (List.mem_append_left _ hmem)) ?_
      by_cases hzero : exitCode = 0
      · simp [hzero, StepState.isUnrecovered]
      · cases authRecovered <;>
          simp [hzero, StepState.isUnrecovered, undecidedAfterExit, hstepName]
    refine .bind (setStatus_ensures (.bind (persist_ensures hset.toDurable ?_)))
    refine afterParallelExit_done hset.persist ?_ h.queued h.failures (hstepName ▸ hname)
    intro slot hslot
    exact h.slots slot (List.mem_of_mem_filter hslot)
  exact .bind (recoverFailedExit_ensures h.sound hrecord)

/-- An exit keeps the group going or ends it properly. -/
theorem handleParallelExit_done {result : Except String Int} (h : GroupProgress engine members run) :
    Ensures (engine.handleParallelExit wait result) run (GroupDone engine members)
      (Sound engine) := by
  refine handleParallelExit_ensures (fun _ => h.sound) h ?_ ?_
  · exact fun _ => cancelParallelGroup_reports h.sound
  · intro slot hslot hname _ exitCode fired
    exact recordParallelExit_done ⟨h.progress, h.slots, h.queued, h.failures⟩
      (hname ▸ h.slots slot hslot)

/-- A recorded report leaves what holds after a part of the group's loop. -/
theorem GroupDone.event {result : Option GroupOutcome} {event : RunEvent}
    (h : GroupDone engine members result run)
    (hevent : ∀ snapshot, event = .persisted snapshot → snapshot.Saved)
    (hfenced : event.Fenced engine.settings.yolo) :
    GroupDone engine members result { run with log := event :: run.log } := by
  cases result with
  | none => exact ⟨h.progress.event hevent hfenced, h.slots, h.queued, h.failures⟩
  | some outcome =>
    cases outcome with
    | drained | rewound => exact Progress.event h hevent hfenced
    | ended outcome =>
      exact ⟨h.durable.event hevent hfenced, fun houtcome hback => h.complete houtcome hback.tail⟩

/-- The exit of a launch that holds no slot is passed over. -/
theorem handleParallelExit_superseded {result : Except String Int}
    (hstale : Superseded (run.view wait.stepName).slots wait.launchId)
    {post : Option GroupOutcome → RunState → Prop} (hpost : post none run) :
    Ensures (engine.handleParallelExit wait result) run post halt := by
  refine .read ?_
  split
  · rename_i hlive
    obtain ⟨slot, hslot, hwait⟩ := List.any_eq_true.mp hlive
    obtain ⟨hname, hlaunch⟩ := of_decide_eq_true hwait
    have hview : slot ∈ (run.view wait.stepName).slots :=
      List.mem_filter.mpr ⟨hslot, decide_eq_true hname⟩
    exact absurd hlaunch (hstale slot hview)
  · exact .pure hpost

/-- So does one that may come late. -/
theorem deliverExit_done {result : Except String Int} (h : GroupProgress engine members run) :
    Ensures (engine.deliverExit wait result) run (GroupDone engine members) (Sound engine) := by
  refine .read ?_
  by_cases hstale : Superseded (run.view wait.stepName).slots wait.launchId
  · refine .bind (handleParallelExit_superseded hstale ?_)
    refine .read (.bind (record_ensures (.pure ?_)))
    have hnone : GroupDone engine members none run := h
    exact hnone.event (fun _ heq => by cases heq) fun _ => rfl
  · refine .seq (handleParallelExit_done h) ?_
    intro outcome after hafter
    refine .read (.bind (record_ensures (.pure ?_)))
    exact hafter.event (fun _ heq => by cases heq) fun hstale' => absurd hstale' hstale

theorem deliverStuckEvent_keeps {launchId : Nat} {event : StuckEvent}
    (h : GroupProgress engine members run) :
    Ensures (engine.deliverStuckEvent now stepName launchId event) run
      (fun _ after => GroupProgress engine members after) (Sound engine) := by
  have hafter : GroupProgress engine members { run with
      activeSteps := (modifySlot stepName (event.applyTo engine.settings.yolo
        (now + engine.settings.yoloCountdownDuration)) run.activeSteps) } :=
    h.modifySlots (mem_modifySlot (event.applyTo_stepName _ _))
  refine .read (.bind (handleParallelStuckEvent_ensures ?_))
  refine .read (record_ensures ?_)
  refine ⟨?_, hafter.slots, hafter.queued, hafter.failures⟩
  exact hafter.progress.event (fun _ heq => by cases heq) stuckHandled_fenced

/-- One pass of the group loop keeps the invariant or ends the group with its failures listed. -/
theorem groupIteration_done (h : GroupProgress engine members run) :
    Ensures (engine.groupIteration members) run (GroupDone engine members) (Sound engine) := by
  refine .read ?_
  split
  · exact .pure h.progress
  · refine .bind (nextGroupSignal_ensures h.sound ?_)
    rintro ⟨now, signal⟩ waits cancel containers
    have hsignal := h.signalled waits cancel containers
    cases signal with
    | exited wait result => exact deliverExit_done hsignal
    | cancelled =>
      exact .map (cancelParallelGroup_reports hsignal.sound)
    | stuck stepName launchId event =>
      exact .map (deliverStuckEvent_keeps hsignal)
    | request request =>
      refine .read ?_
      refine .seq (handleParallelEngineRequest_done hsignal ?_) ?_
      · intro name hname
        obtain ⟨entry, hentry, rfl⟩ := Option.map_eq_some_iff.mp hname
        exact hsignal.failures entry (List.mem_of_head? hentry)
      · intro result after hafter
        cases result with
        | «continue» | ended | rewound => exact .pure hafter
        | restartStep name =>
          obtain ⟨hgroup, hmember⟩ := hafter
          have hrestart := hgroup.forget name
          refine .read (.change ?_)
          exact .map (restartParallelStep_keeps hrestart hmember)
    | elapsed =>
      refine .read ?_
      exact .map (tickParallelYolo_keeps hsignal)

/-- The loop ends only as a group may end. -/
theorem groupLoop_done (h : GroupProgress engine members run) :
    Ensures (loop (engine.groupIteration members)) run
      (fun outcome after => GroupDone engine members (some outcome) after) (Sound engine) :=
  .loop (GroupProgress engine members)
    (fun _ hbefore => (groupIteration_done hbefore).mono
      (fun result _ hdone => by cases result <;> exact hdone) fun _ hsound => hsound)
    (fun _ hbefore => hbefore.sound) h

/-- A whole group ends only as one may end. -/
theorem runParallelGroup_done {ready : List WorkflowStep} (h : Progress engine [] run.state run.log) :
    Ensures (engine.runParallelGroup ready) run
      (fun outcome after => GroupDone engine (ready.map WorkflowStep.name) (some outcome) after)
      (Sound engine) := by
  refine .change ?_
  have hqueued : ∀ step ∈ ready, step.name ∈ ready.map WorkflowStep.name :=
    fun step hstep => List.mem_map.mpr ⟨step, hstep, rfl⟩
  refine .seq (launchInitialBatch_keeps
    ⟨h, by simp, hqueued, by simp [ParallelGroup.idle]⟩) ?_
  intro _ launched hlaunched
  refine .seq (groupLoop_done hlaunched) ?_
  intro outcome after hafter
  refine .change (.pure ?_)
  cases outcome with
  | drained | rewound => exact hafter
  | ended outcome => exact ⟨hafter.durable, hafter.complete⟩

end Group

end Awman.Engine
