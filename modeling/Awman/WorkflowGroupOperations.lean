import Awman.WorkflowOperations

/-!
# Groups and whole runs keep what every operation keeps

While a group runs, its members are the steps at work.  A property that survives every operation
survives each pass of the group's loop, the decisions after the group has drained, and each pass of
the outer loop, and so holds wherever a run stops.
-/

namespace Awman.Engine

open Awman.Interaction WorkflowState

section Group

variable {engine : WorkflowEngine} {invariant : RunInvariant engine} {run : RunState}
  {members : List String} {name : String}

open RunInvariant

/-- What holds while a group of the given members runs: its slots, queue and failures are members,
and its members are steps of the workflow. -/
structure GroupAtWork (invariant : RunInvariant engine) (members : List String) (run : RunState) :
    Prop where
  holds : invariant.Holds .working members true run
  slots : ∀ slot ∈ run.activeSteps, slot.stepName ∈ members
  queued : ∀ step ∈ run.group.queue, step.name ∈ members
  failures : ∀ entry ∈ run.group.failed, entry.1 ∈ members
  known : ∀ name ∈ members, ∃ step, engine.findStep name = .ok step

/-- What holds after one pass of the group loop. -/
def AfterPass (invariant : RunInvariant engine) (members : List String)
    (result : Option GroupOutcome) (run : RunState) : Prop :=
  match result with
  | none => GroupAtWork invariant members run
  | some (.drained failed) =>
    invariant.Holds .deciding members true run ∧ ∀ entry ∈ failed, entry.1 ∈ members
  | some (.ended _) => invariant.Reached run
  | some .rewound => invariant.Idle run

/-- Changes of slots and of the group that bring in no other step keep a group at work. -/
theorem GroupAtWork.frame {after : RunState} (h : GroupAtWork invariant members run)
    (hstate : after.state = run.state) (hlog : after.log = run.log)
    (hslots : ∀ slot ∈ after.activeSteps, slot.stepName ∈ members)
    (hqueued : ∀ step ∈ after.group.queue, step.name ∈ members)
    (hfailures : ∀ entry ∈ after.group.failed, entry.1 ∈ members) :
    GroupAtWork invariant members after :=
  ⟨invariant.frame h.holds hstate hlog, hslots, hqueued, hfailures, h.known⟩

/-- Slots may change as long as they are those of the same steps. -/
theorem GroupAtWork.modifySlots {change : List ActiveParallelStep → List ActiveParallelStep}
    (h : GroupAtWork invariant members run)
    (hchange : ∀ slots, ∀ slot ∈ change slots, ∃ old ∈ slots, old.stepName = slot.stepName) :
    GroupAtWork invariant members { run with activeSteps := change run.activeSteps } := by
  refine h.frame rfl rfl ?_ h.queued h.failures
  intro slot hslot
  obtain ⟨old, hold, hname⟩ := hchange run.activeSteps slot hslot
  exact hname ▸ h.slots old hold

/-- A note in the log changes nothing. -/
theorem GroupAtWork.noted (event : RunEvent) (h : GroupAtWork invariant members run)
    (hevent : event.isNote = true) :
    GroupAtWork invariant members { run with log := event :: run.log } :=
  ⟨invariant.noted _ h.holds hevent, h.slots, h.queued, h.failures, h.known⟩

/-- A status of a member is recorded and written. -/
theorem GroupAtWork.settle {name : String} (status : StepState) (h : GroupAtWork invariant members run)
    (hname : name ∈ members) :
    GroupAtWork invariant members { run with
      state := run.state.setStatus name status
      log := .persisted (run.state.setStatus name status) :: run.log } :=
  ⟨invariant.persisted (invariant.worked _ (invariant.changing h.holds) hname), h.slots, h.queued,
    h.failures, h.known⟩

variable {halt : RunState → Prop} {stepName : String} {now : Nat}

/-- Resetting steps of the workflow sets them pending. -/
theorem resetSiblings_resets {names : List String} {post : Unit → RunState → Prop}
    (hknown : ∀ name ∈ names, ∃ step, engine.findStep name = .ok step)
    (hpost : post () { run with state := run.state.setStatuses names .pending }) :
    Ensures (engine.resetSiblings names) run post halt := by
  induction names generalizing run with
  | nil => exact .pure hpost
  | cons name rest ih =>
    obtain ⟨step, hstep⟩ := hknown name List.mem_cons_self
    refine .bind (.bind (setStatus_ensures (.bind ?_)))
    rw [hstep]
    refine .pure (.pure (ih (fun other hother => hknown other (List.mem_cons_of_mem name hother)) ?_))
    exact hpost

section

variable (h : GroupAtWork invariant members run)
include h

/-- A launch of a member leaves the group at work. -/
theorem launchParallelStep_atWork {step : WorkflowStep}
    (hstep : step.name ∈ members) :
    Ensures (engine.launchParallelStep step) run
      (fun _ after => GroupAtWork invariant members after) invariant.Reached := by
  refine .bind (prepareStepLaunch_counts (reached h.holds) fun prepared hattempt => ?_)
  refine .seq (spawnPreparedStep_keeps h.holds hstep hattempt) ?_
  intro result after hafter
  cases result with
  | error error =>
    obtain ⟨hslots, written, hheld⟩ := hafter
    have hlive : ∀ name ∈ after.activeSteps.map (·.stepName), name ∈ members := by
      intro name hname
      obtain ⟨slot, hslot, rfl⟩ := List.mem_map.mp hname
      rw [hslots] at hslot
      exact h.slots slot hslot
    refine .bind (killActiveParallelSteps_ensures fun containers => ?_)
    have hstopped : invariant.Holds .working members false { after with
        activeSteps := [], containers := containers } := invariant.frame (unwritten hheld) rfl rfl
    have hreset := workedAll .pending hstopped hlive
    refine .bind (resetSiblings_resets (fun name hname => h.known name (hlive name hname)) ?_)
    exact .bind (tryPersist_ensures (reached hreset) (fun _ => .fail (reached hreset))
      (.fail (reached (invariant.persisted hreset))))
  | ok launch =>
    obtain ⟨hholds, hgroup, hslots⟩ := hafter
    refine .modifyState ⟨invariant.frame hholds rfl rfl, ?_, ?_, ?_, h.known⟩
    · intro slot hslot
      rcases List.mem_append.mp hslot with hold | hnew
      · rw [hslots] at hold
        exact h.slots slot hold
      · obtain rfl := List.mem_singleton.mp hnew
        exact hstep
    · intro queued hqueued
      rw [hgroup] at hqueued
      exact h.queued queued hqueued
    · intro entry hentry
      rw [hgroup] at hentry
      exact h.failures entry hentry

/-- So does a launch from the queue. -/
theorem launchFromQueue_atWork :
    Ensures engine.launchFromQueue run (fun _ after => GroupAtWork invariant members after)
      invariant.Reached := by
  refine .read ?_
  split
  · split
    · exact .pure h
    · rename_i next rest hqueue
      have hqueued : ∀ step ∈ next :: rest, step.name ∈ members := hqueue ▸ h.queued
      have htaken : GroupAtWork invariant members { run with
          group := { run.group with queue := rest } } :=
        h.frame rfl rfl h.slots (fun step hstep => hqueued step (List.mem_cons_of_mem _ hstep))
          h.failures
      refine .change ?_
      exact .map (launchParallelStep_atWork htaken (hqueued next List.mem_cons_self))
  · exact .pure h

/-- So does the first batch. -/
theorem launchInitialBatch_atWork :
    Ensures engine.launchInitialBatch run (fun _ after => GroupAtWork invariant members after)
      invariant.Reached := by
  refine .loop (GroupAtWork invariant members) ?_ (fun _ hbefore => reached hbefore.holds) h
  intro before hbefore
  refine .seq (launchFromQueue_atWork hbefore) ?_
  intro launched after hafter
  cases launched <;> exact .pure hafter

/-- So does a slot that is freed. -/
theorem releaseSlot_atWork :
    Ensures (releaseSlot stepName) run (fun _ after => GroupAtWork invariant members after)
      halt := by
  refine .modifyState ?_
  split
  · exact h
  · refine h.frame rfl rfl ?_ h.queued h.failures
    exact fun slot hslot => h.slots slot (List.mem_of_mem_eraseP hslot)

/-- So does the end of a countdown. -/
theorem yoloAdvanceParallel_atWork (launchQueued : Bool)
    (hname : stepName ∈ members) :
    Ensures (engine.yoloAdvanceParallel stepName launchQueued) run
      (fun _ after => GroupAtWork invariant members after) invariant.Reached := by
  refine .seq (releaseSlot_atWork h) ?_
  intro _ before hbefore
  have hset := invariant.worked .succeeded (invariant.changing hbefore.holds) hname
  have hsettled := hbefore.settle .succeeded hname
  refine .bind (setStatus_ensures (.bind (.ofExcept (reached hset) fun _ _ => ?_)))
  refine .bind (persist_ensures (reached hset) ?_)
  split
  · exact .map (launchFromQueue_atWork hsettled)
  · exact .pure hsettled

/-- So does a tick of the countdowns. -/
theorem tickParallelYolo_atWork {launchQueued : Bool} :
    Ensures (engine.tickParallelYolo now launchQueued) run
      (fun _ after => GroupAtWork invariant members after) invariant.Reached := by
  refine .read ?_
  have hticking : ∀ entry ∈ run.activeSteps.filterMap (fun slot =>
      slot.yoloDeadline.map fun deadline => (slot.stepName, deadline)), entry.1 ∈ members := by
    intro entry hentry
    obtain ⟨slot, hslot, hdeadline⟩ := List.mem_filterMap.mp hentry
    obtain ⟨deadline, _, rfl⟩ := Option.map_eq_some_iff.mp hdeadline
    exact h.slots slot hslot
  refine (Ensures.forEach (fun rest before => GroupAtWork invariant members before ∧
    ∀ entry ∈ rest, entry.1 ∈ members) ?_ ⟨h, hticking⟩).mono (fun _ _ hafter => hafter.1)
    fun _ hreached => hreached
  rintro ⟨stepName, deadline⟩ rest before ⟨hbefore, hrest⟩
  have hname : stepName ∈ members := hrest _ List.mem_cons_self
  have hlater : ∀ entry ∈ rest, entry.1 ∈ members :=
    fun entry hentry => hrest entry (List.mem_cons_of_mem _ hentry)
  refine .bind (yoloCountdownTick_ensures (reached hbefore.holds) ?_)
  rintro ⟨outcome, expired⟩
  have hadvance := (yoloAdvanceParallel_atWork hbefore launchQueued hname).mono
    (fun _ _ hafter => And.intro hafter hlater) fun _ hreached => hreached
  cases outcome with
  | cancel => exact .modifyState ⟨hbefore.modifySlots (mem_modifySlot fun _ => rfl), hlater⟩
  | advanceNow => exact hadvance
  | «continue» =>
    dsimp only
    split
    · exact hadvance
    · exact .pure ⟨hbefore, hlater⟩

/-- So does a member that is run again. -/
theorem restartParallelStep_atWork (hname : stepName ∈ members) :
    Ensures (engine.restartParallelStep stepName) run
      (fun _ after => GroupAtWork invariant members after) invariant.Reached := by
  refine .seq (releaseSlot_atWork h) ?_
  intro _ before hbefore
  have hqueue : GroupAtWork invariant members { before with group := { before.group with
      queue := before.group.queue.filter fun step => step.name ≠ stepName } } :=
    hbefore.frame rfl rfl hbefore.slots
      (fun step hstep => hbefore.queued step (List.mem_of_mem_filter hstep)) hbefore.failures
  refine .read (.change (.bind (.ofExcept (reached hqueue.holds) ?_)))
  intro step hstep
  obtain ⟨rfl, _⟩ := findStep_ok hstep
  split
  · exact launchParallelStep_atWork hqueue hname
  · have hset := invariant.worked .pending (invariant.changing hqueue.holds) hname
    have hsettled := hqueue.settle .pending hname
    refine .bind (setStatus_ensures (.bind (persist_ensures (reached hset) ?_)))
    refine .read (.modifyState ?_)
    refine hsettled.frame rfl rfl hsettled.slots ?_ hsettled.failures
    intro queued hqueued
    rcases List.mem_cons.mp hqueued with rfl | hrest
    · exact hname
    · exact hsettled.queued queued hrest

end

/-- Ending a group with some steps pending leaves no step at work. -/
theorem rewindParallelGroup_keeps {names : List String}
    (hknown : ∀ name ∈ names, ∃ step, engine.findStep name = .ok step)
    (hreset : ∀ containers, invariant.Holds .deciding [] false { run with
      state := run.state.setStatuses names .pending
      activeSteps := []
      containers := containers }) :
    Ensures (engine.rewindParallelGroup names) run (fun _ => invariant.Idle)
      invariant.Reached := by
  refine .bind (killActiveParallelSteps_ensures fun containers => ?_)
  refine .bind (resetSiblings_resets hknown ?_)
  exact persist_ensures (reached (hreset containers)) (invariant.persisted (hreset containers))

/-- Skipping the group leaves nothing at work. -/
theorem skipParallelGroup_keeps (h : GroupAtWork invariant members run) :
    Ensures (engine.skipParallelGroup members) run (fun _ => invariant.Idle)
      invariant.Reached := by
  refine .bind (killActiveParallelSteps_ensures fun containers => ?_)
  have hstopped : invariant.Holds .working members false { run with
      activeSteps := [], containers := containers } :=
    invariant.frame (invariant.changing h.holds) rfl rfl
  refine .seq (Ensures.forEach (fun rest before => invariant.Holds .working members false before ∧
    ∀ name ∈ rest, name ∈ members) ?_ ⟨hstopped, fun _ hname => hname⟩) ?_
  · rintro name rest before ⟨hbefore, hrest⟩
    have hlater : ∀ other ∈ rest, other ∈ members :=
      fun other hother => hrest other (List.mem_cons_of_mem name hother)
    refine .read ?_
    split
    · exact .pure ⟨hbefore, hlater⟩
    · have hset := invariant.worked .skipped hbefore (hrest name List.mem_cons_self)
      refine .bind (setStatus_ensures (.bind (.ofExcept (reached hset) fun _ _ => ?_)))
      exact .pure ⟨hset, hlater⟩
  · rintro _ after ⟨hafter, _⟩
    exact persist_ensures (reached hafter) (idle (invariant.persisted hafter))

/-- Cancelling the group leads to a state that may be reached. -/
theorem cancelParallelGroup_reaches (h : invariant.Holds .working members true run) :
    Ensures engine.cancelParallelGroup run (fun _ => invariant.Reached) invariant.Reached := by
  refine .change ?_
  have hended := invariant.ended h
  exact cancelRun_reaches (invariant.frame hended rfl rfl)

/-- So does aborting it. -/
theorem abortParallelGroup_reaches (h : invariant.Holds .working members true run) :
    Ensures engine.abortParallelGroup run (fun _ => invariant.Reached) invariant.Reached := by
  refine .change (.bind (killActiveParallelSteps_ensures fun containers => ?_))
  have hstopped : invariant.Holds .deciding members true { run with
      abortOnFailureTriggered := true, activeSteps := [], containers := containers } :=
    invariant.ended (invariant.frame h rfl rfl)
  exact markCancelled_reaches hstopped fun _ hafter => hafter

/-- So does pausing it. -/
theorem pauseParallelGroup_reaches (h : GroupAtWork invariant members run) :
    Ensures WorkflowEngine.pauseParallelGroup run (fun _ => invariant.Reached)
      invariant.Reached := by
  have hlive : ∀ name ∈ run.activeSteps.map (·.stepName), name ∈ members := by
    intro name hname
    obtain ⟨slot, hslot, rfl⟩ := List.mem_map.mp hname
    exact h.slots slot hslot
  refine .bind (killActiveParallelSteps_ensures fun containers => .change ?_)
  have hstopped : invariant.Holds .working members false { run with
      activeSteps := [], containers := containers } :=
    invariant.frame (invariant.changing h.holds) rfl rfl
  have hset := workedAll .pending hstopped hlive
  exact .bind (persist_ensures (reached hset) (.pure (reached (invariant.persisted hset))))

theorem findStep_of_mem (hname : name ∈ engine.workflow.steps.map WorkflowStep.name) :
    ∃ step, engine.findStep name = .ok step := by
  obtain ⟨step, hstep, hstepName⟩ := List.mem_map.mp hname
  have hfound : (engine.workflow.steps.find? fun step => step.name = name).isSome = true :=
    List.find?_isSome.mpr ⟨step, hstep, by simpa using hstepName⟩
  obtain ⟨found, hfind⟩ := Option.isSome_iff_exists.mp hfound
  exact ⟨found, by simp [WorkflowEngine.findStep, hfind]⟩

theorem mem_dependentsWithin {reached : List String} {rounds : Nat}
    (hname : name ∈ engine.dependentsWithin reached rounds) :
    name ∈ engine.workflow.steps.map WorkflowStep.name := by
  induction rounds generalizing reached with
  | zero => cases hname
  | succ rounds ih =>
    rw [WorkflowEngine.dependentsWithin] at hname
    split at hname
    · cases hname
    · rename_i next hnext
      rcases List.mem_append.mp hname with hfirst | hrest
      · have hmem : name ∈ engine.nextDependents reached := hfirst
        obtain ⟨step, hstep, rfl⟩ := List.mem_map.mp hmem
        exact List.mem_map.mpr ⟨step, List.mem_of_mem_filter (List.mem_of_mem_filter hstep), rfl⟩
      · exact ih hrest

/-- The steps a group goes back over are steps of the workflow. -/
theorem backSteps_known (hknown : ∀ name ∈ members, ∃ step, engine.findStep name = .ok step) :
    ∀ name ∈ ((engine.dependenciesOf members ++
        engine.dependentsOf (engine.dependenciesOf members) ++ members).insertionSort
          (· ≤ ·)).dedup, ∃ step, engine.findStep name = .ok step := by
  intro name hname
  simp only [List.mem_dedup, List.mem_insertionSort, List.mem_append] at hname
  rcases hname with (hback | hdependent) | hmember
  · have horder : name ∈ engine.dag.order :=
      WorkflowDag.mem_topologicalOrder.mp (List.mem_of_mem_filter hback)
    rw [WorkflowDag.build_order engine.built] at horder
    exact findStep_of_mem horder
  · exact findStep_of_mem (mem_dependentsWithin hdependent)
  · exact hknown name hmember

/-- What holds after a request to a running group was handled. -/
def AfterRequest (invariant : RunInvariant engine) (members : List String)
    (result : ParallelRequestOutcome) (run : RunState) : Prop :=
  match result with
  | .continue => GroupAtWork invariant members run
  | .ended _ => invariant.Reached run
  | .rewound => invariant.Idle run
  | .restartStep name => GroupAtWork invariant members run ∧ name ∈ members

section

variable (h : GroupAtWork invariant members run)
include h

/-- An action of the board is settled within the invariant. -/
theorem resolveParallelGroupAction_keeps {action : NextAction} :
    Ensures (engine.resolveParallelGroupAction action members) run
      (AfterRequest invariant members) invariant.Reached := by
  have hstopped : ∀ containers, invariant.Holds .working members false { run with
      activeSteps := [], containers := containers } :=
    fun _ => invariant.frame (invariant.changing h.holds) rfl rfl
  refine resolveParallelGroupAction_ensures (reached h.holds) h (fun _ hmember => ⟨h, hmember⟩)
    (rewindParallelGroup_keeps h.known fun containers => ?_)
    (rewindParallelGroup_keeps (backSteps_known h.known) fun containers => ?_)
    (skipParallelGroup_keeps h)
  · exact invariant.closed (invariant.ended
      (workedAll _ (hstopped containers) fun _ hname => hname))
  · exact invariant.rewound (hstopped containers)

/-- The focus changes nothing of the group. -/
theorem focusParallelStep_atWork :
    Ensures (focusParallelStep stepName) run (fun _ after => GroupAtWork invariant members after)
      halt := by
  refine .modifyState ?_
  split
  · exact h
  · refine h.frame rfl rfl ?_ h.queued h.failures
    exact fun slot hslot => h.slots slot (mem_swapToFront hslot)

/-- A member that is stuck stays at work. -/
theorem handleParallelStuckEvent_atWork {event : StuckEvent} :
    Ensures (engine.handleParallelStuckEvent now stepName event) run
      (fun _ after => GroupAtWork invariant members after) halt :=
  handleParallelStuckEvent_ensures (h.modifySlots (mem_modifySlot (event.applyTo_stepName _ _)))

/-- A request is handled within the invariant. -/
theorem handleParallelEngineRequest_keeps {request : EngineRequest} {retryable : Option String}
    (hretryable : ∀ name, retryable = some name → name ∈ members) :
    Ensures (engine.handleParallelEngineRequest now request members retryable) run
      (AfterRequest invariant members) invariant.Reached := by
  refine handleParallelEngineRequest_ensures (GroupAtWork invariant members)
    (fun _ _ => handleParallelStuckEvent_atWork h) (fun _ => ?_) (fun _ hboard => hboard)
    (fun name hname _ hboard => ⟨hboard, hretryable name hname⟩)
    (fun _ hboard => pauseParallelGroup_reaches hboard)
    (fun _ hboard => abortParallelGroup_reaches hboard.holds)
    fun _ _ hboard => resolveParallelGroupAction_keeps hboard
  refine (focusParallelStep_atWork h).mono ?_ fun _ hreached => hreached
  exact fun _ _ hfocused => ⟨reached hfocused.holds, fun _ _ => hfocused.noted _ rfl⟩

/-- What follows an exit keeps the invariant. -/
theorem afterParallelExit_keeps {step : WorkflowStep} {exitCode : Int} {authRecovered : Bool} (hstep : step.name ∈ members) :
    Ensures (engine.afterParallelExit step exitCode authRecovered) run
      (AfterPass invariant members) invariant.Reached := by
  have hlooked : ∀ fired, GroupAtWork invariant members { run with cancel := fired } :=
    fun _ => h.frame rfl rfl h.slots h.queued h.failures
  refine afterParallelExit_ensures (reached h.holds)
    (fun fired => cancelParallelGroup_reaches (hlooked fired).holds) ?_
    (fun fired => abortParallelGroup_reaches (hlooked fired).holds) ?_ ?_
  · intro _ fired
    refine launchFromQueue_atWork (h.frame rfl rfl h.slots ?_ h.failures)
    intro queued hmem
    rcases List.mem_cons.mp hmem with rfl | hrest
    · exact hstep
    · exact h.queued queued hrest
  · intro _ _ fired
    refine h.frame rfl rfl h.slots h.queued ?_
    intro entry hentry
    rcases List.mem_append.mp hentry with hold | hnew
    · exact h.failures entry hold
    · obtain rfl := List.mem_singleton.mp hnew
      exact hstep
  · exact fun _ _ fired => ⟨hlooked fired, launchFromQueue_atWork (hlooked fired)⟩

/-- Recording an exit keeps it. -/
theorem recordParallelExit_keeps {exitCode : Int}
    (hname : stepName ∈ members) :
    Ensures (engine.recordParallelExit stepName exitCode) run (AfterPass invariant members)
      invariant.Reached := by
  refine .bind (recoverFailedExit_ensures (reached h.holds) fun authRecovered retries => ?_)
  have hreleased : GroupAtWork invariant members { run with
      authRetriesUsed := retries
      activeSteps := run.activeSteps.filter fun slot => slot.stepName ≠ stepName } :=
    h.frame rfl rfl (fun slot hslot => h.slots slot (List.mem_of_mem_filter hslot)) h.queued
      h.failures
  refine .change (.bind (.ofExcept (reached hreleased.holds) fun step hstep => ?_))
  have hset := invariant.worked (if exitCode = 0 then .succeeded
    else if authRecovered then .pending else .failed exitCode none)
    (invariant.changing hreleased.holds) hname
  refine .bind (setStatus_ensures (.bind (persist_ensures (reached hset) ?_)))
  exact afterParallelExit_keeps (hreleased.settle _ hname) ((findStep_ok hstep).1 ▸ hname)

/-- Handling an exit keeps it. -/
theorem handleParallelExit_keeps {wait : ParallelWait} {result : Except String Int} :
    Ensures (engine.handleParallelExit wait result) run (AfterPass invariant members)
      invariant.Reached := by
  have hlooked : ∀ fired, GroupAtWork invariant members { run with cancel := fired } :=
    fun _ => h.frame rfl rfl h.slots h.queued h.failures
  refine handleParallelExit_ensures (fun fired => reached (hlooked fired).holds) h
    (fun fired => cancelParallelGroup_reaches (hlooked fired).holds) ?_
  intro slot hslot hname _ exitCode fired
  exact recordParallelExit_keeps (hlooked fired) (hname ▸ h.slots slot hslot)

end

/-- A recorded report leaves what holds after a pass of the group loop. -/
theorem AfterPass.noted {result : Option GroupOutcome} {event : RunEvent}
    (h : AfterPass invariant members result run) (hevent : event.isNote = true) :
    AfterPass invariant members result { run with log := event :: run.log } := by
  cases result with
  | none => exact GroupAtWork.noted _ h hevent
  | some outcome =>
    cases outcome with
    | drained failed => exact ⟨invariant.noted _ h.1 hevent, h.2⟩
    | ended outcome =>
      obtain ⟨stage, names, written, hheld⟩ := h
      exact reached (invariant.noted _ hheld hevent)
    | rewound => exact invariant.noted _ h hevent

/-- The exit of any launch keeps it, also of a superseded one. -/
theorem deliverExit_keeps {wait : ParallelWait} {result : Except String Int}
    (h : GroupAtWork invariant members run) :
    Ensures (engine.deliverExit wait result) run (AfterPass invariant members)
      invariant.Reached := by
  refine .read (.seq (handleParallelExit_keeps h) ?_)
  intro outcome after hafter
  exact .read (.bind (record_ensures (.pure (hafter.noted rfl))))

/-- A report of a watcher leaves the group at work. -/
theorem deliverStuckEvent_atWork {launchId : Nat} {event : StuckEvent}
    (h : GroupAtWork invariant members run) :
    Ensures (engine.deliverStuckEvent now stepName launchId event) run
      (fun _ after => GroupAtWork invariant members after) invariant.Reached := by
  refine .read (.seq (handleParallelStuckEvent_atWork h) ?_)
  intro _ after hafter
  exact .read (record_ensures (hafter.noted _ rfl))

/-- One pass of the group loop keeps the group at work or ends it. -/
theorem groupIteration_keeps (h : GroupAtWork invariant members run) :
    Ensures (engine.groupIteration members) run (AfterPass invariant members)
      invariant.Reached := by
  refine .read ?_
  split
  · exact .pure ⟨invariant.ended h.holds, h.failures⟩
  · refine .bind (nextGroupSignal_ensures (reached h.holds) ?_)
    rintro ⟨now, signal⟩ waits cancel containers
    have hsignal : GroupAtWork invariant members { run with
        cancel := cancel, group := { run.group with waits := waits }, containers := containers } :=
      h.frame rfl rfl h.slots h.queued h.failures
    cases signal with
    | exited wait result => exact deliverExit_keeps hsignal
    | cancelled =>
      exact .map (cancelParallelGroup_reaches hsignal.holds)
    | stuck stepName launchId event =>
      exact .map (deliverStuckEvent_atWork hsignal)
    | request request =>
      refine .read ?_
      refine .seq (handleParallelEngineRequest_keeps hsignal ?_) ?_
      · intro name hname
        obtain ⟨entry, hentry, rfl⟩ := Option.map_eq_some_iff.mp hname
        exact hsignal.failures entry (List.mem_of_head? hentry)
      · intro result after hafter
        cases result with
        | «continue» | ended | rewound => exact .pure hafter
        | restartStep name =>
          obtain ⟨hgroup, hmember⟩ := hafter
          have hforgotten : GroupAtWork invariant members { after with
              group := { after.group with
                failed := after.group.failed.filter fun entry => entry.1 ≠ name } } :=
            hgroup.frame rfl rfl hgroup.slots hgroup.queued
              fun entry hentry => hgroup.failures entry (List.mem_of_mem_filter hentry)
          refine .read (.change ?_)
          exact .map (restartParallelStep_atWork hforgotten hmember)
    | elapsed =>
      refine .read ?_
      exact .map (tickParallelYolo_atWork hsignal)

/-- All passes of the loop keep the invariant. -/
theorem groupLoop_keeps (h : GroupAtWork invariant members run) :
    Ensures (loop (engine.groupIteration members)) run
      (fun outcome after => AfterPass invariant members (some outcome) after) invariant.Reached := by
  refine .loop (GroupAtWork invariant members) ?_ (fun _ hbefore => reached hbefore.holds) h
  intro before hbefore
  refine (groupIteration_keeps hbefore).mono ?_ fun _ hreached => hreached
  intro result after hafter
  cases result <;> exact hafter

/-- Running ready steps as a group keeps the invariant. -/
theorem runParallelGroup_keeps {ready : List WorkflowStep} (h : invariant.Idle run)
    (hready : ∀ step ∈ ready, step.name ∈ engine.nextReady run)
    (hknown : ∀ step ∈ ready, ∃ found, engine.findStep step.name = .ok found) :
    Ensures (engine.runParallelGroup ready) run
      (fun outcome after => AfterPass invariant (ready.map WorkflowStep.name) (some outcome) after)
      invariant.Reached := by
  have hopened : invariant.Holds .working (ready.map WorkflowStep.name) true run := by
    refine invariant.opened _ h ?_
    intro name hname
    obtain ⟨step, hstep, rfl⟩ := List.mem_map.mp hname
    exact hready step hstep
  have hnames : ∀ name ∈ ready.map WorkflowStep.name, ∃ found, engine.findStep name = .ok found := by
    intro name hname
    obtain ⟨step, hstep, rfl⟩ := List.mem_map.mp hname
    exact hknown step hstep
  refine .change ?_
  refine .seq (launchInitialBatch_atWork ⟨invariant.frame hopened rfl rfl, by simp, ?_,
    by simp [ParallelGroup.idle], hnames⟩) ?_
  · exact fun step hstep => List.mem_map.mpr ⟨step, hstep, rfl⟩
  intro _ launched hlaunched
  refine .seq (groupLoop_keeps hlaunched) ?_
  intro outcome after hafter
  refine .change (.pure ?_)
  cases outcome with
  | drained failed => exact ⟨invariant.frame hafter.1 rfl rfl, hafter.2⟩
  | ended outcome =>
    obtain ⟨stage, names, written, hheld⟩ := hafter
    exact reached (invariant.frame hheld rfl rfl)
  | rewound => exact invariant.frame hafter rfl rfl

end Group

section Runs

variable {engine : WorkflowEngine} {invariant : RunInvariant engine} {run : RunState}

open RunInvariant

/-- Steps that are all found are those of the names. -/
theorem mapM_findStep_ok {names : List String} {ready : List WorkflowStep}
    (h : names.mapM engine.findStep = .ok ready) :
    ∀ step ∈ ready, step.name ∈ names ∧ ∃ found, engine.findStep step.name = .ok found := by
  rw [Checks.mapM_eq_collect] at h
  intro step hstep
  obtain ⟨name, hname, hfound⟩ := Checks.mem_of_collect h hstep
  have hsame := (findStep_ok hfound).1
  rw [hsame]
  exact ⟨hname, step, hfound⟩

/-- Running the ready steps keeps it. -/
theorem runReadySteps_keeps (h : invariant.Idle run) :
    Ensures engine.runReadySteps run (AfterDecision invariant []) invariant.Reached := by
  refine .read (.bind (.ofExcept (reached h) fun ready hready => ?_))
  have hfound := mapM_findStep_ok hready
  split
  · refine .seq (runParallelGroup_keeps h (fun step hstep => (hfound step hstep).1)
      fun step hstep => (hfound step hstep).2) ?_
    intro outcome after hafter
    cases outcome with
    | drained failed =>
      refine (handleGroupFailures_keeps hafter.1 hafter.2).mono ?_ fun _ hreached => hreached
      intro result last hlast
      cases result with
      | «continue» => exact invariant.closed hlast
      | ended _ => exact hlast
    | ended | rewound => exact .pure hafter
  · exact runSingleStepIteration_keeps h

/-- An iteration of the outer loop keeps it. -/
theorem runIteration_keeps (h : invariant.Idle run) :
    Ensures engine.runIteration run
      (fun result after =>
        match result with
        | some _ => invariant.Reached after
        | none => invariant.Idle after) invariant.Reached := by
  refine .bind (cancelRequested_ensures (reached h) fun fired => ?_)
  have hlooked : invariant.Idle { run with cancel := fired } := invariant.frame h rfl rfl
  split
  · exact .map (cancelRun_reaches hlooked)
  · refine .read ?_
    split
    · exact .pure (reached hlooked)
    · refine .seq (runReadySteps_keeps hlooked) ?_
      intro result after hafter
      cases result <;> exact .pure hafter

/-- A property that every operation keeps holds wherever a run stops. -/
theorem runToCompletion_reaches (invariant : RunInvariant engine) (h : invariant.Idle run)
    (answers : List Answer) :
    invariant.Reached (engine.runToCompletion ⟨answers, run⟩).2.state := by
  have hloop : Ensures engine.runToCompletion run (fun _ => invariant.Reached)
      invariant.Reached := by
    refine .loop invariant.Idle ?_ (fun _ hbefore => reached hbefore) h
    intro before hbefore
    refine (runIteration_keeps hbefore).mono ?_ fun _ hreached => hreached
    intro result after hafter
    cases result <;> exact hafter
  exact hloop.everywhere (fun _ _ hafter => hafter) answers

end Runs

end Awman.Engine
