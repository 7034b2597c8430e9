import Awman.WorkflowLimits
import Awman.WorkflowRuns

/-!
# A parallel group stays within its limits

Each way a group fills a slot or the queue takes the step from the place it had: the initial batch
and the slots that free up take it off the queue, and a relaunch takes it out of its slot and off
the queue first.  So no step is in two places and no more slots are taken than the cap allows, if
the names of the steps are distinct.  A relaunch does not wait for the container that it told to
stop: a step has one live container only where the earlier one has ended when the new one starts.
-/

namespace Awman.Engine

open Awman.Interaction

/-- The fleet of a running group is orderly. -/
def Ordered (run : RunState) : Prop :=
  run.fleet.Orderly

/-- A group was stopped: no slot is left. -/
def Stopped (run : RunState) : Prop :=
  Ordered run ∧ run.activeSteps = []

section GroupFleet

variable {engine : WorkflowEngine} {run : RunState} {members : List String}

/-- An orderly fleet is within limits. -/
theorem Ordered.limited (h : Ordered run) : Limited run :=
  ⟨Fleet.Orderly.withinLimits h, h.apart⟩

theorem Ordered.frame {after : RunState} (h : Ordered run) (hsame : after.fleet = run.fleet) :
    Ordered after := by
  unfold Ordered
  rw [hsame]
  exact h

theorem Stopped.limited (h : Stopped run) : Limited run :=
  h.1.limited

/-- What is left of a stopped group was told to stop. -/
theorem Stopped.containers (h : Stopped run) :
    ∀ container ∈ run.containers, container.stopping = true :=
  Fleet.Orderly.stopped_of_slots h.1 h.2

theorem Stopped.frame {after : RunState} (h : Stopped run) (hsame : after.fleet = run.fleet) :
    Stopped after :=
  ⟨h.1.frame hsame, (congrArg Fleet.slots hsame).trans h.2⟩

/-- Follow a program that leaves a stopped fleet alone. -/
theorem Framed.stopped {α : Type} {program : EngineM α} {post : α → RunState → Prop}
    (h : Framed program run) (hstopped : Stopped run) (hpost : ∀ a after, Stopped after → post a after) :
    Ensures program run post Limited :=
  h.then (fun _ hsame => (hstopped.frame hsame).limited) fun a _ hsame =>
    hpost a _ (hstopped.frame hsame)

/-- A group that is told to stop is stopped. -/
theorem Ordered.stopped (h : Ordered run) : Stopped { run with
    containers := tellToStop (run.activeSteps.map (·.handle)) run.containers
    activeSteps := [] } :=
  ⟨Fleet.Orderly.stopped h, rfl⟩

/-- A cancellation stops the group. -/
theorem cancelRun_stopped (h : Ordered run) :
    Ensures engine.cancelRun run (fun _ after => Stopped after) Limited := by
  refine .change (.change (.change ?_))
  refine .change (.bind (persist_ensures ?_ (.pure ?_)))
  · exact h.stopped.limited
  · exact h.stopped

theorem cancelParallelGroup_stopped (h : Ordered run) :
    Ensures engine.cancelParallelGroup run (fun _ after => Stopped after) Limited :=
  .change (cancelRun_stopped h.stopped.1)

variable {halt : RunState → Prop} {stepName : String} {now : Nat} {exitCode : Int}

theorem killActiveParallelSteps_stopped {post : List String → RunState → Prop} (h : Ordered run)
    (hpost : ∀ containers, Stopped { run with activeSteps := [], containers := containers } →
      post (run.activeSteps.map (·.stepName))
        { run with activeSteps := [], containers := containers }) :
    Ensures killActiveParallelSteps run post halt :=
  .read (.change (.pure (hpost _ h.stopped)))

/-- A launch takes a free slot for a step that has no place. -/
theorem launchParallelStep_ordered {step : WorkflowStep} (h : Ordered run)
    (hfree : run.activeSteps.length < run.group.slotCap)
    (hplace : run.fleet.running step.name + run.fleet.waiting step.name = 0) :
    Ensures (engine.launchParallelStep step) run (fun _ after => Ordered after) Limited := by
  refine .bind (prepareStepLaunch_framed.then (fun _ hsame => (h.frame hsame).limited) ?_)
  intro prepared ready hsame
  have hready := h.frame hsame
  have hfree' : ready.fleet.slots.length < ready.fleet.group.slotCap := hsame ▸ hfree
  rw [← hsame] at hplace
  have hnone : ready.fleet.kept step.name = 0 := by
    have howned := Fleet.Orderly.owned hready step.name
    omega
  have hspawned : ∀ after, SpawnedFrom ready step.name after → Limited after := by
    rintro after (hafter | ⟨handle, isRunning, ended, hafter⟩)
    · exact (hready.frame hafter).limited
    · unfold Limited
      rw [hafter]
      exact ⟨⟨fun _ => hready.capped, hready.placed⟩, Fleet.Apart.spawned hready.apart hnone⟩
  refine .bind (spawnPreparedStep_spawns hspawned ?_ ?_)
  · intro error after hafter
    have hlimited := hspawned after hafter
    refine .bind (.read (.change (.pure ?_)))
    have hstopped : Limited { after with
        containers := tellToStop (after.activeSteps.map (·.handle)) after.containers
        activeSteps := [] } := Fleet.limited_stopped hlimited.1 hlimited.2 _
    refine .bind (resetSiblings_framed.then ?_ ?_)
    · intro _ hsame'
      unfold Limited
      rw [hsame']
      exact hstopped
    · intro _ reset hsame'
      have hreset : Limited reset := by
        unfold Limited
        rw [hsame']
        exact hstopped
      exact .bind (tryPersist_ensures hreset (fun _ => .fail hreset) (.fail hreset))
  · intro launch after ended hafter
    refine .modifyState (Fleet.Orderly.launched hready hafter hfree' hplace ?_ ?_ ?_ _) <;> rfl

/-- A launch from the queue keeps the fleet in order. -/
theorem launchFromQueue_ordered (h : Ordered run) :
    Ensures engine.launchFromQueue run (fun _ after => Ordered after) Limited := by
  refine .read ?_
  split
  · rename_i hfree
    split
    · exact .pure h
    · rename_i next rest hqueue
      have hcount : ∀ name, run.fleet.waiting name =
          rest.countP (fun step => step.name = name) + if next.name = name then 1 else 0 := by
        intro name
        change run.group.queue.countP _ = _
        rw [hqueue, List.countP_cons]
        simp only [decide_eq_true_eq]
      have hrest : Ordered { run with group := { run.group with queue := rest } } := by
        refine Fleet.Orderly.requeue h ?_
        intro name
        have hplaced := Fleet.Orderly.placed h name
        have hwaiting := hcount name
        omega
      refine .change ?_
      refine .map (launchParallelStep_ordered hrest hfree ?_)
      have hplaced := Fleet.Orderly.placed h next.name
      have hwaiting := hcount next.name
      rw [if_pos rfl] at hwaiting
      change run.fleet.running next.name + rest.countP _ = 0
      omega
  · exact .pure h

/-- So does the first batch. -/
theorem launchInitialBatch_ordered (h : Ordered run) :
    Ensures engine.launchInitialBatch run (fun _ after => Ordered after) Limited := by
  refine .loop Ordered ?_ (fun _ hbefore => hbefore.limited) h
  intro before hbefore
  refine .seq (launchFromQueue_ordered hbefore) ?_
  intro launched after hafter
  cases launched <;> exact .pure hafter

/-- A change of a slot that keeps its launch keeps the launches of all slots. -/
theorem map_launchOf_modifySlot {change : ActiveParallelStep → ActiveParallelStep}
    (hchange : ∀ slot, Fleet.launchOf (change slot) = Fleet.launchOf slot)
    (slots : List ActiveParallelStep) :
    (modifySlot stepName change slots).map Fleet.launchOf = slots.map Fleet.launchOf := by
  induction slots with
  | nil => rfl
  | cons first rest ih =>
    rw [modifySlot]
    split
    · rw [List.map_cons, List.map_cons, hchange]
    · rw [List.map_cons, List.map_cons, ih]

theorem StuckEvent.launchOf_applyTo (event : StuckEvent) (yolo : Bool) (deadline : Nat)
    (slot : ActiveParallelStep) :
    Fleet.launchOf (event.applyTo yolo deadline slot) = Fleet.launchOf slot := by
  cases event with
  | stuck =>
    cases yolo with
    | false => rfl
    | true => cases hdeadline : slot.yoloDeadline <;> simp [applyTo, hdeadline, Fleet.launchOf]
  | unstuck | startupGraceExpired => rfl

theorem Ordered.modifySlot (h : Ordered run) {change : ActiveParallelStep → ActiveParallelStep}
    (hchange : ∀ slot, Fleet.launchOf (change slot) = Fleet.launchOf slot) :
    Ordered { run with activeSteps := (modifySlot stepName change run.activeSteps) } :=
  Fleet.Orderly.rearrange h (List.Perm.of_eq (map_launchOf_modifySlot hchange run.activeSteps))

theorem handleParallelStuckEvent_ordered {event : StuckEvent} (h : Ordered run) :
    Ensures (engine.handleParallelStuckEvent now stepName event) run
      (fun _ after => Ordered after) halt :=
  handleParallelStuckEvent_ensures (h.modifySlot (event.launchOf_applyTo _ _))

/-- A released step holds no slot. -/
theorem releaseSlot_ordered (h : Ordered run) :
    Ensures (releaseSlot stepName) run (fun _ after => Ordered after ∧ after.group = run.group ∧
      after.fleet.running stepName = 0) halt := by
  refine .modifyState ?_
  split
  · rename_i hnone
    refine ⟨h, rfl, ?_⟩
    refine List.countP_eq_zero.mpr ?_
    intro slot hslot
    exact List.find?_eq_none.mp hnone slot hslot
  · rename_i slot hfind
    have hrelease := Fleet.Orderly.release h hfind
    exact ⟨hrelease.1, rfl, hrelease.2⟩

/-- So does the end of a countdown. -/
theorem yoloAdvanceParallel_ordered {launchQueued : Bool} (h : Ordered run) :
    Ensures (engine.yoloAdvanceParallel stepName launchQueued) run (fun _ after => Ordered after)
      Limited := by
  refine .seq (releaseSlot_ordered h) ?_
  rintro _ before ⟨hbefore, -, -⟩
  refine .bind (setStatus_ensures (.bind (.ofExcept hbefore.limited fun _ _ => ?_)))
  refine .bind (persist_ensures hbefore.limited ?_)
  have hpersisted : Ordered { before with
      state := before.state.setStatus stepName .succeeded
      log := .persisted (before.state.setStatus stepName .succeeded) :: before.log } := hbefore
  split
  · exact .map (launchFromQueue_ordered hpersisted)
  · exact .pure hpersisted

/-- So does a tick of the countdowns. -/
theorem tickParallelYolo_ordered {launchQueued : Bool} (h : Ordered run) :
    Ensures (engine.tickParallelYolo now launchQueued) run (fun _ after => Ordered after)
      Limited := by
  refine .read ?_
  refine Ensures.forEach (fun _ before => Ordered before) ?_ h
  rintro ⟨stepName, deadline⟩ rest before hbefore
  refine .bind (yoloCountdownTick_ensures hbefore.limited ?_)
  rintro ⟨outcome, expired⟩
  cases outcome with
  | cancel => exact .modifyState (hbefore.modifySlot fun _ => rfl)
  | advanceNow => exact yoloAdvanceParallel_ordered hbefore
  | «continue» =>
    dsimp only
    split
    · exact yoloAdvanceParallel_ordered hbefore
    · exact .pure hbefore

theorem countP_filter_ne (queue : List WorkflowStep) (stepName name : String) :
    (queue.filter fun step => step.name ≠ stepName).countP (fun step => step.name = name) =
      if name = stepName then 0 else queue.countP fun step => step.name = name := by
  rw [List.countP_filter]
  split
  · rename_i heq
    refine List.countP_eq_zero.mpr ?_
    intro step _
    simp [heq]
  · rename_i hne
    refine List.countP_congr ?_
    intro step _
    simp only [Bool.and_eq_true, decide_eq_true_eq, and_iff_left_iff_imp]
    exact fun heq hname => hne (heq.symm.trans hname)

section

variable (h : Ordered run)
include h

/-- A member that runs again leaves its slot and the queue first. -/
theorem restartParallelStep_ordered :
    Ensures (engine.restartParallelStep stepName) run (fun _ after => Ordered after) Limited := by
  refine .seq (releaseSlot_ordered h) ?_
  rintro _ before ⟨hbefore, -, hreleased⟩
  have hqueue : Ordered { before with group := { before.group with
      queue := before.group.queue.filter fun step => step.name ≠ stepName } } := by
    refine Fleet.Orderly.requeue hbefore ?_
    intro name
    have hplaced := Fleet.Orderly.placed hbefore name
    have hwaiting : before.fleet.waiting name =
        before.group.queue.countP fun step => step.name = name := rfl
    rw [countP_filter_ne]
    split <;> omega
  refine .read (.change (.bind (.ofExcept hqueue.limited ?_)))
  intro step hstep
  obtain ⟨rfl, _⟩ := findStep_ok hstep
  have hqueued := countP_filter_ne before.group.queue step.name step.name
  rw [if_pos rfl] at hqueued
  split
  · rename_i hfree
    refine launchParallelStep_ordered hqueue hfree ?_
    change before.fleet.running step.name +
      (before.group.queue.filter fun queued => queued.name ≠ step.name).countP
        (fun queued => queued.name = step.name) = 0
    rw [hreleased, hqueued]
  · refine .bind (setStatus_ensures (.bind (persist_ensures hqueue.limited ?_)))
    refine .read (.modifyState (Fleet.Orderly.requeue hqueue ?_))
    intro name
    have hplaced : before.fleet.running name + List.countP _ _ ≤ 1 :=
      Fleet.Orderly.placed hqueue name
    change before.fleet.running name + List.countP _ (step :: _) ≤ 1
    rw [List.countP_cons]
    simp only [decide_eq_true_eq]
    by_cases heq : step.name = name
    · subst heq
      change before.fleet.running step.name +
        ((before.group.queue.filter fun queued => queued.name ≠ step.name).countP
          (fun queued => queued.name = step.name) + if step.name = step.name then 1 else 0) ≤ 1
      rw [hreleased, hqueued, if_pos rfl]
    · rw [if_neg heq]
      exact hplaced

/-- A rewind stops the group. -/
theorem rewindParallelGroup_stopped {names : List String} :
    Ensures (engine.rewindParallelGroup names) run (fun _ after => Stopped after) Limited := by
  refine .bind (killActiveParallelSteps_stopped h fun containers hstopped => ?_)
  refine .bind (resetSiblings_framed.stopped hstopped fun _ after hafter => ?_)
  exact persist_ensures hafter.limited hafter

/-- So does skipping it. -/
theorem skipParallelGroup_stopped :
    Ensures (engine.skipParallelGroup members) run (fun _ after => Stopped after) Limited := by
  refine .bind (killActiveParallelSteps_stopped h fun containers hstopped => ?_)
  refine .seq (Ensures.forEach (fun _ before => Stopped before) ?_ hstopped) ?_
  · intro name rest before hbefore
    refine .read ?_
    split
    · exact .pure hbefore
    · refine .bind (setStatus_ensures (.bind (.ofExcept hbefore.limited fun _ _ => ?_)))
      exact .pure hbefore
  · intro _ after hafter
    exact persist_ensures hafter.limited hafter

/-- So does aborting it. -/
theorem abortParallelGroup_stopped :
    Ensures engine.abortParallelGroup run (fun _ after => Stopped after) Limited := by
  have hseen : Ordered { run with abortOnFailureTriggered := true } := h
  refine .change (.bind (killActiveParallelSteps_stopped hseen ?_))
  intro containers hstopped
  exact .change (.bind (persist_ensures hstopped.limited (.pure hstopped)))

/-- So does pausing it. -/
theorem pauseParallelGroup_stopped :
    Ensures WorkflowEngine.pauseParallelGroup run (fun _ after => Stopped after) Limited := by
  refine .bind (killActiveParallelSteps_stopped h fun containers hstopped => ?_)
  exact .change (.bind (persist_ensures hstopped.limited (.pure hstopped)))

/-- What holds of the fleet after a request to a running group was handled. -/
def RequestOrdered (result : ParallelRequestOutcome) (run : RunState) : Prop :=
  match result with
  | .continue | .restartStep _ => Ordered run
  | .ended _ | .rewound => Stopped run

/-- An action of the board keeps the order, or stops the group. -/
theorem resolveParallelGroupAction_ordered {action : NextAction} :
    Ensures (engine.resolveParallelGroupAction action members) run RequestOrdered Limited :=
  resolveParallelGroupAction_ensures h.limited h (fun _ _ => h) (rewindParallelGroup_stopped h)
    (rewindParallelGroup_stopped h) (skipParallelGroup_stopped h)

end

/-- Moving a slot to the front only reorders the slots. -/
theorem swapToFront_perm (position : Nat) (slots : List ActiveParallelStep) :
    (swapToFront position slots).Perm slots := by
  unfold swapToFront
  split
  · rename_i first focused hfirst hfocused
    obtain ⟨hzero, rfl⟩ := List.getElem?_eq_some_iff.mp hfirst
    obtain ⟨hposition, rfl⟩ := List.getElem?_eq_some_iff.mp hfocused
    exact List.set_set_perm hzero hposition
  · exact List.Perm.refl _

theorem focusParallelStep_ordered (h : Ordered run) :
    Ensures (focusParallelStep stepName) run (fun _ after => Ordered after) halt := by
  refine .modifyState ?_
  split
  · exact h
  · exact Fleet.Orderly.rearrange h ((swapToFront_perm _ _).map _)

theorem handleParallelEngineRequest_ordered {request : EngineRequest} {retryable : Option String}
    (h : Ordered run) :
    Ensures (engine.handleParallelEngineRequest now request members retryable) run RequestOrdered
      Limited :=
  handleParallelEngineRequest_ensures Ordered (fun _ _ => handleParallelStuckEvent_ordered h)
    (fun _ => (focusParallelStep_ordered h).mono
      (fun _ _ hfocused => ⟨hfocused.limited, fun _ _ => hfocused⟩) fun _ hlimited => hlimited)
    (fun _ hboard => hboard) (fun _ _ _ hboard => hboard)
    (fun _ hboard => pauseParallelGroup_stopped hboard)
    (fun _ hboard => abortParallelGroup_stopped hboard)
    fun _ _ hboard => resolveParallelGroupAction_ordered hboard

/-- What holds of the fleet after a part of the group's loop. -/
def GroupOrdered (result : Option GroupOutcome) (run : RunState) : Prop :=
  match result with
  | none => Ordered run
  | some _ => Stopped run

/-- So does what follows an exit. -/
theorem afterParallelExit_ordered {step : WorkflowStep} {authRecovered : Bool} (h : Ordered run)
    (hplace : run.fleet.running step.name + run.fleet.waiting step.name = 0) :
    Ensures (engine.afterParallelExit step exitCode authRecovered) run GroupOrdered Limited := by
  have hseen : ∀ fired, Ordered { run with cancel := fired } := fun _ => h
  refine afterParallelExit_ensures h.limited (fun fired => cancelParallelGroup_stopped (hseen fired))
    ?_ (fun fired => abortParallelGroup_stopped (hseen fired)) ?_ ?_
  · intro _ fired
    refine launchFromQueue_ordered (Fleet.Orderly.requeue h ?_)
    intro name
    have hplaced := Fleet.Orderly.placed h name
    have hwaiting : run.fleet.waiting name =
        run.group.queue.countP fun queued => queued.name = name := rfl
    change run.fleet.running name + (step :: run.group.queue).countP _ ≤ 1
    rw [List.countP_cons]
    simp only [decide_eq_true_eq]
    by_cases heq : step.name = name
    · subst heq
      rw [if_pos rfl]
      omega
    · rw [if_neg heq]
      omega
  · exact fun _ _ _ => ⟨h.capped, h.placed, h.owned, h.handles, h.waited, h.apart⟩
  · exact fun _ _ fired => ⟨h, launchFromQueue_ordered (hseen fired)⟩

theorem recoverFailedExit_framed :
    Framed (WorkflowEngine.recoverFailedExit stepName exitCode) run := by
  unfold WorkflowEngine.recoverFailedExit
  split
  · exact recoverAuthFailure_framed
  · exact .pure rfl

/-- A member whose container has ended leaves its slot. -/
theorem recordParallelExit_ordered (h : Ordered run) (hheld : 0 < run.fleet.running stepName)
    (hgone : run.fleet.kept stepName = 0) :
    Ensures (engine.recordParallelExit stepName exitCode) run GroupOrdered Limited := by
  refine .bind (recoverFailedExit_framed.then (fun _ hsame => (h.frame hsame).limited) ?_)
  intro authRecovered before hsame
  have hbefore := h.frame hsame
  rw [← hsame] at hheld hgone
  have hforgot : Ordered { before with
      activeSteps := before.activeSteps.filter fun slot => slot.stepName ≠ stepName } :=
    Fleet.Orderly.forget hbefore hgone
  refine .change (.bind (.ofExcept hforgot.limited ?_))
  intro step hstep
  obtain ⟨rfl, _⟩ := findStep_ok hstep
  refine .bind (setStatus_ensures (.bind (persist_ensures hforgot.limited ?_)))
  refine afterParallelExit_ordered hforgot ?_
  have hplaced := Fleet.Orderly.placed hbefore step.name
  have hnone : (before.activeSteps.filter fun slot => slot.stepName ≠ step.name).countP
      (fun slot => slot.stepName = step.name) = 0 := by
    refine List.countP_eq_zero.mpr ?_
    intro slot hslot
    simpa using List.of_mem_filter hslot
  change List.countP _ (List.filter _ before.activeSteps) + before.fleet.waiting step.name = 0
  omega

/-- The launch of a resolved wait, if it still holds its slot, has no container left that was not
told to stop. -/
def ExitSeen (wait : ParallelWait) (run : RunState) : Prop :=
  ∀ slot ∈ run.activeSteps, slot.stepName = wait.stepName → slot.launchId = wait.launchId →
    run.fleet.kept wait.stepName = 0

/-- So does an exit. -/
theorem handleParallelExit_ordered {wait : ParallelWait} {result : Except String Int} (h : Ordered run)
    (hseen : ExitSeen wait run) :
    Ensures (engine.handleParallelExit wait result) run GroupOrdered Limited := by
  have hlooked : ∀ fired, Ordered { run with cancel := fired } := fun _ => h
  refine handleParallelExit_ensures (fun _ => h.limited) h
    (fun fired => cancelParallelGroup_stopped (hlooked fired)) ?_
  intro slot hslot hname hlaunch exitCode fired
  exact recordParallelExit_ordered (hlooked fired) (hname ▸ Fleet.running_pos hslot)
    (hseen slot hslot hname hlaunch)

/-- Waiting for a signal keeps a fleet orderly, and an exit takes the container with it. -/
theorem nextGroupSignal_ordered (h : Ordered run) :
    Ensures nextGroupSignal run (fun signal after => Ordered after ∧
      ∀ wait result, signal.2 = .exited wait result → ExitSeen wait after) Limited := by
  refine .read (.bind (.receive_accepted h.limited ?_))
  rintro answer ⟨now, signal⟩ haccept
  cases signal with
  | exited wait result =>
    have hwait : wait ∈ run.group.waits := by
      cases answer with
      | group now' signal' =>
        cases signal' with
        | exited wait' result' =>
          by_cases hmem : wait' ∈ run.group.waits
          · simp only [if_pos hmem, Option.some.injEq, Prod.mk.injEq,
              GroupSignal.exited.injEq] at haccept
            exact haccept.2.1 ▸ hmem
          · simp [hmem] at haccept
        | stuck | cancelled | request | elapsed => simp at haccept
      | _ => cases haccept
    obtain ⟨hexited, hgone⟩ := Fleet.Orderly.exited h hwait
    refine .change (.bind (containerGone_ensures (.pure ⟨hexited, ?_⟩)))
    intro seen result' heq
    obtain ⟨rfl, -⟩ := GroupSignal.exited.inj heq
    exact hgone
  | cancelled =>
    refine .change (.pure ⟨h, ?_⟩)
    exact fun _ _ heq => by cases heq
  | stuck | request | elapsed => exact .bind (.pure (.pure ⟨h, fun _ _ heq => by cases heq⟩))

/-- So does the exit of any launch. -/
theorem deliverExit_ordered {wait : ParallelWait} {result : Except String Int} (h : Ordered run)
    (hseen : ExitSeen wait run) :
    Ensures (engine.deliverExit wait result) run GroupOrdered Limited := by
  refine .read (.seq (handleParallelExit_ordered h hseen) ?_)
  intro outcome after hafter
  refine .read (.bind (record_ensures (.pure ?_)))
  cases outcome <;> exact hafter

theorem deliverStuckEvent_ordered {launchId : Nat} {event : StuckEvent} (h : Ordered run) :
    Ensures (engine.deliverStuckEvent now stepName launchId event) run
      (fun _ after => Ordered after) Limited := by
  refine .read (.seq (handleParallelStuckEvent_ordered h) ?_)
  intro _ after hafter
  exact .read (record_ensures hafter)

/-- One pass of the group loop keeps the fleet orderly or leaves it without slots. -/
theorem groupIteration_ordered (h : Ordered run) :
    Ensures (engine.groupIteration members) run GroupOrdered Limited := by
  refine .read ?_
  split
  · rename_i hslots
    exact .pure ⟨h, hslots⟩
  · refine .seq (nextGroupSignal_ordered h) ?_
    rintro ⟨now, signal⟩ before ⟨hbefore, hseen⟩
    cases signal with
    | exited wait result => exact deliverExit_ordered hbefore (hseen wait result rfl)
    | cancelled =>
      exact .map (cancelParallelGroup_stopped hbefore)
    | stuck stepName launchId event =>
      exact .map (deliverStuckEvent_ordered hbefore)
    | request request =>
      refine .read (.seq (handleParallelEngineRequest_ordered hbefore) ?_)
      intro result after hafter
      cases result with
      | «continue» | ended | rewound => exact .pure hafter
      | restartStep name =>
        have hforgot : Ordered { after with group := { after.group with
            failed := after.group.failed.filter fun entry => entry.1 ≠ name } } :=
          ⟨hafter.capped, hafter.placed, hafter.owned, hafter.handles, hafter.waited, hafter.apart⟩
        refine .read (.change ?_)
        exact .map (restartParallelStep_ordered hforgot)
    | elapsed =>
      exact .read (.map (tickParallelYolo_ordered hbefore))

/-- A group that starts with distinct steps, and with no containers but those told to stop, ends so. -/
theorem runParallelGroup_quiet {ready : List WorkflowStep} (h : Quiet run)
    (hready : (ready.map WorkflowStep.name).Nodup) :
    Ensures (engine.runParallelGroup ready) run (fun _ after => Quiet after) Limited := by
  have hstart : ∀ slotCap, Ordered { run with
      activeSteps := []
      group := { ParallelGroup.idle with slotCap := slotCap, queue := ready } } := by
    intro slotCap
    refine ⟨Nat.zero_le _, ?_, ?_, ?_, (fun _ hwait => nomatch hwait), h.apart⟩
    · intro name
      have hcount : (ready.map WorkflowStep.name).count name ≤ 1 :=
        List.nodup_iff_count_le_one.mp hready name
      rw [List.count_eq_countP, List.countP_map] at hcount
      change 0 + ready.countP _ ≤ 1
      rw [Nat.zero_add]
      refine (List.countP_congr ?_).trans_le hcount
      intro step _
      simp only [Function.comp, decide_eq_true_eq, beq_iff_eq]
    · intro name
      exact (Fleet.kept_eq_zero.mpr fun container hcontainer _ =>
        Fleet.Idle.stopped h container hcontainer).le
    · intro container _ _ slot hslot
      cases hslot
  refine .change (.seq (launchInitialBatch_ordered (hstart _)) ?_)
  intro _ launched hlaunched
  have hloop : Ensures (loop (engine.groupIteration (ready.map WorkflowStep.name))) launched
      (fun _ after => Stopped after) Limited :=
    .loop Ordered (fun _ hbefore => (groupIteration_ordered hbefore).mono
      (fun result _ hdone => by cases result <;> exact hdone) fun _ hlimited => hlimited)
      (fun _ hbefore => hbefore.limited) hlaunched
  refine .seq hloop ?_
  intro outcome after hafter
  refine .change (.pure ⟨rfl, ?_, hafter.containers, hafter.1.apart⟩)
  change after.activeSteps.length ≤ 1
  rw [hafter.2]
  exact Nat.zero_le 1

end GroupFleet

section Runs

variable {engine : WorkflowEngine} {run : RunState}

/-- The steps that can start now have the names the graph reports, in order. -/
theorem nextReadySteps_names {ready : List WorkflowStep} (h : engine.nextReadySteps run = .ok ready) :
    ready.map WorkflowStep.name = engine.nextReady run := by
  unfold WorkflowEngine.nextReadySteps at h
  generalize engine.nextReady run = names at h
  induction names generalizing ready with
  | nil =>
    cases h
    rfl
  | cons name rest ih =>
    rw [List.mapM_cons] at h
    cases hstep : engine.findStep name with
    | error e => simp [hstep, bind, Except.bind] at h
    | ok step =>
      cases hrest : rest.mapM engine.findStep with
      | error e => simp [hstep, hrest, bind, Except.bind] at h
      | ok steps =>
        simp only [hstep, hrest, bind, Except.bind, pure, Except.pure, Except.ok.injEq] at h
        rw [← h, List.map_cons, ih hrest, (findStep_ok hstep).1]

/-- The names of the steps are distinct, or the steps never run side by side. -/
def WorkflowEngine.LaunchesApart (engine : WorkflowEngine) : Prop :=
  (engine.workflow.steps.map WorkflowStep.name).Nodup ∨ engine.settings.maxConcurrent = some 1

/-- Ready steps leave no container running. -/
theorem runReadySteps_quiet (h : Quiet run) (hapart : engine.LaunchesApart) :
    Ensures engine.runReadySteps run (fun _ after => Quiet after) Limited := by
  refine .read (.bind (.ofExcept h.limited fun ready hready => ?_))
  split
  · rename_i hgroup
    have hnames : (ready.map WorkflowStep.name).Nodup := by
      have hdistinct := hapart.resolve_right hgroup.2
      rw [← WorkflowDag.build_order engine.built] at hdistinct
      rw [nextReadySteps_names hready]
      exact hdistinct.filter _
    refine .seq (runParallelGroup_quiet h hnames) ?_
    intro outcome after hafter
    cases outcome with
    | drained failed => exact handleGroupFailures_quiet hafter
    | ended | rewound => exact .pure hafter
  · exact runSingleStepIteration_quiet h

/-- Nor does an iteration of the outer loop. -/
theorem runIteration_quiet (h : Quiet run) (hapart : engine.LaunchesApart) :
    Ensures engine.runIteration run (fun _ after => Quiet after) Limited := by
  refine .bind (cancelRequested_ensures h.limited fun fired => ?_)
  have hseen : Quiet { run with cancel := fired } := h
  split
  · exact .map (cancelRun_quiet hseen)
  · refine .read ?_
    split
    · exact .pure hseen
    · refine .seq (runReadySteps_quiet hseen hapart) ?_
      intro result after hafter
      cases result <;> exact .pure hafter

/-- A run starts without slots and containers. -/
theorem Started.quiet (h : Started engine run) : Quiet run := by
  cases h with
  | new hnew =>
    unfold WorkflowEngine.new at hnew
    split at hnew
    · cases hnew
    · cases hnew
      exact Fleet.idle_of_empty rfl rfl rfl
  | resume _ hresume =>
    obtain ⟨-, state, -, rfl⟩ := resume_ok hresume
    exact Fleet.idle_of_empty rfl rfl rfl

/-- Wherever a run stands, no more slots are taken than the cap allows and no step is in two places,
if the names of the steps are distinct or at most one step runs at a time.  If in addition each
container was started when the ones of its step that had been told to stop had ended, no step has
two live containers. -/
theorem runToCompletion_withinLimits (h : Started engine run) (hapart : engine.LaunchesApart)
    (answers : List Answer) :
    let fleet := (engine.runToCompletion ⟨answers, run⟩).2.state.fleet
    fleet.WithinLimits ∧ (fleet.StopsEnded → ∀ name, fleet.alive name ≤ 1) := by
  have hrun : Ensures engine.runToCompletion run (fun _ after => Quiet after) Limited :=
    .loop Quiet (fun _ hbefore => (runIteration_quiet hbefore hapart).mono
      (fun result _ hdone => by cases result <;> exact hdone) fun _ hlimited => hlimited)
      (fun _ hbefore => hbefore.limited) h.quiet
  exact hrun.everywhere (fun _ _ hafter => hafter.limited) answers

/-- The two steps of a fresh run are both launched. -/
def bothLaunched : List Answer :=
  .token false :: stepStarts ++ stepStarts

/-- Both steps are launched, and the first is run again from the control board.  The list says which
of the containers told to stop had ended when the new one was started. -/
def lintRunAgain (ended : List Nat) : List Answer :=
  bothLaunched ++ [.group 0 (.request (.openControlBoard "lint")), .board (.ok .restartCurrentStep),
    .groupDecision (.ok .restartOneAgent), .groupDecision (.ok (.restartStep "lint")),
    .saved (.ok ()), .spawned (.ok ⟨"container", "step", true⟩) ended, .saved (.ok ())]

/-- The first container had ended when the step was launched again. -/
theorem runToCompletion_withinLimits_restarted :
    let fleet := (lintAndTestRun.1.runToCompletion
      ⟨lintRunAgain [0], lintAndTestRun.2⟩).2.state.fleet
    fleet.WithinLimits ∧ fleet.alive "lint" ≤ 1 := by
  obtain ⟨hlimits, halone⟩ := runToCompletion_withinLimits lintAndTestRun_started
    (Or.inl (by decide +kernel)) (lintRunAgain [0])
  exact ⟨hlimits, halone (by decide +kernel) "lint"⟩

/-- Two steps of one name, which the graph accepts. -/
def lintTwice : Workflow where
  title := none
  steps := [{ name := "lint" }, { name := "lint" }]
  agent := some "codex"

/-- A fresh run of the two steps. -/
def lintTwiceRun : WorkflowEngine × RunState :=
  (WorkflowEngine.new (fun _ => "") 0 none lintTwice {}).toOption.get (by decide +kernel)

/-- Two steps of one name are both ready and both launched: one name has two slots and two live
containers.  And where the names are distinct, a step that is run again from the control board is
launched beside its container that was told to stop and has not ended. -/
theorem step_launched_beside_itself :
    (Started lintTwiceRun.1 lintTwiceRun.2 ∧
      (lintTwiceRun.1.runToCompletion ⟨bothLaunched, lintTwiceRun.2⟩).2.state.fleet.running "lint" =
        2 ∧
      (lintTwiceRun.1.runToCompletion ⟨bothLaunched, lintTwiceRun.2⟩).2.state.fleet.alive "lint" =
        2) ∧
    Started lintAndTestRun.1 lintAndTestRun.2 ∧ lintAndTestRun.1.LaunchesApart ∧
      (lintAndTestRun.1.runToCompletion
        ⟨lintRunAgain [], lintAndTestRun.2⟩).2.state.fleet.alive "lint" = 2 := by
  refine ⟨⟨.new (show WorkflowEngine.new (fun _ => "") 0 none lintTwice {} =
    .ok (lintTwiceRun.1, lintTwiceRun.2) from Checks.toOption_get (by decide +kernel)), ?_, ?_⟩,
    lintAndTestRun_started, Or.inl (by decide +kernel), ?_⟩
  · decide +kernel
  · decide +kernel
  · decide +kernel

end Runs

end Awman.Engine
