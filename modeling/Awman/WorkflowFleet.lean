import Awman.WorkflowRules

/-!
# Slots, queue and live containers

The part of a run that says which containers run: the slots, the group with its queue and pending
waits, and the containers that are alive.  A container that was told to stop is alive until it has
ended, but holds no slot.  Each other live container of an orderly fleet belongs to the one slot of
its step, so the bounds on slots and names carry over to containers where the ones told to stop have
ended before their step is launched again.
-/

namespace Awman.Engine

open Awman.Interaction

/-- What a run holds about containers. -/
structure Fleet where
  slots : List ActiveParallelStep
  group : ParallelGroup
  containers : List Container
  starts : List ContainerStart
  nextLaunchId : Nat

/-- The containers' part of a run. -/
def RunState.fleet (run : RunState) : Fleet :=
  ⟨run.activeSteps, run.group, run.containers, run.starts, run.nextLaunchId⟩

namespace Fleet

/-- How many slots a step holds. -/
def running (fleet : Fleet) (name : String) : Nat :=
  fleet.slots.countP fun slot => slot.stepName = name

/-- How often a step is queued. -/
def waiting (fleet : Fleet) (name : String) : Nat :=
  fleet.group.queue.countP fun step => step.name = name

/-- How many live containers run a step, the ones told to stop among them. -/
def alive (fleet : Fleet) (name : String) : Nat :=
  fleet.containers.countP fun container => container.stepName = name

/-- How many live containers of a step were not told to stop. -/
def kept (fleet : Fleet) (name : String) : Nat :=
  fleet.containers.countP fun container => container.stepName = name ∧ container.stopping = false

/-- Each container was started when the ones of its step that had been told to stop had ended. -/
def StopsEnded (fleet : Fleet) : Prop :=
  ∀ start ∈ fleet.starts, ∀ container ∈ start.stopping, container.stepName ≠ start.stepName

instance (fleet : Fleet) : Decidable fleet.StopsEnded :=
  inferInstanceAs (Decidable (∀ start ∈ fleet.starts, ∀ container ∈ start.stopping,
    container.stepName ≠ start.stepName))

/-- The bounds on a running group: no more slots than the cap, and no step in two places among the
slots and the queue. -/
structure WithinLimits (fleet : Fleet) : Prop where
  capped : fleet.group.slotCap ≠ 0 → fleet.slots.length ≤ fleet.group.slotCap
  /-- A step holds one slot, or waits once, or neither. -/
  placed : ∀ name, fleet.running name + fleet.waiting name ≤ 1

/-- No step has two live containers, if at each start the ones told to stop had ended. -/
def Apart (fleet : Fleet) : Prop :=
  fleet.StopsEnded → ∀ name, fleet.alive name ≤ 1

/-- A running group whose live containers all belong to slots, but for those told to stop. -/
structure Orderly (fleet : Fleet) : Prop where
  capped : fleet.slots.length ≤ fleet.group.slotCap
  /-- A step holds one slot, or waits once, or neither. -/
  placed : ∀ name, fleet.running name + fleet.waiting name ≤ 1
  /-- The step of a live container that was not told to stop holds a slot. -/
  owned : ∀ name, fleet.kept name ≤ fleet.running name
  handles : ∀ container ∈ fleet.containers, container.stopping = false →
    ∀ slot ∈ fleet.slots, slot.stepName = container.stepName → slot.handle = container.handle
  /-- A pending wait is about an earlier launch, and if this launch still holds the slot, about the
  slot's container. -/
  waited : ∀ wait ∈ fleet.group.waits, wait.launchId < fleet.nextLaunchId ∧
    ∀ slot ∈ fleet.slots, slot.stepName = wait.stepName → slot.launchId = wait.launchId →
      slot.handle = wait.handle
  apart : fleet.Apart

/-- No group runs, and every container that is alive was told to stop. -/
structure Idle (fleet : Fleet) : Prop where
  group : fleet.group = .idle
  /-- At most the slot of the last single step is left. -/
  slots : fleet.slots.length ≤ 1
  /-- No container is left that was not told to stop. -/
  stopped : ∀ container ∈ fleet.containers, container.stopping = true
  apart : fleet.Apart

/-- A single step runs in the container of a handle, or its container has ended or was told to
stop. -/
structure Solo (fleet : Fleet) (handle : Nat) (cancelHandle : Option Nat) : Prop where
  group : fleet.group = .idle
  /-- At most one slot is taken. -/
  slots : fleet.slots.length ≤ 1
  /-- A container that was not told to stop is the step's own, and it can be killed. -/
  handles : ∀ container ∈ fleet.containers, container.stopping = false →
    container.handle = handle ∧ cancelHandle = some handle
  apart : fleet.Apart

section Limits

variable {fleet : Fleet} {name : String}

/-- An orderly fleet is within limits. -/
theorem Orderly.withinLimits (h : Orderly fleet) : WithinLimits fleet :=
  ⟨fun _ => h.capped, h.placed⟩

/-- Without a group there is no queue, and one slot at most is within limits. -/
theorem withinLimits_of_idle (hgroup : fleet.group = .idle) (hslots : fleet.slots.length ≤ 1) :
    WithinLimits fleet := by
  refine ⟨?_, ?_⟩
  · rw [hgroup]
    exact fun hcap => absurd rfl hcap
  · intro name
    have hrunning : fleet.running name ≤ fleet.slots.length := List.countP_le_length
    have hwaiting : fleet.waiting name = 0 := by
      rw [waiting, hgroup]
      rfl
    omega

/-- A single step can be told to start where no other container is kept. -/
theorem Idle.solo (h : Idle fleet) (handle : Nat) (cancelHandle : Option Nat) :
    Solo fleet handle cancelHandle := by
  refine ⟨h.group, h.slots, ?_, h.apart⟩
  intro container hcontainer hkept
  exact absurd (h.stopped container hcontainer) (by simp [hkept])

end Limits

section Stops

variable {fleet : Fleet} {name : String} {handles ended : List Nat} {container : Container}
  {containers : List Container}

/-- All live containers of a step were told to stop. -/
theorem kept_eq_zero : fleet.kept name = 0 ↔
    ∀ c ∈ fleet.containers, c.stepName = name → c.stopping = true := by
  simp [kept]

@[simp] theorem tellToStop_nil : tellToStop [] containers = containers := by
  simp [tellToStop]

/-- A container that was not told to stop is as it was, and not among those told now. -/
theorem mem_tellToStop (hcontainer : container ∈ tellToStop handles containers)
    (hkept : container.stopping = false) :
    container ∈ containers ∧ container.handle ∉ handles := by
  obtain ⟨old, hold, htold⟩ := List.mem_map.mp hcontainer
  by_cases hasked : old.handle ∈ handles
  · rw [if_pos hasked] at htold
    rw [← htold] at hkept
    cases hkept
  · rw [if_neg hasked] at htold
    exact htold ▸ ⟨hold, hasked⟩

/-- Telling containers to stop ends none. -/
theorem alive_tellToStop (slots : List ActiveParallelStep) :
    ({ fleet with slots := slots, containers := tellToStop handles fleet.containers } : Fleet).alive
      name = fleet.alive name := by
  simp only [alive, tellToStop, List.countP_map]
  refine List.countP_congr ?_
  intro container _
  simp only [Function.comp]
  split <;> rfl

/-- Telling containers to stop keeps no more of them. -/
theorem kept_tellToStop :
    ({ fleet with containers := tellToStop handles fleet.containers } : Fleet).kept name ≤
      fleet.kept name := by
  simp only [kept, tellToStop, List.countP_map]
  refine List.countP_mono_left ?_
  intro container _ hkept
  simp only [Function.comp] at hkept
  split at hkept
  · simp at hkept
  · exact hkept

/-- Ends and requests to stop leave containers apart. -/
theorem Apart.mono {after : Fleet} (h : Apart fleet) (hstarts : after.starts = fleet.starts)
    (halive : ∀ name, after.alive name ≤ fleet.alive name) : Apart after := by
  intro hended name
  refine (halive name).trans (h ?_ name)
  unfold StopsEnded
  rw [← hstarts]
  exact hended

/-- A fleet that has done nothing is idle. -/
theorem idle_of_empty (hgroup : fleet.group = .idle) (hslots : fleet.slots = [])
    (hcontainers : fleet.containers = []) : Idle fleet := by
  refine ⟨hgroup, by simp [hslots], by simp [hcontainers], ?_⟩
  intro _ name
  simp [alive, hcontainers]

/-- Asking again leaves an idle fleet idle. -/
theorem Idle.told (h : Idle fleet) : Idle { fleet with
    slots := [], containers := tellToStop handles fleet.containers } := by
  refine ⟨h.group, Nat.zero_le _, ?_, h.apart.mono rfl fun _ => (alive_tellToStop []).le⟩
  intro container hcontainer
  by_contra hkept
  obtain ⟨hmem, -⟩ := mem_tellToStop hcontainer (Bool.not_eq_true _ |>.mp hkept)
  exact hkept (h.stopped container hmem)

/-- A single step whose container was told to stop. -/
theorem Solo.told {handle : Nat} {cancelHandle : Option Nat} (h : Solo fleet handle cancelHandle)
    {slots : List ActiveParallelStep} (hslots : slots.length ≤ 1) :
    Idle { fleet with
      slots := slots, containers := tellToStop cancelHandle.toList fleet.containers } := by
  refine ⟨h.group, hslots, ?_, h.apart.mono rfl fun _ => (alive_tellToStop slots).le⟩
  intro container hcontainer
  by_contra hkept
  obtain ⟨hmem, hother⟩ := mem_tellToStop hcontainer (Bool.not_eq_true _ |>.mp hkept)
  obtain ⟨hhandle, hcancel⟩ := h.handles container hmem (Bool.not_eq_true _ |>.mp hkept)
  exact hother (by simp [hcancel, hhandle])

/-- A single step whose container has ended. -/
theorem Solo.exited {handle : Nat} {cancelHandle : Option Nat} (h : Solo fleet handle cancelHandle)
    {slots : List ActiveParallelStep} (hslots : slots.length ≤ 1) :
    Idle { fleet with
      slots := slots, containers := fleet.containers.filter fun c => c.handle ≠ handle } := by
  refine ⟨h.group, hslots, ?_, h.apart.mono rfl fun _ => List.filter_sublist.countP_le⟩
  intro container hcontainer
  by_contra hkept
  obtain ⟨hmem, hother⟩ := List.mem_filter.mp hcontainer
  obtain ⟨hhandle, -⟩ := h.handles container hmem (Bool.not_eq_true _ |>.mp hkept)
  simp [hhandle] at hother

/-- The fleet after a container was started for a step and some of the containers told to stop had
ended. -/
def spawned (fleet : Fleet) (name : String) (handle : Nat) (isRunning : Bool) (ended : List Nat) :
    Fleet :=
  { fleet with
    containers := if isRunning then
        { stepName := name, handle := handle } :: stillAlive ended fleet.containers
      else stillAlive ended fleet.containers
    starts := ⟨name, (stillAlive ended fleet.containers).filter (·.stopping)⟩ :: fleet.starts }

/-- The containers after a start: the new one, or one that was there before. -/
theorem mem_spawned {handle : Nat} {isRunning : Bool}
    (hcontainer : container ∈ (fleet.spawned name handle isRunning ended).containers) :
    (isRunning = true ∧ container = { stepName := name, handle := handle }) ∨
      container ∈ fleet.containers := by
  cases isRunning with
  | false => exact Or.inr (List.mem_of_mem_filter hcontainer)
  | true =>
    rcases List.mem_cons.mp hcontainer with heq | hold
    · exact Or.inl ⟨rfl, heq⟩
    · exact Or.inr (List.mem_of_mem_filter hold)

/-- A start for a step that keeps no container leaves containers apart: the ones of the step that
were told to stop have ended by then. -/
theorem Apart.spawned {handle : Nat} {isRunning : Bool} (h : Apart fleet)
    (hnone : fleet.kept name = 0) : Apart (fleet.spawned name handle isRunning ended) := by
  intro hended other
  have hbefore : fleet.alive other ≤ 1 :=
    h (fun start hstart => hended start (List.mem_cons_of_mem _ hstart)) other
  have hleft : (stillAlive ended fleet.containers).countP (fun c => c.stepName = other) ≤
      fleet.alive other := List.filter_sublist.countP_le
  cases isRunning with
  | false => exact hleft.trans hbefore
  | true =>
    change List.countP _ (_ :: _) ≤ 1
    rw [List.countP_cons]
    by_cases heq : name = other
    · subst heq
      have hgone : (stillAlive ended fleet.containers).countP (fun c => c.stepName = name) = 0 := by
        refine List.countP_eq_zero.mpr ?_
        intro container hcontainer hname
        have hstep : container.stepName = name := of_decide_eq_true hname
        have hstopping := kept_eq_zero.mp hnone container (List.mem_of_mem_filter hcontainer) hstep
        exact hended _ List.mem_cons_self container
          (List.mem_filter.mpr ⟨hcontainer, hstopping⟩) hstep
      simp [hgone]
    · simpa [heq] using hleft.trans hbefore

/-- A container started where none is kept runs the single step. -/
theorem Idle.spawned {handle : Nat} {isRunning : Bool} (h : Idle fleet) :
    Solo (fleet.spawned name handle isRunning ended) handle
      (if isRunning then some handle else none) := by
  have hnone : fleet.kept name = 0 :=
    kept_eq_zero.mpr fun container hcontainer _ => h.stopped container hcontainer
  refine ⟨h.group, h.slots, ?_, h.apart.spawned hnone⟩
  intro container hcontainer hkept
  rcases mem_spawned hcontainer with ⟨hrunning, rfl⟩ | hold
  · rw [if_pos hrunning]
    exact ⟨rfl, rfl⟩
  · exact absurd (h.stopped container hold) (by simp [hkept])

end Stops

section Changes

variable {fleet : Fleet} {name : String}

variable {slot : ActiveParallelStep} {isRunning : Bool} {handle : Nat} {ended : List Nat}

/-- A slot is counted for its step. -/
theorem running_pos (hslot : slot ∈ fleet.slots) :
    0 < fleet.running slot.stepName :=
  List.countP_pos_iff.mpr ⟨slot, hslot, decide_eq_true rfl⟩

/-- A live container that was not told to stop is the container of its step's slot. -/
theorem Orderly.slot_of_container (h : Orderly fleet) {container : Container}
    (hcontainer : container ∈ fleet.containers) (hkept : container.stopping = false) :
    ∃ slot ∈ fleet.slots, slot.stepName = container.stepName ∧ slot.handle = container.handle := by
  have hpos : 0 < fleet.kept container.stepName :=
    List.countP_pos_iff.mpr ⟨container, hcontainer, decide_eq_true ⟨rfl, hkept⟩⟩
  have howned := h.owned container.stepName
  have hrunning : 0 < fleet.running container.stepName := by omega
  obtain ⟨slot, hslot, hname⟩ := List.countP_pos_iff.mp hrunning
  have heq : slot.stepName = container.stepName := of_decide_eq_true hname
  exact ⟨slot, hslot, heq, h.handles container hcontainer hkept slot hslot heq⟩

/-- Without slots every live container was told to stop. -/
theorem Orderly.stopped_of_slots (h : Orderly fleet) (hslots : fleet.slots = []) :
    ∀ container ∈ fleet.containers, container.stopping = true := by
  intro container hcontainer
  by_contra hkept
  obtain ⟨slot, hslot, -⟩ := h.slot_of_container hcontainer (Bool.not_eq_true _ |>.mp hkept)
  rw [hslots] at hslot
  cases hslot

/-- What a slot says about its launch. -/
def launchOf (slot : ActiveParallelStep) : String × Nat × Nat :=
  (slot.stepName, slot.handle, slot.launchId)

section

variable (h : Orderly fleet)
include h

/-- Reordering the slots, or changing what they say beyond their launch, keeps a fleet orderly. -/
theorem Orderly.rearrange {slots : List ActiveParallelStep}
    (hslots : (slots.map launchOf).Perm (fleet.slots.map launchOf)) :
    Orderly { fleet with slots := slots } := by
  have hrunning : ∀ name, ({ fleet with slots := slots } : Fleet).running name =
      fleet.running name := by
    intro name
    have hcount := hslots.countP_eq (fun launch => decide (launch.1 = name))
    rwa [List.countP_map, List.countP_map] at hcount
  have hold : ∀ slot ∈ slots, ∃ old ∈ fleet.slots, launchOf old = launchOf slot := by
    intro slot hslot
    exact List.mem_map.mp (hslots.subset (List.mem_map.mpr ⟨slot, hslot, rfl⟩))
  refine ⟨?_, ?_, ?_, ?_, ?_, h.apart⟩
  · have hlength := hslots.length_eq
    rw [List.length_map, List.length_map] at hlength
    have hcapped := h.capped
    dsimp only
    omega
  · intro name
    rw [hrunning]
    exact h.placed name
  · intro name
    rw [hrunning]
    exact h.owned name
  · intro container hcontainer hkept slot hslot hname
    obtain ⟨old, hmem, hlaunch⟩ := hold slot hslot
    simp only [launchOf, Prod.mk.injEq] at hlaunch
    have hhandle := h.handles container hcontainer hkept old hmem (hlaunch.1.trans hname)
    omega
  · intro wait hwait
    refine ⟨(h.waited wait hwait).1, ?_⟩
    intro slot hslot hname hlaunchId
    obtain ⟨old, hmem, hlaunch⟩ := hold slot hslot
    simp only [launchOf, Prod.mk.injEq] at hlaunch
    have hhandle := (h.waited wait hwait).2 old hmem (hlaunch.1.trans hname) (by omega)
    omega

/-- Telling containers to stop keeps a fleet orderly. -/
theorem Orderly.told (handles : List Nat) :
    Orderly { fleet with containers := tellToStop handles fleet.containers } := by
  refine ⟨h.capped, h.placed, ?_, ?_, h.waited, ?_⟩
  · exact fun name => kept_tellToStop.trans (h.owned name)
  · intro container hcontainer hkept
    exact h.handles container (mem_tellToStop hcontainer hkept).1 hkept
  · exact h.apart.mono rfl fun _ => (alive_tellToStop fleet.slots).le

/-- Removing slots of one step, all containers of which were told to stop, keeps a fleet orderly. -/
theorem Orderly.narrow (name : String) {slots : List ActiveParallelStep}
    (hslots : slots.Sublist fleet.slots)
    (hothers : ∀ other, other ≠ name →
      slots.countP (fun slot => slot.stepName = other) = fleet.running other)
    (hgone : fleet.kept name = 0) : Orderly { fleet with slots := slots } := by
  refine ⟨hslots.length_le.trans h.capped, ?_, ?_, ?_, ?_, h.apart⟩
  · intro other
    have hless : slots.countP (fun slot => slot.stepName = other) ≤ fleet.running other :=
      hslots.countP_le
    exact le_trans (Nat.add_le_add_right hless _) (h.placed other)
  · intro other
    change fleet.kept other ≤ slots.countP _
    by_cases heq : other = name
    · rw [heq, hgone]
      exact Nat.zero_le _
    · rw [hothers other heq]
      exact h.owned other
  · intro container hcontainer hkept slot hslot
    exact h.handles container hcontainer hkept slot (hslots.subset hslot)
  · intro wait hwait
    refine ⟨(h.waited wait hwait).1, ?_⟩
    intro slot hslot
    exact (h.waited wait hwait).2 slot (hslots.subset hslot)

/-- Telling the container of a step's slot to stop and forgetting the slot. -/
theorem Orderly.release (hfind : fleet.slots.find? (fun slot => slot.stepName = name) = some slot) :
    Orderly { fleet with
      containers := tellToStop [slot.handle] fleet.containers
      slots := fleet.slots.eraseP fun slot => slot.stepName = name } ∧
    (fleet.slots.eraseP fun slot => slot.stepName = name).countP
      (fun slot => slot.stepName = name) = 0 := by
  obtain ⟨hslot, before, after, hsplit, hbefore⟩ := List.find?_eq_some_iff_append.mp hfind
  have hname : slot.stepName = name := of_decide_eq_true hslot
  have hskip : ∀ other ∈ before, ¬decide (other.stepName = name) = true := by
    intro other hother
    simpa using hbefore other hother
  have herase : fleet.slots.eraseP (fun slot => slot.stepName = name) = before ++ after := by
    rw [hsplit, List.eraseP_append_right _ hskip, List.eraseP_cons_of_pos (by simpa using hname)]
  have hcount : ∀ other, fleet.running other =
      (before ++ after).countP (fun slot => slot.stepName = other) +
        if slot.stepName = other then 1 else 0 := by
    intro other
    rw [running, hsplit, List.countP_append, List.countP_append, List.countP_cons]
    simp only [decide_eq_true_eq]
    omega
  rw [herase]
  constructor
  · refine (h.told [slot.handle]).narrow name ?_ ?_ ?_
    · dsimp only
      rw [hsplit]
      exact (List.sublist_cons_self slot after).append_left before
    · intro other hne
      have hother := hcount other
      rw [if_neg (fun heq => hne (heq.symm.trans hname))] at hother
      exact hother.symm
    · refine kept_eq_zero.mpr ?_
      intro container hcontainer heq
      by_contra hkept
      have hkept' := Bool.not_eq_true _ |>.mp hkept
      obtain ⟨hmem, hother⟩ := mem_tellToStop hcontainer hkept'
      have hslots : slot ∈ fleet.slots := List.mem_of_find?_eq_some hfind
      have hsame := h.handles container hmem hkept' slot hslots (hname.trans heq.symm)
      exact hother (List.mem_singleton.mpr hsame.symm)
  · have hself := hcount name
    rw [if_pos hname] at hself
    have hplaced := h.placed name
    omega

/-- Forgetting the slot of a step all containers of which were told to stop. -/
theorem Orderly.forget (hgone : fleet.kept name = 0) :
    Orderly { fleet with slots := fleet.slots.filter fun slot => slot.stepName ≠ name } := by
  refine h.narrow name List.filter_sublist ?_ hgone
  intro other hne
  rw [List.countP_filter]
  refine List.countP_congr ?_
  intro slot _
  simp only [Bool.and_eq_true, decide_eq_true_eq, and_iff_left_iff_imp]
  exact fun heq hname => hne (heq.symm.trans hname)

/-- Changing the queue so that each step still has one place. -/
theorem Orderly.requeue {queue : List WorkflowStep}
    (hqueue : ∀ name, fleet.running name + queue.countP (fun step => step.name = name) ≤ 1) :
    Orderly { fleet with group := { fleet.group with queue := queue } } :=
  ⟨h.capped, hqueue, h.owned, h.handles, h.waited, h.apart⟩

/-- Telling the containers of all slots to stop and forgetting the slots. -/
theorem Orderly.stopped : Orderly { fleet with
    slots := [], containers := tellToStop (fleet.slots.map (·.handle)) fleet.containers } := by
  have htold := h.told (fleet.slots.map (·.handle))
  have hnone : ∀ container ∈ tellToStop (fleet.slots.map (·.handle)) fleet.containers,
      container.stopping = true := by
    intro container hcontainer
    by_contra hkept
    have hkept' := Bool.not_eq_true _ |>.mp hkept
    obtain ⟨hmem, hother⟩ := mem_tellToStop hcontainer hkept'
    obtain ⟨slot, hslot, -, hhandle⟩ := h.slot_of_container hmem hkept'
    exact hother (List.mem_map.mpr ⟨slot, hslot, hhandle⟩)
  refine ⟨Nat.zero_le _, ?_, ?_, by simp, ?_, htold.apart⟩
  · intro name
    have hplaced := h.placed name
    have hwaiting : fleet.waiting name ≤ 1 := by omega
    simpa [running, waiting] using hwaiting
  · intro name
    exact (kept_eq_zero.mpr fun container hcontainer _ => hnone container hcontainer).le
  · intro wait hwait
    exact ⟨(h.waited wait hwait).1, by simp⟩

end

/-- A slot for a step that has no place yet. -/
theorem Orderly.launch (h : Orderly fleet) {wait : ParallelWait}
    (hfree : fleet.slots.length < fleet.group.slotCap)
    (hplace : fleet.running slot.stepName + fleet.waiting slot.stepName = 0)
    (hlaunch : slot.launchId = fleet.nextLaunchId)
    (hwait : wait = ⟨slot.stepName, slot.launchId, slot.handle⟩) (launched : List ParallelWait) :
    Orderly { fleet.spawned slot.stepName slot.handle isRunning ended with
      nextLaunchId := fleet.nextLaunchId + 1
      group := { fleet.group with waits := wait :: fleet.group.waits, launched := launched }
      slots := fleet.slots ++ [slot] } := by
  have hnone : fleet.kept slot.stepName = 0 := by
    have howned := h.owned slot.stepName
    omega
  have hempty : ∀ other ∈ fleet.slots, other.stepName ≠ slot.stepName := by
    intro other hother heq
    have hpos := running_pos hother
    rw [heq] at hpos
    omega
  have hcount : ∀ name, (fleet.slots ++ [slot]).countP (fun slot => slot.stepName = name) =
      fleet.running name + if slot.stepName = name then 1 else 0 := by
    intro name
    rw [List.countP_append, List.countP_singleton, running]
    simp only [decide_eq_true_eq]
  refine ⟨?_, ?_, ?_, ?_, ?_, h.apart.spawned hnone⟩
  · rw [List.length_append, List.length_singleton]
    exact hfree
  · intro name
    have hplaced := h.placed name
    have hafter := hcount name
    change (fleet.slots ++ [slot]).countP _ + fleet.waiting name ≤ 1
    by_cases heq : slot.stepName = name
    · subst heq
      rw [if_pos rfl] at hafter
      omega
    · rw [if_neg heq] at hafter
      omega
  · intro name
    have howned := h.owned name
    have hafter := hcount name
    have hleft : (stillAlive ended fleet.containers).countP
        (fun c => c.stepName = name ∧ c.stopping = false) ≤ fleet.kept name :=
      List.filter_sublist.countP_le
    change ((if isRunning then _ else _) : List Container).countP _ ≤
      (fleet.slots ++ [slot]).countP _
    rw [hafter]
    cases isRunning with
    | false => exact (hleft.trans howned).trans (Nat.le_add_right _ _)
    | true =>
      rw [if_pos rfl, List.countP_cons]
      simp only [and_true, decide_eq_true_eq]
      exact Nat.add_le_add_right (hleft.trans howned) _
  · intro container hcontainer hkept other hother hname
    rcases List.mem_append.mp hother with hold | hnew
    · rcases mem_spawned hcontainer with ⟨-, rfl⟩ | hcontainer
      · exact absurd hname (hempty other hold)
      · exact h.handles container hcontainer hkept other hold hname
    · obtain rfl := List.mem_singleton.mp hnew
      rcases mem_spawned hcontainer with ⟨-, rfl⟩ | hcontainer
      · rfl
      · exact absurd (kept_eq_zero.mp hnone container hcontainer hname.symm) (by simp [hkept])
  · intro other hother
    rcases List.mem_cons.mp hother with rfl | hold
    · subst hwait
      refine ⟨by dsimp only; omega, ?_⟩
      intro holder hholder hname hid
      rcases List.mem_append.mp hholder with hheld | hnew
      · exact absurd hname (hempty holder hheld)
      · rw [List.mem_singleton.mp hnew]
    · have hwaited := h.waited other hold
      refine ⟨by dsimp only; omega, ?_⟩
      intro holder hholder hname hid
      rcases List.mem_append.mp hholder with hheld | hnew
      · exact hwaited.2 holder hheld hname hid
      · rw [List.mem_singleton.mp hnew] at hid
        omega

/-- The slot of a launch whose container was just started. -/
theorem Orderly.launched (h : Orderly fleet) {started : Fleet}
    (hstarted : started = fleet.spawned name handle isRunning ended)
    (hfree : fleet.slots.length < fleet.group.slotCap)
    (hplace : fleet.running name + fleet.waiting name = 0) (hname : slot.stepName = name)
    (hhandle : slot.handle = handle) (hlaunch : slot.launchId = started.nextLaunchId)
    (launched : List ParallelWait) :
    Orderly { started with
      nextLaunchId := started.nextLaunchId + 1
      group := { started.group with
        waits := ⟨slot.stepName, slot.launchId, slot.handle⟩ :: started.group.waits
        launched := launched }
      slots := started.slots ++ [slot] } := by
  subst hstarted hname hhandle
  exact h.launch hfree hplace hlaunch rfl launched

/-- A fleet whose slots are forgotten and whose containers are told to stop stays within limits. -/
theorem limited_stopped (hlimits : WithinLimits fleet) (hapart : Apart fleet) (handles : List Nat) :
    WithinLimits { fleet with slots := [], containers := tellToStop handles fleet.containers } ∧
    Apart { fleet with slots := [], containers := tellToStop handles fleet.containers } := by
  refine ⟨⟨fun _ => Nat.zero_le _, ?_⟩, hapart.mono rfl fun _ => (alive_tellToStop []).le⟩
  intro name
  have hplaced := hlimits.placed name
  have hwaiting : fleet.waiting name ≤ 1 := by omega
  simpa [running, waiting] using hwaiting

/-- The wait of a launch resolved: if the launch still holds its slot, all containers of the step
that are left were told to stop. -/
theorem Orderly.exited (h : Orderly fleet) {wait : ParallelWait} (hwait : wait ∈ fleet.group.waits) :
    let after : Fleet := { fleet with
      group := { fleet.group with waits := fleet.group.waits.erase wait }
      containers := fleet.containers.filter fun c => c.handle ≠ wait.handle }
    Orderly after ∧ ∀ slot ∈ fleet.slots, slot.stepName = wait.stepName →
      slot.launchId = wait.launchId → after.kept wait.stepName = 0 := by
  constructor
  · refine ⟨h.capped, h.placed, ?_, ?_, ?_, ?_⟩
    · intro name
      exact List.filter_sublist.countP_le.trans (h.owned name)
    · intro container hcontainer
      exact h.handles container (List.mem_of_mem_filter hcontainer)
    · intro other hother
      exact h.waited other (List.mem_of_mem_erase hother)
    · exact h.apart.mono rfl fun _ => List.filter_sublist.countP_le
  · intro slot hslot hname hlaunch
    refine kept_eq_zero.mpr ?_
    intro container hcontainer heq
    by_contra hkept
    obtain ⟨hmem, hhandle⟩ := List.mem_filter.mp hcontainer
    have hheld := (h.waited wait hwait).2 slot hslot hname hlaunch
    have hown := h.handles container hmem (Bool.not_eq_true _ |>.mp hkept) slot hslot
      (hname.trans heq.symm)
    have hsame : container.handle = wait.handle := by omega
    simp [hsame] at hhandle

end Changes

end Fleet

end Awman.Engine
