import Awman.WorkflowDag
import Mathlib.Data.List.Sort

/-!
# The execution state of a workflow run

`WorkflowState` is the snapshot the engine persists after every step transition.  Readiness reads
`completedSteps` and completion reads `stepStates`, so the two must agree: `Coherent` says that the
completed set holds exactly the steps recorded as succeeded or skipped.  Every operation that
writes either field keeps it, and `Saved` collects the states these operations can produce.
-/

namespace Awman.Engine

/-- The status of one main step. -/
inductive StepState where
  /-- The step has not started. -/
  | pending
  /-- The step's container was launched. -/
  | running (containerId : Option String)
  /-- The step's container exited with code zero, or the step was advanced past. -/
  | succeeded
  /-- The step's container exited with another code. -/
  | failed (exitCode : Int) (errorMessage : Option String)
  /-- The step was stopped before it succeeded. -/
  | cancelled
  /-- The step was passed over. -/
  | skipped
deriving DecidableEq, Repr

/-- Whether a step of this status counts as a satisfied dependency. -/
def StepState.isCompleted : StepState → Bool
  | .succeeded | .skipped => true
  | .pending | .running _ | .failed _ _ | .cancelled => false

/-- Whether a step of this status has ended. -/
def StepState.isTerminal : StepState → Bool
  | .succeeded | .skipped | .failed _ _ | .cancelled => true
  | .pending | .running _ => false

/-- Whether the step's container was running when the state was written. -/
def StepState.isRunning : StepState → Bool
  | .running _ => true
  | .pending | .succeeded | .failed _ _ | .cancelled | .skipped => false

/-- Whether the step ended without being completed. -/
def StepState.isUnrecovered : StepState → Bool
  | .failed _ _ | .cancelled => true
  | .pending | .running _ | .succeeded | .skipped => false

/-- What the state records about a step of the definition. -/
structure WorkflowStepInfo where
  name : String
  dependsOn : List String
  agent : Option String
  model : Option String
deriving DecidableEq, Repr

/-- The part of a step that the state records. -/
def WorkflowStep.info (step : WorkflowStep) : WorkflowStepInfo :=
  ⟨step.name, step.dependsOn, step.agent, step.model⟩

/-- The phase a run is in. -/
inductive WorkflowPhase where
  | setup
  | main
  | teardown
  | done
deriving DecidableEq, Repr

/-- The status of one setup or teardown step. -/
inductive PhaseStepStatus where
  | pending
  | running
  | succeeded
  | failed (error : String)
  | remediating (attempt limit : Nat)
  | skipped
deriving DecidableEq, Repr

/-- The record of one setup or teardown step. -/
structure PhaseStepState where
  /-- What the step does, with its variables substituted. -/
  description : String
  status : PhaseStepStatus
deriving DecidableEq, Repr

/-- The newest schema this version writes and reads. -/
def workflowStateSchemaVersion : Nat :=
  4

/-- The persisted snapshot of one workflow invocation. -/
structure WorkflowState where
  /-- The schema the snapshot was written with. -/
  schemaVersion : Nat
  /-- The invocation this snapshot belongs to. -/
  invocationId : Nat
  /-- The name the state file is kept under. -/
  workflowName : String
  /-- The hash of the definition the run started from. -/
  workflowHash : String
  workItem : Option Nat
  stepStates : AList (fun _ : String => StepState)
  /-- The steps that count as satisfied dependencies. -/
  completedSteps : Finset String
  /-- The steps in definition order. -/
  steps : List WorkflowStepInfo
  currentPhase : WorkflowPhase
  setupCompleted : Bool
  teardownCompleted : Bool
  setupStepStates : List PhaseStepState
  teardownStepStates : List PhaseStepState
  /-- Whether an external cancel stopped the run. -/
  cancelledAt : Bool
  /-- How often each step was launched. -/
  stepAttempts : AList (fun _ : String => Nat)
  /-- The container of each step's latest launch. -/
  stepContainers : AList (fun _ : String => String)
deriving DecidableEq

namespace WorkflowState

/-- A fresh state for a workflow that has not run. -/
def new (invocationId : Nat) (workflowName : String) (steps : List WorkflowStep) (hash : String)
    (workItem : Option Nat) : WorkflowState where
  schemaVersion := workflowStateSchemaVersion
  invocationId := invocationId
  workflowName := workflowName
  workflowHash := hash
  workItem := workItem
  stepStates := steps.foldl (fun states step => states.insert step.name .pending) ∅
  completedSteps := ∅
  steps := steps.map WorkflowStep.info
  currentPhase := .main
  setupCompleted := false
  teardownCompleted := false
  setupStepStates := []
  teardownStepStates := []
  cancelledAt := false
  stepAttempts := ∅
  stepContainers := ∅

variable (state : WorkflowState)

/-- The status of a step, if the name is known. -/
def statusOf (stepName : String) : Option StepState :=
  state.stepStates.lookup stepName

/-- The number of the step's latest launch, if it was launched. -/
def stepAttempt (stepName : String) : Option Nat :=
  state.stepAttempts.lookup stepName

/-- Count a new launch of a step and return its number, from one. -/
def recordStepLaunch (stepName : String) : WorkflowState × Nat :=
  let attempt := (state.stepAttempts.lookup stepName).getD 0 + 1
  ({ state with stepAttempts := state.stepAttempts.insert stepName attempt }, attempt)

/-- Record the container of the step's current launch. -/
def recordStepContainer (stepName containerName : String) : WorkflowState :=
  { state with stepContainers := state.stepContainers.insert stepName containerName }

/-- Whether every recorded step has ended. -/
def isComplete : Bool :=
  state.stepStates.entries.all fun entry => entry.2.isTerminal

/-- The steps whose status passes a test. -/
def stepsWhere (test : StepState → Bool) : List String :=
  (state.stepStates.entries.filter fun entry => test entry.2).map Sigma.fst

/-- The steps that were running when the state was persisted. -/
def interruptedRunningSteps : List String :=
  state.stepsWhere StepState.isRunning

/-- The steps a previous run left failed or cancelled, in name order. -/
def unrecoveredSteps : List String :=
  (state.stepsWhere StepState.isUnrecovered).insertionSort (· ≤ ·)

/-- The steps that can start now. -/
def nextReady (dag : WorkflowDag) : List String :=
  dag.readySteps state.completedSteps

/-- Record a status, and keep the completed set in step with it. -/
def setStatus (stepName : String) (status : StepState) : WorkflowState :=
  { state with
    stepStates := state.stepStates.insert stepName status
    completedSteps :=
      if status.isCompleted then
        insert stepName state.completedSteps
      else
        state.completedSteps.erase stepName }

/-- Record the same status for several steps. -/
def setStatuses (names : List String) (status : StepState) : WorkflowState :=
  names.foldl (fun state name => state.setStatus name status) state

/-- Forget everything recorded about a step except its place in the definition. -/
def dropStep (name : String) : WorkflowState :=
  { state with
    stepStates := state.stepStates.erase name
    completedSteps := state.completedSteps.erase name
    stepAttempts := state.stepAttempts.erase name
    stepContainers := state.stepContainers.erase name }

/-- Drop every recorded step that the graph does not define, and return their names in order. -/
def retainStepsIn (dag : WorkflowDag) : WorkflowState × List String :=
  let known := dag.topologicalOrder
  let dropped := ((state.stepStates.entries.map Sigma.fst).filter (· ∉ known)).insertionSort
    (· ≤ ·)
  let pruned := dropped.foldl dropStep state
  ({ pruned with steps := pruned.steps.filter fun step => step.name ∉ dropped }, dropped)

/-- Restart a run at `start`: it and the steps after it become pending, and unfinished steps
before it are skipped.  An unknown name changes nothing. -/
def rewindTo (dag : WorkflowDag) (start : String) : WorkflowState :=
  let order := dag.topologicalOrder
  if start ∈ order then
    order.zipIdx.foldl (fun state entry =>
      if order.idxOf start ≤ entry.2 then
        state.setStatus entry.1 .pending
      else if (state.statusOf entry.1).any StepState.isCompleted then
        state
      else
        state.setStatus entry.1 .skipped) state
  else
    state

/-- Give a step of the definition an entry if it has none. -/
def addMissing (name : String) : WorkflowState :=
  match state.stepStates.lookup name with
  | some _ => state
  | none => { state with stepStates := state.stepStates.insert name .pending }

/-- The completed set holds exactly the steps recorded as succeeded or skipped. -/
def Coherent : Prop :=
  ∀ name, name ∈ state.completedSteps ↔ (state.statusOf name).any StepState.isCompleted = true

/-- The states that the operations on a fresh state can produce.  The last case covers every
write that leaves the statuses and the completed set alone. -/
inductive Saved : WorkflowState → Prop where
  | new (invocationId : Nat) (workflowName : String) (steps : List WorkflowStep) (hash : String)
      (workItem : Option Nat) : Saved (new invocationId workflowName steps hash workItem)
  | setStatus {state : WorkflowState} (h : Saved state) (name : String) (status : StepState) :
      Saved (state.setStatus name status)
  | retainStepsIn {state : WorkflowState} (h : Saved state) (dag : WorkflowDag) :
      Saved (state.retainStepsIn dag).1
  | addMissing {state : WorkflowState} (h : Saved state) (name : String) :
      Saved (state.addMissing name)
  | other {state after : WorkflowState} (h : Saved state)
      (hstates : after.stepStates = state.stepStates)
      (hcompleted : after.completedSteps = state.completedSteps) : Saved after

section Status

variable {state : WorkflowState} {name other : String} {status : StepState}

@[simp]
theorem statusOf_setStatus_self : (state.setStatus name status).statusOf name = some status :=
  AList.lookup_insert _

theorem statusOf_setStatus_ne (hne : other ≠ name) :
    (state.setStatus name status).statusOf other = state.statusOf other :=
  AList.lookup_insert_ne hne

/-- Setting a status changes that of one step. -/
theorem statusOf_setStatus :
    (state.setStatus name status).statusOf other =
      if other = name then some status else state.statusOf other := by
  by_cases heq : other = name
  · subst heq
    simp
  · rw [if_neg heq, statusOf_setStatus_ne heq]

/-- The completed steps follow the statuses that are set. -/
theorem mem_completedSteps_setStatus :
    other ∈ (state.setStatus name status).completedSteps ↔
      if other = name then status.isCompleted = true else other ∈ state.completedSteps := by
  by_cases heq : other = name
  · subst heq
    by_cases hstatus : status.isCompleted = true <;> simp [setStatus, hstatus]
  · by_cases hstatus : status.isCompleted = true <;> simp [setStatus, hstatus, heq]

/-- Setting the status of some steps leaves the others alone. -/
theorem statusOf_setStatuses {names : List String} :
    (state.setStatuses names status).statusOf other =
      if other ∈ names then some status else state.statusOf other := by
  induction names generalizing state with
  | nil => simp [setStatuses]
  | cons first rest ih =>
    rw [setStatuses, List.foldl_cons, ← setStatuses, ih, statusOf_setStatus]
    by_cases hmem : other ∈ rest <;> by_cases heq : other = first <;> simp [hmem, heq]

/-- The steps that pass a test are those whose status does. -/
theorem mem_stepsWhere {test : StepState → Bool} :
    name ∈ state.stepsWhere test ↔ (state.statusOf name).any test = true := by
  constructor
  · intro hmem
    obtain ⟨⟨found, status⟩, hentry, rfl⟩ := List.mem_map.mp hmem
    obtain ⟨hstored, htest⟩ := List.mem_filter.mp hentry
    have hlookup : state.statusOf found = some status := AList.mem_lookup_iff.mpr hstored
    simpa [hlookup] using htest
  · intro hany
    cases hlookup : state.statusOf name with
    | none => simp [hlookup] at hany
    | some status =>
      rw [hlookup] at hany
      exact List.mem_map.mpr
        ⟨⟨name, status⟩, List.mem_filter.mpr ⟨AList.mem_lookup_iff.mp hlookup, hany⟩, rfl⟩

/-- A workflow is complete when every recorded status is terminal. -/
theorem isComplete_iff :
    state.isComplete = true ↔
      ∀ name status, state.statusOf name = some status → status.isTerminal = true := by
  rw [isComplete, List.all_eq_true]
  constructor
  · intro hall name status hlookup
    exact hall ⟨name, status⟩ (AList.mem_lookup_iff.mp hlookup)
  · intro hall entry hentry
    exact hall entry.1 entry.2 (AList.mem_lookup_iff.mpr hentry)

/-- A dropped step has no status. -/
theorem statusOf_dropStep :
    (state.dropStep name).statusOf other = if other = name then none else state.statusOf other := by
  by_cases heq : other = name
  · subst heq
    simp [dropStep, statusOf]
  · rw [if_neg heq]
    exact AList.lookup_erase_ne heq

/-- Dropped steps have no status, the others keep theirs. -/
theorem statusOf_foldl_dropStep {names : List String} :
    (names.foldl dropStep state).statusOf other =
      if other ∈ names then none else state.statusOf other := by
  induction names generalizing state with
  | nil => simp
  | cons first rest ih =>
    rw [List.foldl_cons, ih, statusOf_dropStep]
    by_cases hmem : other ∈ rest <;> by_cases heq : other = first <;> simp [hmem, heq]

/-- Pruning keeps the status of the steps the graph defines and forgets the others. -/
theorem statusOf_retainStepsIn {dag : WorkflowDag} :
    (state.retainStepsIn dag).1.statusOf name =
      if name ∈ dag.order then state.statusOf name else none := by
  have hpruned : (state.retainStepsIn dag).1.statusOf name =
      ((state.retainStepsIn dag).2.foldl dropStep state).statusOf name := rfl
  rw [hpruned, statusOf_foldl_dropStep]
  simp only [retainStepsIn, List.mem_insertionSort, List.mem_filter, WorkflowDag.mem_topologicalOrder,
    decide_not, Bool.not_eq_true', decide_eq_false_iff_not]
  by_cases hname : name ∈ dag.order
  · simp [hname]
  · cases hlookup : state.statusOf name with
    | none => simp
    | some status =>
      have hentry : (⟨name, status⟩ : Sigma fun _ : String => StepState) ∈
          state.stepStates.entries := AList.mem_lookup_iff.mp hlookup
      have hkey : name ∈ state.stepStates.entries.map Sigma.fst :=
        List.mem_map.mpr ⟨_, hentry, rfl⟩
      simp [hname, hkey]

/-- A step that was not recorded is added as pending. -/
theorem statusOf_addMissing :
    (state.addMissing name).statusOf other =
      if other = name then some ((state.statusOf name).getD .pending) else state.statusOf other := by
  cases hlookup : state.stepStates.lookup name with
  | some found =>
    by_cases heq : other = name
    · subst heq
      simp [addMissing, statusOf, hlookup]
    · simp [addMissing, statusOf, hlookup, heq]
  | none =>
    by_cases heq : other = name
    · subst heq
      simp [addMissing, statusOf, hlookup]
    · simp [addMissing, statusOf, hlookup, heq, AList.lookup_insert_ne heq]

end Status

section Coherence

variable {state : WorkflowState}

/-- A new state has every step of the workflow as pending. -/
theorem statusOf_new {invocationId : Nat} {workflowName : String} {steps : List WorkflowStep}
    {hash : String} {workItem : Option Nat} {name : String} :
    (new invocationId workflowName steps hash workItem).statusOf name =
      if name ∈ steps.map WorkflowStep.name then some .pending else none := by
  suffices haux : ∀ (rest : List WorkflowStep) (states : AList (fun _ : String => StepState)),
      (rest.foldl (fun states step => states.insert step.name .pending) states).lookup name =
        if name ∈ rest.map WorkflowStep.name then some .pending else states.lookup name by
    simpa [statusOf, new] using haux steps ∅
  intro rest
  induction rest with
  | nil => intro states; simp
  | cons first rest ih =>
    intro states
    rw [List.foldl_cons, ih]
    by_cases hmem : name ∈ rest.map WorkflowStep.name
    · simp [hmem]
    · by_cases heq : name = first.name
      · subst heq
        simp [hmem]
      · simp [hmem, heq, AList.lookup_insert_ne heq]

/-- Setting a status keeps the state coherent. -/
theorem Coherent.setStatus (h : Coherent state) (name : String) (status : StepState) :
    Coherent (state.setStatus name status) := by
  intro other
  rw [mem_completedSteps_setStatus, statusOf_setStatus]
  by_cases heq : other = name
  · simp [heq]
  · simpa [heq] using h other

/-- So does dropping a step. -/
theorem Coherent.dropStep (h : Coherent state) (name : String) : Coherent (state.dropStep name) := by
  intro other
  rw [statusOf_dropStep]
  by_cases heq : other = name
  · simp [heq, WorkflowState.dropStep]
  · simpa [heq, WorkflowState.dropStep] using h other

/-- So does dropping what the workflow no longer has. -/
theorem Coherent.retainStepsIn (h : Coherent state) (dag : WorkflowDag) :
    Coherent (state.retainStepsIn dag).1 := by
  suffices hpruned : ∀ (names : List String) (before : WorkflowState), Coherent before →
      Coherent (names.foldl WorkflowState.dropStep before) from
    hpruned (state.retainStepsIn dag).2 state h
  intro names
  induction names with
  | nil => exact fun _ hbefore => hbefore
  | cons first rest ih => exact fun before hbefore => ih _ (hbefore.dropStep first)

/-- So does adding a step. -/
theorem Coherent.addMissing (h : Coherent state) (name : String) : Coherent (state.addMissing name) := by
  intro other
  have hcompleted : (state.addMissing name).completedSteps = state.completedSteps := by
    unfold WorkflowState.addMissing
    split <;> rfl
  rw [hcompleted, statusOf_addMissing, h other]
  by_cases heq : other = name
  · subst heq
    cases state.statusOf other <;> simp [StepState.isCompleted]
  · simp [heq]

/-- Every state the operations produce is coherent. -/
theorem Saved.coherent (h : Saved state) : Coherent state := by
  induction h with
  | new invocationId workflowName steps hash workItem =>
    intro name
    rw [statusOf_new]
    have hcompleted : (WorkflowState.new invocationId workflowName steps hash
        workItem).completedSteps = ∅ := rfl
    by_cases hmem : name ∈ steps.map WorkflowStep.name <;>
      simp [hmem, hcompleted, StepState.isCompleted]
  | setStatus _ name status ih => exact ih.setStatus name status
  | retainStepsIn _ dag ih => exact ih.retainStepsIn dag
  | addMissing _ name ih => exact ih.addMissing name
  | other _ hstates hcompleted ih =>
    intro name
    rw [hcompleted, statusOf, hstates]
    exact ih name

/-- Setting statuses leads to a state that may be saved. -/
theorem Saved.setStatuses (h : Saved state) (names : List String) (status : StepState) :
    Saved (state.setStatuses names status) := by
  induction names generalizing state with
  | nil => exact h
  | cons first rest ih => exact ih (h.setStatus first status)

/-- So does a rewind. -/
theorem Saved.rewindTo (h : Saved state) (dag : WorkflowDag) (start : String) :
    Saved (state.rewindTo dag start) := by
  unfold WorkflowState.rewindTo
  dsimp only
  split
  · generalize dag.topologicalOrder.zipIdx = entries
    induction entries generalizing state with
    | nil => exact h
    | cons first rest ih =>
      refine ih ?_
      dsimp only
      split
      · exact h.setStatus _ _
      · split
        · exact h
        · exact h.setStatus _ _
  · exact h

end Coherence

end WorkflowState

end Awman.Engine
