import Awman.WorkflowParallel

/-!
# Resuming a saved run

Whatever statuses a saved state holds and however the definition changed since, the state a resumed
run starts from records exactly the steps of the definition, each pending or completed, and either
everything is completed or some step is ready.
-/

namespace Awman.Engine

open WorkflowState

/-- What resuming makes of a recorded status: a step that did not complete starts over. -/
def StepState.resumed (status : StepState) : StepState :=
  if status.isCompleted then status else .pending

theorem StepState.isCompleted_iff {status : StepState} :
    status.isCompleted = true ↔ status = .succeeded ∨ status = .skipped := by
  cases status <;> simp [isCompleted]

variable {state : WorkflowState} {name : String}

theorem statusOf_foldl_addMissing {infos : List WorkflowStepInfo} :
    (infos.foldl (fun state info => state.addMissing info.name) state).statusOf name =
      if name ∈ infos.map WorkflowStepInfo.name then some ((state.statusOf name).getD .pending)
      else state.statusOf name := by
  induction infos generalizing state with
  | nil => simp
  | cons first rest ih =>
    rw [List.foldl_cons, ih, statusOf_addMissing]
    by_cases hmem : name ∈ rest.map WorkflowStepInfo.name <;>
      by_cases heq : name = first.name <;> simp [hmem, heq]

/-- Making every step of some statuses pending changes these steps only. -/
theorem statusOf_setStatuses_stepsWhere {test : StepState → Bool} :
    (state.setStatuses (state.stepsWhere test) .pending).statusOf name =
      (state.statusOf name).map fun status => if test status then .pending else status := by
  rw [statusOf_setStatuses]
  cases hstatus : state.statusOf name with
  | none =>
    have hnot : name ∉ state.stepsWhere test := fun hmem => by
      simpa [hstatus] using mem_stepsWhere.mp hmem
    simp [hnot]
  | some status =>
    by_cases htest : test status = true
    · have hmem : name ∈ state.stepsWhere test := mem_stepsWhere.mpr (by simp [hstatus, htest])
      simp [hmem, htest]
    · have hnot : name ∉ state.stepsWhere test := fun hmem => by
        have hany := mem_stepsWhere.mp hmem
        simp [hstatus, htest] at hany
      simp [hnot, htest]

section

variable {dag : WorkflowDag} {steps : List WorkflowStep}

/-- The resumed state records the steps of the graph and nothing else. -/
theorem statusOf_resumeState {saved : WorkflowState} (horder : dag.order = steps.map WorkflowStep.name) :
    (resumeState dag steps saved).statusOf name =
      if name ∈ dag.order then some ((saved.statusOf name).getD .pending).resumed else none := by
  have hnames : (steps.map WorkflowStep.info).map WorkflowStepInfo.name = dag.order := by
    rw [horder, List.map_map]
    rfl
  have hidle : ∀ state : WorkflowState, (state.setStatuses state.unrecoveredSteps .pending).statusOf
      name = (state.statusOf name).map
        fun status => if status.isUnrecovered then .pending else status := by
    intro state
    rw [← statusOf_setStatuses_stepsWhere, statusOf_setStatuses, statusOf_setStatuses]
    simp [unrecoveredSteps]
  unfold resumeState
  dsimp only
  rw [hidle, interruptedRunningSteps, statusOf_setStatuses_stepsWhere, statusOf_foldl_addMissing,
    hnames]
  have hpruned : ({ (saved.retainStepsIn dag).1 with
      steps := steps.map WorkflowStep.info } : WorkflowState).statusOf name =
        if name ∈ dag.order then saved.statusOf name else none :=
    statusOf_retainStepsIn
  rw [hpruned]
  by_cases hname : name ∈ dag.order
  · simp only [hname, if_true, Option.map_some, Option.some.injEq]
    cases (saved.statusOf name).getD .pending <;>
      simp [StepState.resumed, StepState.isRunning, StepState.isUnrecovered,
        StepState.isCompleted]
  · simp [hname]

/-- The resumed state is one the state's own operations produce. -/
theorem WorkflowState.Saved.resumeState {saved : WorkflowState} (h : saved.Saved) :
    (resumeState dag steps saved).Saved := by
  unfold Engine.resumeState
  dsimp only
  have hlisted : ({ (saved.retainStepsIn dag).1 with
      steps := steps.map WorkflowStep.info } : WorkflowState).Saved :=
    (h.retainStepsIn dag).other rfl rfl
  have hfilled : ∀ (infos : List WorkflowStepInfo) (state : WorkflowState), state.Saved →
      (infos.foldl (fun state info => state.addMissing info.name) state).Saved := by
    intro infos
    induction infos with
    | nil => exact fun _ hstate => hstate
    | cons first rest ih => exact fun state hstate => ih _ (hstate.addMissing first.name)
  exact ((hfilled _ _ hlisted).setStatuses _ _).setStatuses _ _

/-- Resuming keeps exactly the completed steps that the definition has. -/
theorem mem_completedSteps_resumeState (horder : dag.order = steps.map WorkflowStep.name)
    (hsaved : state.Saved) :
    name ∈ (resumeState dag steps state).completedSteps ↔
      name ∈ dag.order ∧ name ∈ state.completedSteps := by
  rw [hsaved.resumeState.coherent name, hsaved.coherent name, statusOf_resumeState horder]
  by_cases hname : name ∈ dag.order
  · cases state.statusOf name with
    | none => simp [hname, StepState.resumed, StepState.isCompleted]
    | some status =>
      cases status <;> simp [hname, StepState.resumed, StepState.isCompleted]
  · simp [hname]

end

theorem resumed_isCompleted {status : StepState} (h : status.resumed.isTerminal = false) :
    status.resumed = .pending := by
  unfold StepState.resumed at h ⊢
  split
  · rename_i hcompleted
    rw [if_pos hcompleted] at h
    cases status <;> simp [StepState.isCompleted, StepState.isTerminal] at hcompleted h
  · rfl

/-- A run state that can go on: its statuses and its completed set agree with the graph, nothing is
left from an earlier run, and it is not stuck. -/
structure Resumable (dag : WorkflowDag) (state : WorkflowState) : Prop where
  keys : ∀ name, name ∈ state.stepStates ↔ name ∈ dag.order
  /-- No step is running, failed or cancelled. -/
  settled : ∀ name status, state.statusOf name = some status →
    status.isRunning = false ∧ status.isUnrecovered = false
  /-- The completed set holds the succeeded and skipped steps of the graph. -/
  completed : ∀ name, name ∈ state.completedSteps ↔
    name ∈ dag.order ∧ (state.statusOf name = some .succeeded ∨ state.statusOf name = some .skipped)
  /-- The run is over or can go on. -/
  live : state.isComplete = true ∨ state.nextReady dag ≠ []

theorem resumeState_resumable {dag : WorkflowDag} {steps : List WorkflowStep} {saved : WorkflowState}
    (horder : dag.order = steps.map WorkflowStep.name) (hsaved : saved.Saved) :
    Resumable dag (resumeState dag steps saved) := by
  have hstatus : ∀ name, (resumeState dag steps saved).statusOf name =
      if name ∈ dag.order then some ((saved.statusOf name).getD .pending).resumed else none :=
    fun _ => statusOf_resumeState horder
  have hcoherent : Coherent (resumeState dag steps saved) := hsaved.resumeState.coherent
  have hcompleted : ∀ name, name ∈ (resumeState dag steps saved).completedSteps ↔
      name ∈ dag.order ∧ ((resumeState dag steps saved).statusOf name = some .succeeded ∨
        (resumeState dag steps saved).statusOf name = some .skipped) := by
    intro name
    rw [hcoherent name, hstatus name]
    by_cases hname : name ∈ dag.order
    · simp [hname, StepState.isCompleted_iff]
    · simp [hname]
  refine ⟨?_, ?_, hcompleted, ?_⟩
  · intro name
    have hsome : name ∈ (resumeState dag steps saved).stepStates ↔
        ((resumeState dag steps saved).statusOf name).isSome = true := AList.lookup_isSome.symm
    rw [hsome, hstatus name]
    by_cases hname : name ∈ dag.order <;> simp [hname]
  · intro name status hlookup
    rw [hstatus name] at hlookup
    split at hlookup
    · cases hlookup
      cases (saved.statusOf name).getD .pending <;>
        simp [StepState.resumed, StepState.isCompleted, StepState.isRunning,
          StepState.isUnrecovered]
    · cases hlookup
  · by_cases hcomplete : (resumeState dag steps saved).isComplete = true
    · exact Or.inl hcomplete
    · right
      rw [isComplete_iff] at hcomplete
      push Not at hcomplete
      obtain ⟨name, status, hlookup, hopen⟩ := hcomplete
      have hlookup' := hlookup
      rw [hstatus name] at hlookup'
      split at hlookup'
      · rename_i hname
        cases hlookup'
        refine WorkflowDag.readySteps_ne_nil hname ?_
        intro hmem
        have hpending := resumed_isCompleted (by simpa using hopen)
        rcases ((hcompleted name).mp hmem).2 with hdone | hdone <;>
          simp [hlookup, hpending] at hdone
      · cases hlookup'

section Resume

variable {computeWorkflowHash : Workflow → String} {invocationId : Nat} {workItem : Option Nat}
  {workflow : Workflow} {settings : EngineSettings}
  {loaded : Except DataError (Option WorkflowState)}
  {confirmResume : ResumeMismatch → Except EngineError Bool} {engine : WorkflowEngine}
  {run : RunState}

/-- An accepted state is the loaded one or a fresh one. -/
theorem stateToResume_saved (hsaved : ∀ saved, loaded = .ok (some saved) → saved.Saved)
    (haccepted : WorkflowEngine.stateToResume computeWorkflowHash invocationId workItem workflow
      loaded confirmResume = .ok state) : state.Saved := by
  unfold WorkflowEngine.stateToResume at haccepted
  split at haccepted
  · cases haccepted
  · cases haccepted
    exact .new _ _ _ _ _
  · rename_i saved
    have hstored := hsaved saved rfl
    split at haccepted
    · cases haccepted
    · split at haccepted
      · cases haccepted
        exact hstored
      · split at haccepted
        · cases haccepted
        · cases haccepted
        · cases haccepted
          exact hstored

/-- A resumed engine runs the given workflow from an accepted state that was fitted to it. -/
theorem resume_ok
    (hresume : WorkflowEngine.resume computeWorkflowHash invocationId workItem workflow settings
      loaded confirmResume = .ok (engine, run)) :
    engine.workflow = workflow ∧ ∃ state,
      WorkflowEngine.stateToResume computeWorkflowHash invocationId workItem workflow loaded
        confirmResume = .ok state ∧
      run = RunState.start (resumeState engine.dag workflow.steps state) := by
  unfold WorkflowEngine.resume at hresume
  split at hresume
  · cases hresume
  · cases hstate : WorkflowEngine.stateToResume computeWorkflowHash invocationId workItem workflow
        loaded confirmResume with
    | error e => simp [hstate] at hresume
    | ok state =>
      simp only [hstate, Except.ok.injEq, Prod.mk.injEq] at hresume
      obtain ⟨rfl, rfl⟩ := hresume
      exact ⟨rfl, state, rfl, rfl⟩

/-- Every state that `resume` accepts gives a run of the workflow that can go on. -/
theorem resume_sound (hsaved : ∀ saved, loaded = .ok (some saved) → saved.Saved)
    (hresume : WorkflowEngine.resume computeWorkflowHash invocationId workItem workflow settings
      loaded confirmResume = .ok (engine, run)) :
    engine.workflow = workflow ∧ Resumable engine.dag run.state := by
  obtain ⟨hworkflow, state, haccepted, rfl⟩ := resume_ok hresume
  refine ⟨hworkflow, ?_⟩
  have horder := WorkflowDag.build_order engine.built
  rw [hworkflow] at horder
  exact resumeState_resumable horder (stateToResume_saved hsaved haccepted)

/-- A definition after an edit: a step was removed, one was added and one depends on more. -/
def editedWorkflow : Workflow where
  title := none
  steps := [{ name := "draft" }, { name := "review", dependsOn := ["draft"] },
    { name := "check", dependsOn := ["draft"] },
    { name := "merge", dependsOn := ["review", "check"] }]
  agent := some "codex"

/-- What a run of the definition before the edit left behind: a step of every kind. -/
def interruptedState : WorkflowState :=
  ((((WorkflowState.new 0 "workflow" [{ name := "draft" }, { name := "review" },
    { name := "merge" }, { name := "gone" }] "" none).setStatus "draft" .succeeded).setStatus
      "review" (.running none)).setStatus "merge" (.failed 1 (some "exit code 1"))).setStatus
      "gone" .cancelled

theorem resume_sound_interruptedState : ∃ engine run,
    WorkflowEngine.resume (fun _ => "edited") 0 none editedWorkflow {}
      (.ok (some interruptedState)) (fun _ => .ok true) = .ok (engine, run) ∧
    Resumable engine.dag run.state := by
  have haccepted : (WorkflowEngine.resume (fun _ => "edited") 0 none editedWorkflow {}
      (.ok (some interruptedState)) (fun _ => .ok true)).toOption.isSome = true := by
    decide +kernel
  have hsaved : interruptedState.Saved :=
    ((((Saved.new _ _ _ _ _).setStatus _ _).setStatus _ _).setStatus _ _).setStatus _ _
  generalize hresume : WorkflowEngine.resume (fun _ => "edited") 0 none editedWorkflow {}
    (.ok (some interruptedState)) (fun _ => .ok true) = result at haccepted
  cases result with
  | error e => cases haccepted
  | ok resumed =>
    refine ⟨resumed.1, resumed.2, rfl, (resume_sound ?_ hresume).2⟩
    intro saved hloaded
    cases hloaded
    exact hsaved

end Resume

end Awman.Engine
