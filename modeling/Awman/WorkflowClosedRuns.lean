import Awman.WorkflowClosure

/-!
# Runs that keep the completed set closed

Which answers of a board keep the completed set closed, and that every run of an invocation keeps
it closed whose answers all do.
-/

namespace Awman.Engine

open Awman.Interaction WorkflowState

/-- The step before a step in topological order. -/
def WorkflowEngine.stepBefore (engine : WorkflowEngine) (name : String) : Option String :=
  let order := engine.dag.topologicalOrder
  if name ∈ order ∧ order.idxOf name ≠ 0 then order[order.idxOf name - 1]? else none

/-- What the state was when it was last written, after some events, latest first, of a run that
began in the state `begun`. -/
def lastWritten (begun : WorkflowState) : List RunEvent → WorkflowState
  | [] => begun
  | .persisted state :: _ => state
  | _ :: older => lastWritten begun older

/-- The engine that ran last, and the state it wrote last or began in. -/
def lastEngine : List HistoryEvent → Option (WorkflowEngine × WorkflowState)
  | [] => none
  | .started engine state :: _ => some (engine, state)
  | .ran (.persisted state) :: older => (lastEngine older).map fun last => (last.1, state)
  | .ran _ :: older => lastEngine older

/-- An answer that leaves the completed set closed.  The board is about the step after
`previous`. -/
def KeepsClosed (engine : WorkflowEngine) (completed : Finset String) (kind : BoardKind)
    (previous : Option String) (action : NextAction) : Prop :=
  match kind, previous, action with
  | .parallelGroup, _, _ => True
  | _, some prev, .cancelToPreviousStep =>
    -- Going back: no completed step other than the board's depends on the step before it.
    ∀ name ∈ completed, engine.stepBefore name ≠ some prev → prev ∉ engine.dag.dependsOn name
  | .failure, _, .launchNext =>
    -- Passing over a failed step: what it depends on is still completed.
    ∀ name ∈ engine.dag.order, engine.stepBefore name = previous →
      engine.dag.readySteps (insert name completed) ≠ [] →
      ∀ dep ∈ engine.dag.dependsOn name, dep ∈ completed
  | _, _, _ => True

/-- An event that leaves the completed set closed.  A run of a changed definition has to begin with
a set that is closed for it. -/
def Allowed : HistoryEvent → Option (WorkflowEngine × WorkflowState) → Prop
  | .started engine state, some (last, _) =>
    last.workflow.steps = engine.workflow.steps ∨
      DependencyClosed engine.dag state.completedSteps
  | .ran (.boardAnswered kind previous action), some (engine, state) =>
    KeepsClosed engine state.completedSteps kind previous action
  | _, _ => True

/-- Every event of the history leaves the completed set closed. -/
inductive Careful : List HistoryEvent → Prop where
  | nil : Careful []
  | cons {event : HistoryEvent} {older : List HistoryEvent}
      (hallowed : Allowed event (lastEngine older)) (holder : Careful older) :
      Careful (event :: older)

theorem careful_cons {event : HistoryEvent} {older : List HistoryEvent} :
    Careful (event :: older) ↔ Allowed event (lastEngine older) ∧ Careful older := by
  constructor
  · rintro ⟨_, _⟩
    constructor <;> assumption
  · rintro ⟨hallowed, holder⟩
    exact .cons hallowed holder

instance (engine : WorkflowEngine) (completed : Finset String) (kind : BoardKind)
    (previous : Option String) (action : NextAction) :
    Decidable (KeepsClosed engine completed kind previous action) := by
  unfold KeepsClosed
  split <;> infer_instance

instance (event : HistoryEvent) (last : Option (WorkflowEngine × WorkflowState)) :
    Decidable (Allowed event last) := by
  unfold Allowed
  split <;> infer_instance

instance decidableCareful : (history : List HistoryEvent) → Decidable (Careful history)
  | [] => isTrue .nil
  | _ :: older =>
    have := decidableCareful older
    decidable_of_iff' _ careful_cons

section Steps

variable {engine : WorkflowEngine} {run : RunState} {name other prev : String}

theorem previousStepName_eq (hcurrent : run.currentStepName = some name) :
    engine.previousStepName run = engine.stepBefore name := by
  simp [WorkflowEngine.previousStepName, hcurrent, WorkflowEngine.stepBefore]

/-- Two steps with the same step before them are the same step. -/
theorem stepBefore_inj (hname : engine.stepBefore name = some prev)
    (hother : engine.stepBefore other = some prev) : name = other := by
  have hspec : ∀ {step}, engine.stepBefore step = some prev →
      step ∈ engine.dag.topologicalOrder ∧
        engine.dag.topologicalOrder.idxOf step = engine.dag.topologicalOrder.idxOf prev + 1 := by
    intro step hstep
    unfold WorkflowEngine.stepBefore at hstep
    dsimp only at hstep
    split at hstep
    · rename_i hposition
      obtain ⟨hbound, hget⟩ := List.getElem?_eq_some_iff.mp hstep
      have hindex := engine.dag.topologicalOrder_nodup.idxOf_getElem _ hbound
      rw [hget] at hindex
      exact ⟨hposition.1, by omega⟩
    · cases hstep
  obtain ⟨hnameMem, hnameIndex⟩ := hspec hname
  obtain ⟨_, hotherIndex⟩ := hspec hother
  exact (List.idxOf_inj hnameMem).mp (hnameIndex.trans hotherIndex.symm)

end Steps

section ClosedRuns

variable {engine : WorkflowEngine} {begun : WorkflowState} {past : List HistoryEvent}
  {run after : RunState} {stage : Stage} {names : List String} {written : Bool} {name : String}

/-- How far the completed set is closed while steps are at work. -/
def StageClosed (dag : WorkflowDag) (stage : Stage) (names : List String)
    (completed : Finset String) : Prop :=
  match stage with
  | .working => FreeToComplete dag names completed
  | .deciding => FreeToReset dag names completed

theorem StageClosed.toFreeToReset {dag : WorkflowDag} {completed : Finset String}
    (h : StageClosed dag stage names completed) : FreeToReset dag names completed := by
  cases stage with
  | working => exact h.toFreeToReset
  | deciding => exact h

/-- What holds of the state of a run whose events all left the completed set closed. -/
structure ClosedRun (engine : WorkflowEngine) (begun : WorkflowState) (stage : Stage)
    (names : List String) (written : Bool) (run : RunState) : Prop where
  closed : StageClosed engine.dag stage names run.state.completedSteps
  /-- The state that was written last is the state of the run, unless it changed since. -/
  saved : written = true →
    (lastWritten begun run.log).completedSteps = run.state.completedSteps

theorem lastEngine_historyOf (log : List RunEvent) :
    lastEngine (historyOf engine begun past log) = some (engine, lastWritten begun log) := by
  induction log with
  | nil => rfl
  | cons event older ih =>
    have hstep : historyOf engine begun past (event :: older) =
        .ran event :: historyOf engine begun past older := rfl
    rw [hstep]
    cases event with
    | persisted state => simp [lastEngine, lastWritten, ih]
    | launched | boardAnswered | exitHandled | stuckHandled => exact ih

/-- The last event of a careful history left the completed set closed. -/
theorem Careful.answer {log : List RunEvent} {kind : BoardKind} {previous : Option String}
    {action : NextAction}
    (h : Careful (historyOf engine begun past (.boardAnswered kind previous action :: log))) :
    KeepsClosed engine (lastWritten begun log).completedSteps kind previous action := by
  have hallowed : Allowed (.ran (.boardAnswered kind previous action))
      (lastEngine (historyOf engine begun past log)) := (careful_cons.mp h).1
  rw [lastEngine_historyOf] at hallowed
  exact hallowed

/-- A state with the same completed set is as closed. -/
theorem ClosedRun.unchanged (h : ClosedRun engine begun stage names written run)
    (hcompleted : after.state.completedSteps = run.state.completedSteps) (hlog : after.log = run.log) :
    ClosedRun engine begun stage names written after := by
  constructor
  · rw [hcompleted]
    exact h.closed
  · rw [hlog, hcompleted]
    exact h.saved

/-- A change of the state that keeps the completed set closed. -/
theorem ClosedRun.changed (h : StageClosed engine.dag stage names after.state.completedSteps) :
    ClosedRun engine begun stage names false after :=
  ⟨h, fun hwritten => nomatch hwritten⟩

theorem ClosedRun.noted {event : RunEvent} (h : ClosedRun engine begun stage names written run)
    (hevent : event.isNote = true) :
    ClosedRun engine begun stage names written { run with log := event :: run.log } := by
  refine ⟨h.closed, ?_⟩
  cases event with
  | persisted | launched => cases hevent
  | boardAnswered | exitHandled | stuckHandled => exact h.saved

/-- Sending a step back keeps the completed set closed if no other completed step depends on the
one before it. -/
theorem ClosedRun.sentBack {status : StepState} {kind : BoardKind} {prev : String} {log : List RunEvent}
    (h : ClosedRun engine begun .deciding names true run) (hname : name ∈ names)
    (hstatus : status.isCompleted = false) (hcurrent : run.currentStepName = some name)
    (hprevious : engine.previousStepName run = some prev) (hkind : kind ≠ .parallelGroup)
    (hlog : run.log = .boardAnswered kind (engine.previousStepName run) .cancelToPreviousStep :: log)
    (hcareful : Careful (historyOf engine begun past run.log)) :
    ClosedRun engine begun .deciding names false
      { run with state := (run.state.setStatus name status).setStatus prev .pending } := by
  have hreset : FreeToReset engine.dag names (run.state.setStatus name status).completedSteps :=
    FreeToReset.reset h.closed hname hstatus
  have hsaved : (lastWritten begun log).completedSteps = run.state.completedSteps := by
    have hwritten := h.saved rfl
    rw [hlog] at hwritten
    exact hwritten
  rw [hlog, hprevious] at hcareful
  have hkeeps : ∀ other ∈ run.state.completedSteps, engine.stepBefore other ≠ some prev →
      prev ∉ engine.dag.dependsOn other := by
    have hanswer := hcareful.answer
    rw [hsaved] at hanswer
    cases kind with
    | parallelGroup => exact absurd rfl hkind
    | midStep | betweenSteps | failure => exact hanswer
  have hbefore : engine.stepBefore name = some prev := by
    rw [← previousStepName_eq hcurrent]
    exact hprevious
  have hout : ∀ other ∈ (run.state.setStatus name status).completedSteps,
      prev ∉ engine.dag.dependsOn other := by
    intro other hother
    rw [mem_completedSteps_setStatus] at hother
    split at hother
    · simp [hstatus] at hother
    · rename_i hne
      exact hkeeps other hother fun hsame => hne (stepBefore_inj hsame hbefore)
  refine .changed ⟨?_, ?_, hreset.apart, hreset.known⟩
  · intro other hother dep hdep
    rw [mem_completedSteps_setStatus] at hother ⊢
    split at hother
    · cases hother
    · rename_i hne
      have hdepNe : dep ≠ prev := by
        rintro rfl
        exact hout other hother hdep
      rw [if_neg hdepNe]
      exact hreset.closed other hother dep hdep
  · intro first hfirst other hother
    rw [mem_completedSteps_setStatus] at hother
    split at hother
    · cases hother
    · exact hreset.free first hfirst other hother

/-- Passing over a failed step keeps the completed set closed if what it depends on is
completed. -/
theorem ClosedRun.passedOver {log : List RunEvent} (h : ClosedRun engine begun .deciding names true run)
    (hname : name ∈ names) (hcurrent : run.currentStepName = some name)
    (hready : engine.dag.readySteps (insert name run.state.completedSteps) ≠ [])
    (hlog : run.log = .boardAnswered .failure (engine.previousStepName run) .launchNext :: log)
    (hcareful : Careful (historyOf engine begun past run.log)) :
    ClosedRun engine begun .deciding names false
      { run with state := run.state.setStatus name .skipped } := by
  have hreset : FreeToReset engine.dag names run.state.completedSteps := h.closed
  have hsaved : (lastWritten begun log).completedSteps = run.state.completedSteps := by
    have hwritten := h.saved rfl
    rw [hlog] at hwritten
    exact hwritten
  rw [hlog, previousStepName_eq hcurrent] at hcareful
  have hanswer := hcareful.answer
  rw [hsaved] at hanswer
  have hmet : ∀ dep ∈ engine.dag.dependsOn name, dep ∈ run.state.completedSteps := by
    cases hbefore : engine.stepBefore name with
    | none | some =>
      rw [hbefore] at hanswer
      exact hanswer name (hreset.known name hname) hbefore hready
  exact .changed (hreset.complete hname hmet rfl)

/-- The steps that are not completed are not in the completed set. -/
theorem unfinishedSteps_open : ∀ name ∈ engine.unfinishedSteps run,
    name ∉ run.state.completedSteps := by
  intro name hname
  simpa using (List.mem_filter.mp hname).2

/-- Passing over everything that is unfinished completes the whole graph. -/
theorem closed_finished : DependencyClosed engine.dag
    (run.state.setStatuses (engine.unfinishedSteps run) .skipped).completedSteps := by
  intro other hother dep hdep
  rw [mem_completedSteps_setStatuses]
  split
  · rfl
  · rename_i hmem
    have horder := (WorkflowDag.dependsOn_order hdep).2
    rw [WorkflowDag.build_order engine.built] at horder
    by_contra hopen
    exact hmem (List.mem_filter.mpr ⟨horder, by simpa using hopen⟩)

/-- Wherever a run is cut off, the state that was written has a closed completed set if all events
before left it closed, and the same holds of the state of the run. -/
structure CarefulRun (engine : WorkflowEngine) (begun : WorkflowState) (past : List HistoryEvent)
    (stage : Stage) (names : List String) (written : Bool) (run : RunState) : Prop where
  /-- Every state that was written is closed, if the events before it left it closed. -/
  snapshots : ∀ {later snapshot earlier}, run.log = later ++ .persisted snapshot :: earlier →
    Careful (historyOf engine begun past earlier) →
    DependencyClosed engine.dag snapshot.completedSteps
  state : Careful (historyOf engine begun past run.log) →
    ClosedRun engine begun stage names written run

theorem CarefulRun.change {later : Stage} {others : List String} {rewritten : Bool}
    (h : CarefulRun engine begun past stage names written run) (hlog : after.log = run.log)
    (hchange : ClosedRun engine begun stage names written run →
      Careful (historyOf engine begun past run.log) →
      ClosedRun engine begun later others rewritten after) :
    CarefulRun engine begun past later others rewritten after := by
  constructor
  · intro later snapshot earlier hcut
    rw [hlog] at hcut
    exact h.snapshots hcut
  · intro hcareful
    rw [hlog] at hcareful
    exact hchange (h.state hcareful) hcareful

theorem CarefulRun.cons {event : RunEvent} {rewritten : Bool}
    (h : CarefulRun engine begun past stage names written run)
    (hsnapshot : ∀ snapshot, event = .persisted snapshot → snapshot = run.state)
    (hstate : ClosedRun engine begun stage names written run →
      ClosedRun engine begun stage names rewritten { run with log := event :: run.log }) :
    CarefulRun engine begun past stage names rewritten { run with log := event :: run.log } := by
  constructor
  · intro later snapshot earlier hcut hcareful
    cases later with
    | nil =>
      obtain ⟨hevent, hearlier⟩ := List.cons.inj hcut
      rw [← hearlier] at hcareful
      rw [hsnapshot snapshot hevent]
      exact (h.state hcareful).closed.toFreeToReset.closed
    | cons first rest => exact h.snapshots (List.cons.inj hcut).2 hcareful
  · intro hcareful
    exact hstate (h.state (careful_cons.mp hcareful).2)

theorem CarefulRun.persisted (h : CarefulRun engine begun past stage names written run) :
    CarefulRun engine begun past stage names true
      { run with log := .persisted run.state :: run.log } :=
  h.cons (fun _ heq => (RunEvent.persisted.inj heq).symm) fun hclosed =>
    ⟨hclosed.closed, fun _ => rfl⟩

/-- A launch changes the status of its step and is written before the container is started. -/
theorem CarefulRun.launched {attempt : Nat} (h : CarefulRun engine begun past .working names true run)
    (hname : name ∈ names) :
    let state := (run.state.recordStepLaunch name).1.setStatus name (.running none)
    CarefulRun engine begun past .working names true
      { run with state := state, log := .launched name attempt :: .persisted state :: run.log } := by
  intro state
  have hchanged : CarefulRun engine begun past .working names false
      { run with state := state } := by
    refine h.change rfl fun hclosed _ => .changed ?_
    have hcounted : FreeToComplete engine.dag names
        (run.state.recordStepLaunch name).1.completedSteps := hclosed.closed
    exact hcounted.setStatus hname
  have hwritten := hchanged.persisted
  exact hwritten.cons (fun _ heq => nomatch heq) fun hclosed => ⟨hclosed.closed, hclosed.saved⟩

/-- Every operation of an engine keeps the completed set closed while the answers do. -/
def closedRuns (engine : WorkflowEngine) (begun : WorkflowState) (past : List HistoryEvent) :
    RunInvariant engine where
  Holds := CarefulRun engine begun past
  frame h hstate hlog := h.change hlog fun hclosed _ => hclosed.unchanged (by rw [hstate]) hlog
  changing h := h.change rfl fun hclosed _ => .changed hclosed.closed
  opened _ h hready := h.change rfl fun hclosed _ =>
    ⟨.ready (FreeToReset.closed hclosed.closed) hready, hclosed.saved⟩
  ended h := h.change rfl fun hclosed _ =>
    ⟨FreeToComplete.toFreeToReset hclosed.closed, hclosed.saved⟩
  closed h := h.change rfl fun hclosed _ =>
    ⟨.nil (FreeToReset.closed hclosed.closed), hclosed.saved⟩
  persisted h := h.persisted
  noted _ h hevent := by
    refine h.cons ?_ fun hclosed => hclosed.noted hevent
    rintro _ rfl
    cases hevent
  counted h _ := h.change rfl fun hclosed _ => .changed hclosed.closed
  launched h hname := h.launched hname
  contained _ _ h := h.change rfl fun hclosed _ => .changed hclosed.closed
  worked _ h hname := h.change rfl fun hclosed _ =>
    .changed (FreeToComplete.setStatus hclosed.closed hname)
  retried _ h hname hstatus := h.change rfl fun hclosed _ =>
    .changed (FreeToReset.reset hclosed.closed hname hstatus)
  passedOver h hname hcurrent hready hlog := h.change rfl fun hclosed hcareful =>
    hclosed.passedOver hname hcurrent hready hlog hcareful
  sentBack _ h hname hstatus hcurrent hprevious hkind hlog := h.change rfl fun hclosed hcareful =>
    hclosed.sentBack hname hstatus hcurrent hprevious hkind hlog hcareful
  rewound h := h.change rfl fun hclosed _ => .changed (.nil (FreeToComplete.goBack hclosed.closed))
  cancelled h := h.change rfl fun hclosed _ =>
    hclosed.unchanged (completedSteps_setStatuses_open rfl unfinishedSteps_open) rfl
  finished h := h.change rfl fun _ _ => .changed (.nil closed_finished)
  stamped h := h.change rfl fun hclosed _ => hclosed.unchanged rfl rfl

end ClosedRuns

section Invocations

variable {engine : WorkflowEngine} {stored loaded : Option WorkflowState}
  {history : List HistoryEvent} {run : RunState}

/-- What the state file holds is a state the engines' operations produce. -/
theorem StartedFrom.started (h : StartedFrom loaded engine run)
    (hsaved : ∀ saved, loaded = some saved → saved.Saved) : Started engine run := by
  cases h with
  | new _ hnew => exact .new hnew
  | resume hresume =>
    refine .resume ?_ hresume
    intro saved hloaded
    exact hsaved saved (Except.ok.inj hloaded)

theorem Prepared.saved {dag : WorkflowDag} (h : Prepared dag stored loaded)
    (hsaved : ∀ saved, stored = some saved → saved.Saved) :
    ∀ saved, loaded = some saved → saved.Saved := by
  cases h with
  | kept => exact hsaved
  | rewound start hstored =>
    intro saved heq
    rw [← Option.some.inj heq]
    exact (hsaved _ hstored).rewindTo dag start

theorem lastSaved_eq {log : List RunEvent} {saved : WorkflowState}
    (h : lastSaved loaded log = some saved) :
    .persisted saved ∈ log ∨ loaded = some saved ∧ ∀ state, .persisted state ∉ log := by
  induction log with
  | nil => exact Or.inr ⟨h, by simp⟩
  | cons event older ih =>
    have hskip : lastSaved loaded older = some saved → (∀ state, event ≠ .persisted state) →
        .persisted saved ∈ event :: older ∨
          loaded = some saved ∧ ∀ state, .persisted state ∉ event :: older := by
      intro hrest hevent
      rcases ih hrest with hmem | ⟨hloaded, hnone⟩
      · exact Or.inl (List.mem_cons_of_mem event hmem)
      · refine Or.inr ⟨hloaded, fun state hmem => ?_⟩
        rcases List.mem_cons.mp hmem with heq | hold
        · exact hevent state heq.symm
        · exact hnone state hold
    cases event with
    | persisted state =>
      cases h
      exact Or.inl List.mem_cons_self
    | launched | boardAnswered | exitHandled | stuckHandled => exact hskip h fun _ heq => by cases heq

theorem Invocation.saved (h : Invocation stored history) :
    ∀ saved, stored = some saved → saved.Saved := by
  induction h with
  | start => exact fun _ hnone => nomatch hnone
  | @run stored loaded past engine before _ hprepared hstart answers later earlier hcut ih =>
    intro saved hstored
    have hloaded := hprepared.saved ih
    rcases lastSaved_eq hstored with hmem | ⟨hkept, _⟩
    · refine persisted_saved (hstart.started hloaded) answers ?_
      rw [hcut]
      exact List.mem_append_right later hmem
    · exact hloaded saved hkept
  | phase _ hstates hcompleted _ _ ih =>
    rintro saved hstored
    cases hstored
    exact (ih _ rfl).other hstates hcompleted

theorem dag_eq {last : WorkflowEngine} (h : last.workflow.steps = engine.workflow.steps) :
    last.dag = engine.dag := by
  have hlast := last.built
  rw [h, engine.built] at hlast
  exact (Except.ok.inj hlast).symm

/-- What the state file holds is closed for the definition that ran last. -/
def StoredClosed (stored : Option WorkflowState) (history : List HistoryEvent) : Prop :=
  ∀ saved, stored = some saved → ∃ engine state, lastEngine history = some (engine, state) ∧
    DependencyClosed engine.dag saved.completedSteps

/-- A run that may begin begins with a closed set: with none completed, with what an unchanged
definition left or was rewound to, or with a set that is closed for the changed definition. -/
theorem StartedFrom.closed {past : List HistoryEvent} (h : StartedFrom loaded engine run)
    (hprepared : Prepared engine.dag stored loaded) (hstored : StoredClosed stored past)
    (hsaved : ∀ saved, stored = some saved → saved.Saved)
    (hallowed : Allowed (.started engine run.state) (lastEngine past)) :
    DependencyClosed engine.dag run.state.completedSteps := by
  rcases h.begins.2 with ⟨rfl, hempty⟩ | ⟨saved, rfl, hstate⟩
  · intro name hname
    rw [hempty] at hname
    cases hname
  · have hkept : ∃ held, stored = some held := by
      cases hprepared with
      | kept => exact ⟨saved, rfl⟩
      | rewound start hheld => exact ⟨_, hheld⟩
    obtain ⟨held, hheld⟩ := hkept
    obtain ⟨last, state, hlast, hclosed⟩ := hstored held hheld
    rw [hlast] at hallowed
    rcases hallowed with hsame | hdrifted
    · rw [dag_eq hsame] at hclosed
      rw [hstate]
      rw [dependencyClosed_resumeState (WorkflowDag.build_order engine.built)
        (hprepared.saved hsaved saved rfl)]
      cases hprepared with
      | kept =>
        cases hheld
        exact hclosed
      | rewound start hrewound =>
        obtain rfl := Option.some.inj (hrewound.symm.trans hheld)
        exact DependencyClosed.rewindTo (hsaved _ hheld).coherent (Or.inr hclosed)
    · exact hdrifted

/-- If the run begins with a closed set, so was the state that was loaded. -/
theorem StartedFrom.loadedClosed {saved : WorkflowState} (h : StartedFrom (some saved) engine run)
    (hsaved : saved.Saved) (hclosed : DependencyClosed engine.dag run.state.completedSteps) :
    DependencyClosed engine.dag saved.completedSteps := by
  rcases h.begins.2 with ⟨hnone, _⟩ | ⟨found, hfound, hstate⟩
  · cases hnone
  · cases hfound
    rw [hstate, dependencyClosed_resumeState (WorkflowDag.build_order engine.built) hsaved]
      at hclosed
    exact hclosed

/-- A run that begins with a closed set stays careful wherever it is cut off. -/
theorem StartedFrom.careful (past : List HistoryEvent) (h : StartedFrom loaded engine run)
    (hclosed : DependencyClosed engine.dag run.state.completedSteps) (answers : List Answer) :
    ∃ stage names written, CarefulRun engine run.state past stage names written
      (engine.runToCompletion ⟨answers, run⟩).2.state := by
  have hlog := h.begins.1
  have hbegin : CarefulRun engine run.state past .deciding [] true run := by
    constructor
    · intro later snapshot earlier hcut
      rw [hlog] at hcut
      exact absurd hcut.symm (List.append_ne_nil_of_right_ne_nil _ (List.cons_ne_nil _ _))
    · intro _
      refine ⟨.nil hclosed, fun _ => ?_⟩
      rw [hlog]
      rfl
  exact runToCompletion_reaches (closedRuns engine run.state past) hbegin answers

theorem Careful.older {newer older : List HistoryEvent} (h : Careful (newer ++ older)) :
    Careful older := by
  induction newer with
  | nil => exact h
  | cons event rest ih => exact ih (careful_cons.mp h).2

/-- The state file stays closed over the history of an invocation. -/
theorem Invocation.storedClosed (h : Invocation stored history) (hcareful : Careful history) :
    StoredClosed stored history := by
  induction h with
  | start => exact fun _ hnone => nomatch hnone
  | @run stored loaded past engine before hpast hprepared hstart answers later earlier hcut ih =>
    have hbegan : Careful (.started engine before.state :: past) := hcareful.older
    obtain ⟨hallowed, holder⟩ := careful_cons.mp hbegan
    have hstored := ih holder
    have hclosed := hstart.closed hprepared hstored hpast.saved hallowed
    obtain ⟨_, _, _, hrun⟩ := hstart.careful past hclosed answers
    intro saved hsaved
    refine ⟨engine, lastWritten before.state earlier, lastEngine_historyOf earlier, ?_⟩
    rcases lastSaved_eq hsaved with hmem | ⟨hloaded, _⟩
    · obtain ⟨newer, older, hsplit⟩ := List.append_of_mem hmem
      have hcareful' : Careful (historyOf engine before.state past older) := by
        have hwhole : earlier.map HistoryEvent.ran ++ .started engine before.state :: past =
            (newer.map HistoryEvent.ran ++ [.ran (.persisted saved)]) ++
              historyOf engine before.state past older := by
          simp [hsplit, historyOf]
        rw [hwhole] at hcareful
        exact hcareful.older
      rw [hsplit, ← List.append_assoc] at hcut
      exact hrun.snapshots hcut hcareful'
    · subst hloaded
      exact hstart.loadedClosed (hprepared.saved hpast.saved saved rfl) hclosed
  | phase _ _ hcompleted _ _ ih =>
    intro saved hsaved
    cases hsaved
    rw [hcompleted]
    exact ih hcareful _ rfl

/-- In every run of an invocation whose events all leave the completed set closed, it is closed in
the state the run is started from, perhaps after a rewind, in every state it writes, and in the
state it stops in. -/
theorem Invocation.dependencyClosed (h : Invocation stored history)
    (hprepared : Prepared engine.dag stored loaded) (hstart : StartedFrom loaded engine run)
    (answers : List Answer)
    (hcareful : Careful (historyOf engine run.state history
      (engine.runToCompletion ⟨answers, run⟩).2.state.log)) :
    (∀ saved, loaded = some saved → DependencyClosed engine.dag saved.completedSteps) ∧
    DependencyClosed engine.dag run.state.completedSteps ∧
    (∀ snapshot, .persisted snapshot ∈ (engine.runToCompletion ⟨answers, run⟩).2.state.log →
      DependencyClosed engine.dag snapshot.completedSteps) ∧
    DependencyClosed engine.dag
      (engine.runToCompletion ⟨answers, run⟩).2.state.state.completedSteps := by
  have hbegan : Careful (.started engine run.state :: history) := hcareful.older
  obtain ⟨hallowed, holder⟩ := careful_cons.mp hbegan
  have hclosed := hstart.closed hprepared (h.storedClosed holder) h.saved hallowed
  obtain ⟨_, _, _, hrun⟩ := hstart.careful history hclosed answers
  refine ⟨?_, hclosed, ?_, ?_⟩
  · rintro saved rfl
    exact hstart.loadedClosed (hprepared.saved h.saved saved rfl) hclosed
  · intro snapshot hmem
    obtain ⟨newer, older, hsplit⟩ := List.append_of_mem hmem
    have hwhole : historyOf engine run.state history
        (engine.runToCompletion ⟨answers, run⟩).2.state.log =
          (newer.map HistoryEvent.ran ++ [.ran (.persisted snapshot)]) ++
            historyOf engine run.state history older := by
      simp [hsplit, historyOf]
    rw [hwhole] at hcareful
    exact hrun.snapshots hsplit hcareful.older
  · exact (hrun.state hcareful).closed.toFreeToReset.closed

/-- A step, and two steps that build on it side by side. -/
def draftThenBoth : Workflow where
  title := none
  steps := [{ name := "draft" }, { name := "lint", dependsOn := ["draft"] },
    { name := "test", dependsOn := ["draft"] }]
  agent := some "codex"

/-- A fresh run of the three steps. -/
@[irreducible] def draftThenBothRun : WorkflowEngine × RunState :=
  (WorkflowEngine.new (fun _ => "") 0 none draftThenBoth {}).toOption.get (by decide +kernel)

theorem draftThenBothRun_started : StartedFrom none draftThenBothRun.1 draftThenBothRun.2 := by
  have hnew : WorkflowEngine.new (fun _ => "") 0 none draftThenBoth {} =
      .ok (draftThenBothRun.1, draftThenBothRun.2) := by
    rw [draftThenBothRun]
    exact Checks.toOption_get (by decide +kernel)
  exact .new rfl hnew

/-- The first step succeeds, the two that follow run together, and the user sends the last to fail
back. -/
def sentBack (testEnds : List Answer) : List Answer :=
  .token false :: stepStarts ++ stepSucceeds ++ [.board (.ok .launchNext), .token false] ++
    stepStarts ++ stepStarts ++ testEnds ++
    [.group 0 (.exited ⟨"lint", 0, 1⟩ (.ok 1)), .token false, .token false,
      .authRecovered (.ok false), .saved (.ok ()), .token false] ++
    [.token false, .board (.ok .cancelToPreviousStep), .saved (.ok ())]

/-- The other step has failed too. -/
def testFailed : List Answer :=
  [.group 0 (.exited ⟨"test", 1, 2⟩ (.ok 1)), .token false, .token false,
    .authRecovered (.ok false), .saved (.ok ()), .token false]

/-- The other step has succeeded. -/
def testSucceeded : List Answer :=
  [.group 0 (.exited ⟨"test", 1, 2⟩ (.ok 0)), .token false, .saved (.ok ()), .token false]

theorem testFailed_careful :
    Careful (historyOf draftThenBothRun.1 draftThenBothRun.2.state []
      (draftThenBothRun.1.runToCompletion
        ⟨sentBack testFailed, draftThenBothRun.2⟩).2.state.log) := by
  decide +kernel

theorem Invocation.dependencyClosed_testFailed :
    DependencyClosed draftThenBothRun.1.dag
      (draftThenBothRun.1.runToCompletion
        ⟨sentBack testFailed, draftThenBothRun.2⟩).2.state.state.completedSteps :=
  (Invocation.start.dependencyClosed .kept draftThenBothRun_started (sentBack testFailed)
    testFailed_careful).2.2.2

/-- The run state when the other step had succeeded. -/
def lintSentBackRun : RunState :=
  (draftThenBothRun.1.runToCompletion ⟨sentBack testSucceeded, draftThenBothRun.2⟩).2.state

/-- The sibling that succeeded stays completed although the step it builds on runs again, and so
the state file says. -/
theorem lintSentBack_not_closed :
    StartedFrom none draftThenBothRun.1 draftThenBothRun.2 ∧
    (lastSaved none lintSentBackRun.log).map (·.completedSteps) =
      some lintSentBackRun.state.completedSteps ∧
    "test" ∈ lintSentBackRun.state.completedSteps ∧
    "draft" ∈ draftThenBothRun.1.dag.dependsOn "test" ∧
    "draft" ∉ lintSentBackRun.state.completedSteps ∧
    ¬ DependencyClosed draftThenBothRun.1.dag lintSentBackRun.state.completedSteps := by
  have htest : "test" ∈ lintSentBackRun.state.completedSteps := by decide +kernel
  have hdepends : "draft" ∈ draftThenBothRun.1.dag.dependsOn "test" := by decide +kernel
  have hdraft : "draft" ∉ lintSentBackRun.state.completedSteps := by decide +kernel
  refine ⟨draftThenBothRun_started, ?_, htest, hdepends, hdraft, fun hclosed => ?_⟩
  · decide +kernel
  · exact hdraft (hclosed "test" htest "draft" hdepends)

end Invocations

end Awman.Engine
