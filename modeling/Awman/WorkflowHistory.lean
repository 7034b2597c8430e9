import Awman.WorkflowGroupOperations
import Awman.WorkflowRuns
import Mathlib.Algebra.Group.Nat.Defs

/-!
# The runs of one invocation

An invocation is run, stopped or cut off at any point, perhaps rewound by the command that starts
it again, and resumed from what the state file holds.  The history lists what all its runs did.
Each launch counts the step's launches in the state, writes the state, and only then calls the
container factory, so a resumed run counts on from the last launch, unless the step was forgotten
in between.
-/

namespace Awman.Engine

open Awman.Interaction WorkflowState

/-- What happened to an invocation. -/
inductive HistoryEvent where
  | started (engine : WorkflowEngine) (state : WorkflowState)
  /-- The running engine did something. -/
  | ran (event : RunEvent)

/-- What the state file holds after some events, latest first, if it held `stored` before them. -/
def lastSaved (stored : Option WorkflowState) : List RunEvent → Option WorkflowState
  | [] => stored
  | .persisted state :: _ => some state
  | _ :: older => lastSaved stored older

/-- How an engine starts from what the state file holds. -/
inductive StartedFrom (loaded : Option WorkflowState) : WorkflowEngine → RunState → Prop where
  /-- Afresh, if there is no file. -/
  | new {computeWorkflowHash : Workflow → String} {invocationId : Nat} {workItem : Option Nat}
      {workflow : Workflow} {settings : EngineSettings} {engine : WorkflowEngine} {run : RunState}
      (hnone : loaded = none)
      (h : WorkflowEngine.new computeWorkflowHash invocationId workItem workflow settings
        = .ok (engine, run)) : StartedFrom loaded engine run
  | resume {computeWorkflowHash : Workflow → String} {invocationId : Nat} {workItem : Option Nat}
      {workflow : Workflow} {settings : EngineSettings}
      {confirmResume : ResumeMismatch → Except EngineError Bool} {engine : WorkflowEngine}
      {run : RunState}
      (h : WorkflowEngine.resume computeWorkflowHash invocationId workItem workflow settings
        (.ok loaded) confirmResume = .ok (engine, run)) : StartedFrom loaded engine run

/-- What the command that starts an engine leaves in the state file: what it held, or that state
rewound to a step. -/
inductive Prepared (dag : WorkflowDag) (stored : Option WorkflowState) :
    Option WorkflowState → Prop where
  /-- The file is left alone. -/
  | kept : Prepared dag stored stored
  /-- The saved run is to go on from a step. -/
  | rewound {saved : WorkflowState} (start : String) (h : stored = some saved) :
      Prepared dag stored (some (saved.rewindTo dag start))

/-- What an invocation can have done, latest first, with what the state file then holds. -/
inductive Invocation : Option WorkflowState → List HistoryEvent → Prop where
  /-- Nothing has run. -/
  | start : Invocation none []
  /-- An engine started and ran until it stopped or was cut off. -/
  | run {stored loaded : Option WorkflowState} {history : List HistoryEvent}
      {engine : WorkflowEngine} {before : RunState} (h : Invocation stored history)
      (hprepared : Prepared engine.dag stored loaded) (hstart : StartedFrom loaded engine before)
      (answers : List Answer) {later earlier : List RunEvent}
      (hcut : (engine.runToCompletion ⟨answers, before⟩).2.state.log = later ++ earlier) :
      Invocation (lastSaved loaded earlier)
        (earlier.map .ran ++ .started engine before.state :: history)
  /-- A setup or teardown phase wrote the file; it leaves what is recorded of the main steps. -/
  | phase {saved after : WorkflowState} {history : List HistoryEvent}
      (h : Invocation (some saved) history) (hstates : after.stepStates = saved.stepStates)
      (hcompleted : after.completedSteps = saved.completedSteps)
      (hsteps : after.steps = saved.steps) (hattempts : after.stepAttempts = saved.stepAttempts) :
      Invocation (some after) history

/-- How often the state says that a step was launched. -/
def WorkflowState.attempts (state : WorkflowState) (name : String) : Nat :=
  (state.stepAttempt name).getD 0

/-- The numbers of a step's launches, latest first, since it was last forgotten: a run whose
definition lacks the step drops what is recorded of it. -/
def attemptsOf (name : String) : List HistoryEvent → List Nat
  | [] => []
  | .started engine _ :: older => if name ∈ engine.dag.order then attemptsOf name older else []
  | .ran (.launched stepName attempt) :: older =>
    if stepName = name then attempt :: attemptsOf name older else attemptsOf name older
  | .ran _ :: older => attemptsOf name older

/-- Every run since began with a definition of the step. -/
def StaysDefined (name : String) (history : List HistoryEvent) : Prop :=
  ∀ engine state, .started engine state ∈ history → name ∈ engine.dag.order

/-- The launches of each step were numbered upwards. -/
def Numbered (history : List HistoryEvent) : Prop :=
  ∀ name, (attemptsOf name history).Pairwise (· > ·)

/-- No launch has a number above what the state counts. -/
def Counted (attempts : String → Nat) (history : List HistoryEvent) : Prop :=
  ∀ name, ∀ attempt ∈ attemptsOf name history, attempt ≤ attempts name

/-- How often a state file says that a step was launched. -/
def storedAttempts (stored : Option WorkflowState) (name : String) : Nat :=
  (stored.map (·.attempts name)).getD 0

section Counters

variable {state : WorkflowState} {name other : String}

@[simp]

theorem attempts_setStatuses {names : List String} {status : StepState} :
    (state.setStatuses names status).attempts other = state.attempts other := by
  induction names generalizing state with
  | nil => rfl
  | cons first rest ih =>
    have hrest : ((state.setStatus first status).setStatuses rest status).attempts other =
        (state.setStatus first status).attempts other := ih
    exact hrest

/-- A launch raises its own counter by one. -/
theorem attempts_recordStepLaunch_self :
    (state.recordStepLaunch name).1.attempts name = state.attempts name + 1 := by
  simp [recordStepLaunch, attempts, stepAttempt]

/-- A launch leaves the other counters alone. -/
theorem attempts_recordStepLaunch_ne (hne : other ≠ name) :
    (state.recordStepLaunch name).1.attempts other = state.attempts other := by
  simp [recordStepLaunch, attempts, stepAttempt, AList.lookup_insert_ne hne]

theorem attempts_le_recordStepLaunch :
    state.attempts other ≤ (state.recordStepLaunch name).1.attempts other := by
  by_cases heq : other = name
  · subst heq
    rw [attempts_recordStepLaunch_self]
    omega
  · rw [attempts_recordStepLaunch_ne heq]

theorem recordStepLaunch_snd : (state.recordStepLaunch name).2 = state.attempts name + 1 :=
  rfl

/-- Going back keeps every counter. -/
theorem attempts_rewindTo {dag : WorkflowDag} {start : String} :
    (state.rewindTo dag start).attempts other = state.attempts other := by
  unfold rewindTo
  dsimp only
  split
  · generalize dag.topologicalOrder.zipIdx = entries
    induction entries generalizing state with
    | nil => rfl
    | cons first rest ih =>
      rw [List.foldl_cons, ih]
      split
      · rfl
      · split <;> rfl
  · rfl

theorem attempts_dropStep_ne (hne : other ≠ name) :
    (state.dropStep name).attempts other = state.attempts other := by
  simp [dropStep, attempts, stepAttempt, AList.lookup_erase_ne hne]

/-- Pruning keeps the count of the steps the graph defines. -/
theorem attempts_retainStepsIn {dag : WorkflowDag} (hname : name ∈ dag.order) :
    (state.retainStepsIn dag).1.attempts name = state.attempts name := by
  suffices hpruned : ∀ (names : List String) (before : WorkflowState), name ∉ names →
      (names.foldl dropStep before).attempts name = before.attempts name by
    refine hpruned (state.retainStepsIn dag).2 state ?_
    simp [retainStepsIn, WorkflowDag.mem_topologicalOrder, hname]
  intro names
  induction names with
  | nil => exact fun _ _ => rfl
  | cons first rest ih =>
    intro before hmem
    rw [List.foldl_cons, ih _ fun hrest => hmem (List.mem_cons_of_mem first hrest)]
    exact attempts_dropStep_ne fun heq => hmem (heq ▸ List.mem_cons_self)

theorem attempts_addMissing : (state.addMissing name).attempts other = state.attempts other := by
  unfold addMissing
  split <;> rfl

/-- Fitting a saved state to a definition keeps the count of the steps it defines. -/
theorem attempts_resumeState {dag : WorkflowDag} {steps : List WorkflowStep} (hname : name ∈ dag.order) :
    (resumeState dag steps state).attempts name = state.attempts name := by
  have hfilled : ∀ (infos : List WorkflowStepInfo) (before : WorkflowState),
      (infos.foldl (fun state info => state.addMissing info.name) before).attempts name =
        before.attempts name := by
    intro infos
    induction infos with
    | nil => exact fun _ => rfl
    | cons first rest ih =>
      intro before
      rw [List.foldl_cons, ih, attempts_addMissing]
  unfold resumeState
  dsimp only
  rw [attempts_setStatuses, attempts_setStatuses, hfilled]
  exact attempts_retainStepsIn hname

end Counters

section Numbering

variable {engine : WorkflowEngine} {loaded : Option WorkflowState} {begun : WorkflowState}
  {past : List HistoryEvent} {run : RunState} {name : String}

/-- The history once an engine that started in the state `begun` has done what is logged. -/
def historyOf (engine : WorkflowEngine) (begun : WorkflowState) (past : List HistoryEvent)
    (log : List RunEvent) : List HistoryEvent :=
  log.map .ran ++ .started engine begun :: past

/-- Wherever a run is cut off, its launches are numbered upwards and the state file counts them
all; so does the state of the run. -/
structure NumberedRun (engine : WorkflowEngine) (loaded : Option WorkflowState)
    (begun : WorkflowState) (past : List HistoryEvent) (run : RunState) : Prop where
  /-- The launches are numbered upwards wherever the run is cut off. -/
  numbered : ∀ {later earlier}, run.log = later ++ earlier →
    Numbered (historyOf engine begun past earlier)
  /-- The state file counts every launch. -/
  stored : ∀ {later earlier}, run.log = later ++ earlier →
    Counted (storedAttempts (lastSaved loaded earlier)) (historyOf engine begun past earlier)
  counted : Counted run.state.attempts (historyOf engine begun past run.log)

variable {event : RunEvent}

/-- Only a launch adds an attempt. -/
theorem attemptsOf_ran {older : List HistoryEvent}
    (hevent : ∀ stepName attempt, event ≠ .launched stepName attempt) :
    attemptsOf name (.ran event :: older) = attemptsOf name older := by
  cases event with
  | launched stepName attempt => exact absurd rfl (hevent stepName attempt)
  | persisted | boardAnswered | exitHandled | stuckHandled => rfl

theorem Counted.mono {attempts more : String → Nat} {history : List HistoryEvent}
    (h : Counted attempts history) (hmore : ∀ name, attempts name ≤ more name) :
    Counted more history := by
  intro name attempt hattempt
  have hold := h name attempt hattempt
  have hle := hmore name
  omega

/-- What neither launches nor lowers a counter keeps it. -/
theorem NumberedRun.frame {after : RunState} (h : NumberedRun engine loaded begun past run)
    (hattempts : ∀ name, run.state.attempts name ≤ after.state.attempts name)
    (hlog : after.log = run.log) : NumberedRun engine loaded begun past after := by
  constructor
  · intro later earlier hcut
    rw [hlog] at hcut
    exact h.numbered hcut
  · intro later earlier hcut
    rw [hlog] at hcut
    exact h.stored hcut
  · rw [hlog]
    exact h.counted.mono hattempts

/-- A new event extends what was shown of the earlier ones. -/
theorem NumberedRun.cons {after : RunState}
    (h : NumberedRun engine loaded begun past run) (hlog : after.log = event :: run.log)
    (hnumbered : Numbered (historyOf engine begun past after.log))
    (hstored : Counted (storedAttempts (lastSaved loaded after.log))
      (historyOf engine begun past after.log))
    (hcounted : Counted after.state.attempts (historyOf engine begun past after.log)) :
    NumberedRun engine loaded begun past after := by
  constructor
  · intro later earlier hcut
    cases later with
    | nil =>
      rw [List.nil_append] at hcut
      exact hcut ▸ hnumbered
    | cons first rest =>
      rw [hlog] at hcut
      exact h.numbered (List.cons.inj hcut).2
  · intro later earlier hcut
    cases later with
    | nil =>
      rw [List.nil_append] at hcut
      exact hcut ▸ hstored
    | cons first rest =>
      rw [hlog] at hcut
      exact h.stored (List.cons.inj hcut).2
  · exact hcounted

/-- What was shown of the history goes over to one with the same launches. -/
theorem NumberedRun.whole (h : NumberedRun engine loaded begun past run) :
    Numbered (historyOf engine begun past run.log) ∧
      Counted (storedAttempts (lastSaved loaded run.log))
        (historyOf engine begun past run.log) := by
  have hlog : run.log = [] ++ run.log := rfl
  exact ⟨h.numbered hlog, h.stored hlog⟩

theorem numbered_ran {older : List HistoryEvent}
    (hevent : ∀ stepName attempt, event ≠ .launched stepName attempt) (h : Numbered older) :
    Numbered (.ran event :: older) := by
  intro name
  rw [attemptsOf_ran hevent]
  exact h name

theorem counted_ran {older : List HistoryEvent} {attempts : String → Nat}
    (hevent : ∀ stepName attempt, event ≠ .launched stepName attempt) (h : Counted attempts older) :
    Counted attempts (.ran event :: older) := by
  intro name
  rw [attemptsOf_ran hevent]
  exact h name

theorem NumberedRun.persisted (h : NumberedRun engine loaded begun past run) :
    NumberedRun engine loaded begun past { run with log := .persisted run.state :: run.log } := by
  have hevent : ∀ stepName attempt, RunEvent.persisted run.state ≠ .launched stepName attempt := by
    intro _ _ heq
    cases heq
  have hcounted := counted_ran hevent h.counted
  exact h.cons rfl (numbered_ran hevent h.whole.1) hcounted hcounted

theorem NumberedRun.noted (h : NumberedRun engine loaded begun past run) (hevent : event.isNote = true) :
    NumberedRun engine loaded begun past { run with log := event :: run.log } := by
  have hlaunch : ∀ stepName attempt, event ≠ .launched stepName attempt := by
    rintro _ _ rfl
    cases hevent
  have hsaved : lastSaved loaded (event :: run.log) = lastSaved loaded run.log := by
    cases event with
    | persisted _ => cases hevent
    | launched | boardAnswered | exitHandled | stuckHandled => rfl
  refine h.cons rfl (numbered_ran hlaunch h.whole.1) ?_ (counted_ran hlaunch h.counted)
  show Counted (storedAttempts (lastSaved loaded (event :: run.log))) _
  rw [hsaved]
  exact counted_ran hlaunch h.whole.2

/-- A launch gets the next number, above every earlier one, and the state that was written just
before it counts it. -/
theorem NumberedRun.launched (h : NumberedRun engine loaded begun past run) (name : String) :
    let state := (run.state.recordStepLaunch name).1.setStatus name (.running none)
    NumberedRun engine loaded begun past { run with
      state := state
      log := .launched name (run.state.recordStepLaunch name).2 :: .persisted state :: run.log } := by
  intro state
  have hmore : ∀ other, run.state.attempts other ≤ state.attempts other :=
    fun other => attempts_le_recordStepLaunch
  have hself : state.attempts name = (run.state.recordStepLaunch name).2 :=
    attempts_recordStepLaunch_self
  have hset : NumberedRun engine loaded begun past { run with state := state } :=
    h.frame hmore rfl
  have hwritten := hset.persisted
  have hcounted : Counted state.attempts (historyOf engine begun past
      (.launched name (run.state.recordStepLaunch name).2 :: .persisted state :: run.log)) := by
    intro other attempt hattempt
    change attempt ∈ (if name = other then _ :: attemptsOf other _ else attemptsOf other _)
      at hattempt
    have hold := hwritten.counted other attempt
    by_cases heq : name = other
    · subst heq
      rw [if_pos rfl] at hattempt
      rcases List.mem_cons.mp hattempt with rfl | holder
      · omega
      · exact hold holder
    · rw [if_neg heq] at hattempt
      exact hold hattempt
  refine hwritten.cons rfl ?_ hcounted hcounted
  intro other
  change List.Pairwise (· > ·) (if name = other then _ :: attemptsOf other _ else attemptsOf other _)
  have hold := hwritten.whole.1 other
  by_cases heq : name = other
  · subst heq
    rw [if_pos rfl, List.pairwise_cons]
    refine ⟨?_, hold⟩
    intro attempt hattempt
    have hless : attempt ≤ run.state.attempts name := h.counted name attempt hattempt
    have hnext : (run.state.recordStepLaunch name).2 = run.state.attempts name + 1 :=
      recordStepLaunch_snd
    omega
  · rw [if_neg heq]
    exact hold

/-- Every operation of an engine keeps the launches numbered upwards. -/
def numberedRuns (engine : WorkflowEngine) (loaded : Option WorkflowState) (begun : WorkflowState)
    (past : List HistoryEvent) : RunInvariant engine where
  Holds _ _ _ run := NumberedRun engine loaded begun past run
  frame h hstate hlog := h.frame (fun _ => by rw [hstate]) hlog
  changing h := h
  opened _ h _ := h
  ended h := h
  closed h := h
  persisted h := h.persisted
  noted _ h hevent := h.noted hevent
  counted h _ := h.frame (fun _ => attempts_le_recordStepLaunch) rfl
  launched h _ := h.launched _
  contained _ _ h := h.frame (fun _ => le_rfl) rfl
  worked _ h _ := h.frame (fun _ => le_rfl) rfl
  retried _ h _ _ := h.frame (fun _ => le_rfl) rfl
  passedOver h _ _ _ _ := h.frame (fun _ => le_rfl) rfl
  sentBack _ h _ _ _ _ _ _ := h.frame (fun _ => le_rfl) rfl
  rewound h := h.frame (fun _ => attempts_setStatuses.ge) rfl
  cancelled h := h.frame (fun _ => attempts_setStatuses.ge) rfl
  finished h := h.frame (fun _ => attempts_setStatuses.ge) rfl
  stamped h := h.frame (fun _ => le_rfl) rfl

end Numbering

section Invocations

variable {engine : WorkflowEngine} {stored loaded : Option WorkflowState}
  {history : List HistoryEvent} {run : RunState} {name : String}

/-- An engine starts with an empty log, and either nothing was saved and nothing is completed, or
the saved state is fitted to the definition. -/
theorem StartedFrom.begins (h : StartedFrom loaded engine run) : run.log = [] ∧
    (loaded = none ∧ run.state.completedSteps = ∅ ∨
      ∃ saved, loaded = some saved ∧
        run.state = resumeState engine.dag engine.workflow.steps saved) := by
  cases h with
  | new hnone hnew =>
    unfold WorkflowEngine.new at hnew
    split at hnew
    · cases hnew
    · cases hnew
      exact ⟨rfl, Or.inl ⟨hnone, rfl⟩⟩
  | resume hresume =>
    obtain ⟨rfl, state, haccepted, rfl⟩ := resume_ok hresume
    refine ⟨rfl, ?_⟩
    unfold WorkflowEngine.stateToResume at haccepted
    split at haccepted
    · rename_i hloaded
      cases hloaded
    · rename_i hloaded
      cases hloaded
      cases haccepted
      refine Or.inl ⟨rfl, Finset.eq_empty_of_forall_notMem fun name hname => ?_⟩
      have hmem := (mem_completedSteps_resumeState (WorkflowDag.build_order engine.built)
        (.new _ _ _ _ _)).mp hname
      cases hmem.2
    · rename_i saved hloaded
      have hstate : saved = state := by
        split at haccepted
        · cases haccepted
        · split at haccepted
          · exact Except.ok.inj haccepted
          · split at haccepted
            · cases haccepted
            · cases haccepted
            · exact Except.ok.inj haccepted
      exact Or.inr ⟨saved, Except.ok.inj hloaded, by rw [hstate]; rfl⟩

/-- An engine counts on from the file for the steps it defines. -/
theorem StartedFrom.counts (h : StartedFrom loaded engine run) :
    ∀ name ∈ engine.dag.order, storedAttempts loaded name ≤ run.state.attempts name := by
  intro name hname
  rcases h.begins.2 with ⟨rfl, _⟩ | ⟨saved, rfl, hstate⟩
  · exact Nat.zero_le _
  · rw [hstate, attempts_resumeState hname]
    exact le_rfl

/-- Preparing to resume keeps the saved counters. -/
theorem Prepared.attempts {dag : WorkflowDag} (h : Prepared dag stored loaded) :
    storedAttempts loaded name = storedAttempts stored name := by
  cases h with
  | kept => rfl
  | rewound start hsaved =>
    subst hsaved
    exact attempts_rewindTo

theorem attemptsOf_started {begun : WorkflowState} :
    attemptsOf name (.started engine begun :: history) =
    if name ∈ engine.dag.order then attemptsOf name history else [] :=
  rfl

/-- However often an invocation was stopped and started again, its launches are numbered upwards
and the state file counts them all. -/
theorem Invocation.counts (h : Invocation stored history) :
    Numbered history ∧ Counted (storedAttempts stored) history := by
  induction h with
  | start =>
    constructor
    · intro name
      exact List.Pairwise.nil
    · intro name attempt hattempt
      cases hattempt
  | @run stored loaded past engine before _ hprepared hstart answers later earlier hcut ih =>
    have hlog := hstart.begins.1
    have hcounts := hstart.counts
    have hpast : ∀ name, ∀ attempt ∈ attemptsOf name (.started engine before.state :: past),
        name ∈ engine.dag.order ∧ attempt ≤ storedAttempts loaded name := by
      intro name attempt hattempt
      rw [attemptsOf_started] at hattempt
      split at hattempt
      · rename_i hname
        rw [hprepared.attempts]
        exact ⟨hname, ih.2 name attempt hattempt⟩
      · cases hattempt
    have hnumbered : Numbered (.started engine before.state :: past) := by
      intro name
      rw [attemptsOf_started]
      split
      · exact ih.1 name
      · exact List.Pairwise.nil
    have hnil : ∀ {later earlier : List RunEvent}, before.log = later ++ earlier →
        earlier = [] := by
      intro later earlier hsplit
      rw [hlog] at hsplit
      exact (List.append_eq_nil_iff.mp hsplit.symm).2
    have hbegin : NumberedRun engine loaded before.state past before := by
      constructor
      · intro later earlier hsplit
        rw [hnil hsplit]
        exact hnumbered
      · intro later earlier hsplit
        rw [hnil hsplit]
        exact fun name attempt hattempt => (hpast name attempt hattempt).2
      · rw [hlog]
        intro name attempt hattempt
        obtain ⟨hname, hle⟩ := hpast name attempt hattempt
        exact hle.trans (hcounts name hname)
    obtain ⟨_, _, _, hend⟩ :=
      runToCompletion_reaches (numberedRuns engine loaded before.state past) hbegin answers
    exact ⟨hend.numbered hcut, hend.stored hcut⟩
  | @phase saved after _ _ _ _ _ hattempts ih =>
    refine ⟨ih.1, ?_⟩
    have hsame : storedAttempts (some after) = storedAttempts (some saved) := by
      funext name
      simp [storedAttempts, WorkflowState.attempts, stepAttempt, hattempts]
    rw [hsame]
    exact ih.2

/-- Every earlier part of a history is a history. -/
theorem Invocation.earlier {newer older : List HistoryEvent} (h : Invocation stored (newer ++ older)) :
    ∃ held, Invocation held older := by
  generalize hwhole : newer ++ older = whole at h
  induction h generalizing newer with
  | start =>
    obtain ⟨_, rfl⟩ := List.append_eq_nil_iff.mp hwhole
    exact ⟨none, .start⟩
  | @run stored loaded past engine before hpast hprepared hstart answers later earlier hcut ih =>
    rcases List.append_eq_append_iff.mp hwhole with ⟨kept, hkept, holder⟩ | ⟨kept, hkept, hrest⟩
    · obtain ⟨last, first, hearlier, _, rfl⟩ := List.map_eq_append_iff.mp hkept
      rw [hearlier, ← List.append_assoc] at hcut
      rw [holder]
      exact ⟨_, .run hpast hprepared hstart answers hcut⟩
    · cases kept with
      | nil =>
        rw [List.nil_append] at hrest
        rw [← hrest]
        exact ⟨_, .run hpast hprepared hstart answers (List.append_nil _).symm⟩
      | cons first rest =>
        exact ih (List.cons.inj hrest).2.symm
  | phase _ _ _ _ _ ih => exact ih hwhole

/-- A launch of a step still defined is among its attempts. -/
theorem mem_attemptsOf {between older : List HistoryEvent} {attempt : Nat}
    (hdefined : StaysDefined name between) :
    attempt ∈ attemptsOf name (between ++ .ran (.launched name attempt) :: older) := by
  induction between with
  | nil => simp [attemptsOf]
  | cons event rest ih =>
    have hrest := ih fun engine begun hmem =>
      hdefined engine begun (List.mem_cons_of_mem event hmem)
    cases event with
    | started engine begun =>
      rw [List.cons_append, attemptsOf_started,
        if_pos (hdefined engine begun List.mem_cons_self)]
      exact hrest
    | ran event =>
      rw [List.cons_append]
      cases event with
      | launched stepName other =>
        by_cases heq : stepName = name
        · simp [attemptsOf, heq, hrest]
        · simp [attemptsOf, heq, hrest]
      | persisted | boardAnswered | exitHandled | stuckHandled => exact hrest

/-- Over the whole history of an invocation, a launch of a step has a higher number than every
earlier launch of it, if every run that began in between was one of a definition with the step.
The second part says the same of the 32-bit counter while it does not overflow. -/
theorem Invocation.attempts_increase {newer between older : List HistoryEvent} {first second : Nat}
    (h : Invocation stored history)
    (hsplit : history = newer ++ .ran (.launched name second) :: between ++
      .ran (.launched name first) :: older)
    (hdefined : StaysDefined name between) :
    first < second ∧ (second < 2 ^ 32 → UInt32.ofNat first < UInt32.ofNat second) := by
  rw [hsplit, List.append_assoc, List.cons_append] at h
  obtain ⟨held, hearlier⟩ := h.earlier
  have hnumbered := hearlier.counts.1 name
  have hfirst : attemptsOf name (.ran (.launched name second) :: (between ++
      .ran (.launched name first) :: older)) = second :: attemptsOf name (between ++
        .ran (.launched name first) :: older) := by
    simp [attemptsOf]
  rw [hfirst, List.pairwise_cons] at hnumbered
  have hless : first < second := hnumbered.1 first (mem_attemptsOf hdefined)
  refine ⟨hless, fun hfits => ?_⟩
  have hsecond : (UInt32.ofNat second).toNat = second := UInt32.toNat_ofNat_of_lt' hfits
  have hfirst : (UInt32.ofNat first).toNat = first := UInt32.toNat_ofNat_of_lt' (hless.trans hfits)
  rw [UInt32.lt_iff_toNat_lt, hfirst, hsecond]
  exact hless

/-- A run of an engine: the engine, the state it started in, and what it did. -/
structure RanOnce where
  engine : WorkflowEngine
  begun : WorkflowState
  /-- What it did, latest first. -/
  log : List RunEvent

/-- Resume a workflow, accepting a changed definition, and run it on some answers. -/
def resumeAndRun (workflow : Workflow) (settings : EngineSettings) (answers : List Answer)
    (loaded : Option WorkflowState) : Option RanOnce :=
  ((WorkflowEngine.resume (fun _ => "") 0 none workflow settings (.ok loaded) fun _ =>
    .ok true).toOption).map fun started =>
      ⟨started.1, started.2.state, (started.1.runToCompletion ⟨answers, started.2⟩).2.state.log⟩

theorem Invocation.resumeAndRun {workflow : Workflow} {settings : EngineSettings} {answers : List Answer}
    {ran : RanOnce} (h : Invocation stored history)
    (hran : Engine.resumeAndRun workflow settings answers stored = some ran) :
    Invocation (lastSaved stored ran.log) (historyOf ran.engine ran.begun history ran.log) := by
  obtain ⟨started, hstarted, rfl⟩ := Option.map_eq_some_iff.mp hran
  have hcut : (started.1.runToCompletion ⟨answers, started.2⟩).2.state.log =
      [] ++ (started.1.runToCompletion ⟨answers, started.2⟩).2.state.log := rfl
  exact .run h .kept (.resume (Checks.ok_of_toOption hstarted)) answers hcut

/-- The engine is cut off as soon as the container factory was called for its first step. -/
def cutOffAtLaunch : List Answer :=
  [.token false, .saved (.ok ())]

/-- A first run of the two steps, cut off at its first launch. -/
def firstDraftRun : RanOnce :=
  (resumeAndRun draftThenReview {} cutOffAtLaunch none).get (by decide +kernel)

/-- The run is resumed and cut off at its first launch again. -/
def secondDraftRun : RanOnce :=
  (resumeAndRun draftThenReview {} cutOffAtLaunch (lastSaved none firstDraftRun.log)).get
    (by decide +kernel)

/-- The history of the first run. -/
abbrev firstDraftHistory : List HistoryEvent :=
  historyOf firstDraftRun.engine firstDraftRun.begun [] firstDraftRun.log

theorem firstDraftRun_invocation :
    Invocation (lastSaved none firstDraftRun.log) firstDraftHistory :=
  Invocation.start.resumeAndRun (Option.some_get _).symm

theorem firstDraftRun_log : ∃ log, firstDraftRun.log = .launched "draft" 1 :: log := by
  have hhead : firstDraftRun.log.head? = some (.launched "draft" 1) := by decide +kernel
  exact ⟨_, List.eq_cons_of_mem_head? hhead⟩

theorem Invocation.attempts_increase_draft : ∃ stored newer between older,
    Invocation stored (newer ++ .ran (.launched "draft" 2) :: between ++
      .ran (.launched "draft" 1) :: older) ∧
    1 < 2 ∧ (2 < 2 ^ 32 → UInt32.ofNat 1 < UInt32.ofNat 2) := by
  obtain ⟨firstLog, hfirst⟩ := firstDraftRun_log
  obtain ⟨secondLog, hsecond⟩ : ∃ log, secondDraftRun.log = .launched "draft" 2 :: log := by
    have hhead : secondDraftRun.log.head? = some (.launched "draft" 2) := by decide +kernel
    exact ⟨_, List.eq_cons_of_mem_head? hhead⟩
  have hruns : Invocation (lastSaved (lastSaved none firstDraftRun.log) secondDraftRun.log) _ :=
    firstDraftRun_invocation.resumeAndRun (Option.some_get _).symm
  have hsplit : historyOf secondDraftRun.engine secondDraftRun.begun firstDraftHistory
      secondDraftRun.log = [] ++ .ran (.launched "draft" 2) :: (secondLog.map .ran ++
          [.started secondDraftRun.engine secondDraftRun.begun]) ++
          .ran (.launched "draft" 1) :: (firstLog.map .ran ++
            [.started firstDraftRun.engine firstDraftRun.begun]) := by
    simp [historyOf, hfirst, hsecond]
  have hdefined : StaysDefined "draft" (secondLog.map .ran ++
      [.started secondDraftRun.engine secondDraftRun.begun]) := by
    intro engine begun hmem
    obtain ⟨rfl, _⟩ : engine = secondDraftRun.engine ∧ begun = secondDraftRun.begun := by
      simpa using hmem
    decide +kernel
  have hincrease := hruns.attempts_increase hsplit hdefined
  rw [hsplit] at hruns
  exact ⟨_, _, _, _, hruns, hincrease⟩

/-- A definition without the step. -/
def checkOnly : Workflow where
  title := none
  steps := [{ name := "check" }]
  agent := some "codex"

/-- After the first run, the definition is replaced by one without the step and the run is
resumed. -/
def checkRun : RanOnce :=
  (resumeAndRun checkOnly {} cutOffAtLaunch (lastSaved none firstDraftRun.log)).get
    (by decide +kernel)

/-- The definition is put back and the run is resumed once more. -/
def restoredDraftRun : RanOnce :=
  (resumeAndRun draftThenReview {} cutOffAtLaunch
    (lastSaved (lastSaved none firstDraftRun.log) checkRun.log)).get (by decide +kernel)

/-- A step that was taken out of the definition and put back is launched with the number it had
before. -/
theorem attempts_repeat_after_drift :
    ¬ ∀ (stored : Option WorkflowState) (newer between older : List HistoryEvent) (name : String)
      (first second : Nat),
      Invocation stored (newer ++ .ran (.launched name second) :: between ++
        .ran (.launched name first) :: older) → first < second := by
  intro hclaim
  obtain ⟨firstLog, hfirst⟩ := firstDraftRun_log
  obtain ⟨thirdLog, hthird⟩ : ∃ log, restoredDraftRun.log = .launched "draft" 1 :: log := by
    have hhead : restoredDraftRun.log.head? = some (.launched "draft" 1) := by decide +kernel
    exact ⟨_, List.eq_cons_of_mem_head? hhead⟩
  have hdropped : Invocation (lastSaved (lastSaved none firstDraftRun.log) checkRun.log) _ :=
    firstDraftRun_invocation.resumeAndRun (Option.some_get _).symm
  have hruns : Invocation (lastSaved (lastSaved (lastSaved none firstDraftRun.log) checkRun.log)
      restoredDraftRun.log) _ := hdropped.resumeAndRun (Option.some_get _).symm
  have hsplit : historyOf restoredDraftRun.engine restoredDraftRun.begun
      (historyOf checkRun.engine checkRun.begun firstDraftHistory checkRun.log)
      restoredDraftRun.log = [] ++ .ran (.launched "draft" 1) :: (thirdLog.map .ran ++
          .started restoredDraftRun.engine restoredDraftRun.begun ::
          (checkRun.log.map .ran ++ [.started checkRun.engine checkRun.begun])) ++
          .ran (.launched "draft" 1) :: (firstLog.map .ran ++
            [.started firstDraftRun.engine firstDraftRun.begun]) := by
    simp [historyOf, hfirst, hthird]
  rw [hsplit] at hruns
  have hless := hclaim _ _ _ _ "draft" 1 1 hruns
  omega

end Invocations

end Awman.Engine
