import Awman.WorkflowPhases

/-!
# What one phase step records

While a phase step runs, with its repairs, only its own status changes, and only its own commands are
started unless a fix is published again.  When it fails, it is recorded as failed.
-/

namespace Awman.Engine

open Awman.Interaction

variable {S : Type}

/-! ## Statuses -/

/-- The statuses of a phase's steps. -/
def WorkflowState.statuses (state : WorkflowState) (kind : PhaseKind) : List PhaseStepStatus :=
  (state.phaseStepStates kind).map PhaseStepState.status

/-- The first steps have ended. -/
def EndedBefore (statuses : List PhaseStepStatus) (count : Nat) : Prop :=
  ∀ index < count, ∀ status, statuses[index]? = some status → status.hasEnded = true

/-- The other steps are pending. -/
def PendingFrom (statuses : List PhaseStepStatus) (count : Nat) : Prop :=
  ∀ index, count ≤ index → ∀ status, statuses[index]? = some status → status = .pending

/-- A phase that stopped anywhere: at most one step is neither pending nor at its end. -/
def Interrupted (statuses : List PhaseStepStatus) : Prop :=
  ∃ count, EndedBefore statuses count ∧ PendingFrom statuses (count + 1)

section statuses

variable {statuses after : List PhaseStepStatus} {count other : Nat}

theorem EndedBefore.mono (h : EndedBefore statuses count) (hle : other ≤ count) :
    EndedBefore statuses other :=
  fun index hindex => h index (by omega)

theorem PendingFrom.mono (h : PendingFrom statuses count) (hle : count ≤ other) :
    PendingFrom statuses other :=
  fun index hindex => h index (by omega)

theorem PendingFrom.interrupted (h : PendingFrom statuses 0) : Interrupted statuses :=
  ⟨0, fun _ hindex => absurd hindex (Nat.not_lt_zero _), h.mono (Nat.zero_le 1)⟩

theorem EndedBefore.of_same (h : EndedBefore statuses count)
    (hsame : ∀ index < count, after[index]? = statuses[index]?) : EndedBefore after count := by
  intro index hindex status hstatus
  rw [hsame index hindex] at hstatus
  exact h index hindex status hstatus

theorem PendingFrom.of_same (h : PendingFrom statuses count)
    (hsame : ∀ index, count ≤ index → after[index]? = statuses[index]?) : PendingFrom after count := by
  intro index hindex status hstatus
  rw [hsame index hindex] at hstatus
  exact h index hindex status hstatus

theorem EndedBefore.succ (h : EndedBefore statuses count)
    (hlast : ∀ status, statuses[count]? = some status → status.hasEnded = true) :
    EndedBefore statuses (count + 1) := by
  intro index hindex status hstatus
  rcases Nat.lt_succ_iff_lt_or_eq.mp hindex with hearlier | rfl
  · exact h index hearlier status hstatus
  · exact hlast status hstatus

end statuses

namespace WorkflowState

variable {state : WorkflowState} {kind : PhaseKind}

section

variable (state : WorkflowState) (kind : PhaseKind)

theorem phaseStepStates_set (states : List PhaseStepState) :
    (state.setPhaseStepStates kind states).phaseStepStates kind = states := by
  cases kind with
  | setup | teardown => rfl

theorem setupCompleted_set (states : List PhaseStepState) :
    (state.setPhaseStepStates kind states).setupCompleted = state.setupCompleted := by
  cases kind with
  | setup | teardown => rfl

/-- A status is recorded for one step. -/
theorem statuses_setPhaseStepStatus (idx : Nat) (status : PhaseStepStatus) :
    (state.setPhaseStepStatus kind idx status).statuses kind =
      (state.statuses kind).modify idx fun _ => status := by
  rw [statuses, setPhaseStepStatus, phaseStepStates_set, statuses]
  refine List.ext_getElem? fun index => ?_
  rw [List.getElem?_map, List.getElem?_modify, List.getElem?_modify, List.getElem?_map]
  cases (state.phaseStepStates kind)[index]? with
  | none => rfl
  | some record =>
    by_cases hindex : idx = index
    · simp [hindex]
    · simp [hindex]

theorem statuses_leavePhase (outcome : PhaseOutcome) :
    (state.leavePhase kind outcome).statuses kind = state.statuses kind := by
  unfold leavePhase
  split
  · cases kind with
    | setup | teardown => rfl
  · rfl

end

variable [PhaseStepSpec S]

section

variable (state : WorkflowState) (kind : PhaseKind) (steps : List S)

/-- A phase whose steps are declared keeps the statuses if it has as many steps as before; otherwise every
step is pending. -/
theorem statuses_refreshPhaseStates :
    (state.refreshPhaseStates kind steps).statuses kind =
      if (state.statuses kind).length = steps.length then state.statuses kind
      else List.replicate steps.length .pending := by
  unfold refreshPhaseStates statuses
  rw [List.length_map]
  dsimp only
  split
  case isTrue hcount =>
      rw [phaseStepStates_set, List.map_zipWith]
      refine List.ext_getElem (by simp [hcount]) ?_
      intro index hleft hright
      simp
  case isFalse =>
      rw [phaseStepStates_set, List.map_map]
      exact List.map_const

/-- Entering a phase keeps its statuses or resets all. -/
theorem statuses_enterPhase (resume : Bool) :
    (state.enterPhase kind steps resume).statuses kind =
      if resume = true ∧ (state.statuses kind).length = steps.length then state.statuses kind
      else List.replicate steps.length .pending := by
  have hsame : ({ state with currentPhase := kind.workflowPhase } : WorkflowState).statuses kind =
      state.statuses kind := by
    cases kind with
    | setup | teardown => rfl
  have hrefreshed := statuses_refreshPhaseStates
    { state with currentPhase := kind.workflowPhase } kind steps
  rw [hsame] at hrefreshed
  unfold enterPhase
  dsimp only
  cases resume with
  | true =>
    rw [if_pos rfl, hrefreshed]
    simp
  | false =>
    rw [if_neg (by simp), resetOrRebuildPhaseStates, statuses, phaseStepStates_set, List.map_map]
    have hlength := congrArg List.length hrefreshed
    rw [statuses, List.length_map] at hlength
    refine List.map_const.trans ?_
    have hno : ¬(false = true ∧ (state.statuses kind).length = steps.length) := by simp
    rw [hlength, if_neg hno]
    split
    case isTrue hcount => rw [hcount]
    case isFalse => rw [List.length_replicate]

theorem setupCompleted_enterPhase (resume : Bool) :
    (state.enterPhase kind steps resume).setupCompleted = state.setupCompleted := by
  have hrefreshed : ∀ entered : WorkflowState,
      (entered.refreshPhaseStates kind steps).setupCompleted = entered.setupCompleted := by
    intro entered
    unfold refreshPhaseStates
    dsimp only
    split
    · exact setupCompleted_set _ _ _
    · exact setupCompleted_set _ _ _
  unfold enterPhase
  dsimp only
  split
  · exact hrefreshed _
  · rw [resetOrRebuildPhaseStates, setupCompleted_set]
    exact hrefreshed _

end

end WorkflowState

/-! ## One step -/

namespace PhaseRun

/-- The statuses of a phase's steps. -/
def statuses (run : PhaseRun S) (kind : PhaseKind) : List PhaseStepStatus := run.state.statuses kind

/-- Only the status of one step may have changed, and only its commands were started, unless others come
with its repair. -/
structure Touches (kind : PhaseKind) (idx : Nat) (repairs : Prop) (before after : PhaseRun S) :
    Prop where
  /-- There are as many steps. -/
  count : (after.statuses kind).length = (before.statuses kind).length
  /-- The other steps. -/
  others : ∀ index, index ≠ idx → (after.statuses kind)[index]? = (before.statuses kind)[index]?
  setup : after.state.setupCompleted = before.state.setupCompleted
  started : ∀ command ∈ after.started, command ∈ before.started ∨ command.index = idx ∨ repairs
  /-- A token that fired has fired. -/
  cancels : before.cancelRequested = true → after.cancelRequested = true

/-- Only the token may have fired. -/
structure Quiet (before after : PhaseRun S) : Prop where
  state : after.state = before.state
  started : after.started = before.started
  /-- A token that fired has fired. -/
  cancels : before.cancelRequested = true → after.cancelRequested = true

/-- The step is recorded as failed. -/
def FailedAt (run : PhaseRun S) (kind : PhaseKind) (idx : Nat) : Prop :=
  ∀ status, (run.statuses kind)[idx]? = some status → ∃ error, status = .failed error

variable {kind : PhaseKind} {idx : Nat} {repairs : Prop} {before after : PhaseRun S}

instance : Std.Refl (Quiet (S := S)) := ⟨fun _ => ⟨rfl, rfl, id⟩⟩

theorem Quiet.trans {first second third : PhaseRun S} (hfirst : Quiet first second)
    (hsecond : Quiet second third) : Quiet first third :=
  ⟨hsecond.state.trans hfirst.state, hsecond.started.trans hfirst.started,
    fun hcancelled => hsecond.cancels (hfirst.cancels hcancelled)⟩

instance : IsTrans (PhaseRun S) Quiet := ⟨fun _ _ _ hfirst hsecond => hfirst.trans hsecond⟩

instance : Std.Refl (Touches (S := S) kind idx repairs) :=
  ⟨fun _ => ⟨rfl, fun _ _ => rfl, rfl, fun _ hcommand => Or.inl hcommand, id⟩⟩

theorem Touches.trans {first second third : PhaseRun S} (hfirst : Touches kind idx repairs first second)
    (hsecond : Touches kind idx repairs second third) : Touches kind idx repairs first third := by
  refine ⟨hsecond.count.trans hfirst.count, ?_, hsecond.setup.trans hfirst.setup, ?_, ?_⟩
  · intro index hindex
    exact (hsecond.others index hindex).trans (hfirst.others index hindex)
  · intro command hcommand
    rcases hsecond.started command hcommand with hmiddle | hnew
    · exact hfirst.started command hmiddle
    · exact Or.inr hnew
  · intro hcancelled
    exact hsecond.cancels (hfirst.cancels hcancelled)

instance : IsTrans (PhaseRun S) (Touches kind idx repairs) :=
  ⟨fun _ _ _ hfirst hsecond => hfirst.trans hsecond⟩

theorem Quiet.statuses (h : Quiet before after) : after.statuses kind = before.statuses kind := by
  rw [PhaseRun.statuses, h.state]
  rfl

theorem Quiet.touches (h : Quiet before after) : Touches kind idx repairs before after := by
  refine ⟨by rw [h.statuses], fun _ _ => by rw [h.statuses], by rw [h.state], ?_, h.cancels⟩
  intro command hcommand
  rw [h.started] at hcommand
  exact Or.inl hcommand

theorem FailedAt.quiet (h : before.FailedAt kind idx) (hquiet : Quiet before after) :
    after.FailedAt kind idx := by
  intro status hstatus
  rw [hquiet.statuses] at hstatus
  exact h status hstatus

/-- A step whose status was set has it. -/
theorem status_set {status other : PhaseStepStatus} (h : (statuses { before with
    state := before.state.setPhaseStepStatus kind idx status } kind)[idx]? = some other) :
    other = status := by
  rw [statuses, WorkflowState.statuses_setPhaseStepStatus, List.getElem?_modify_eq] at h
  obtain ⟨_, -, rfl⟩ := Option.map_eq_some_iff.mp h
  rfl

end PhaseRun

namespace PhaseEngine

open PhaseRun

variable {engine : PhaseEngine} {kind : PhaseKind} {idx : Nat} {repairs : Prop} {run : PhaseRun S}

variable {α : Type} {step : S}

/-- A question changes no record. -/
theorem quiet_ask {accept : PhaseReply → Option α} {moment : α → PhaseMoment S} :
    Relates Quiet (ask accept moment) := by
  refine .bind Relates.receive ?_
  rintro ⟨reply, cancels⟩
  cases cancels with
  | false => exact .pure
  | true =>
    refine .bind (fun before => Ensures.modifyState ?_) fun _ => Relates.pure
    exact ⟨rfl, rfl, fun _ => rfl⟩

theorem quiet_trySave {moment : Bool → PhaseMoment S} : Relates Quiet (trySave moment) := quiet_ask

theorem quiet_persist {moment : Bool → PhaseMoment S} : Relates Quiet (persist moment) := by
  refine .bind quiet_trySave ?_
  intro saved
  cases saved with
  | error error => exact .fail
  | ok _ => exact .pure

theorem quiet_announce {moment : PhaseMoment S} : Relates Quiet (announce moment) := quiet_ask

theorem quiet_cancelRequested : Relates Quiet (cancelRequested : PhaseM S Bool) :=
  Relates.bind Relates.getState fun _ => Relates.pure

theorem quiet_launchOnFailureAgent {config : RemediationConfig} :
    Relates Quiet (launchOnFailureAgent engine config : PhaseM S Unit) := by
  unfold launchOnFailureAgent
  split
  · exact .pure
  · exact quiet_announce

/-- What only waits touches nothing. -/
theorem touches_of_quiet {program : PhaseM S α} (h : Relates Quiet program) :
    Relates (Touches kind idx repairs) program := h.mono fun _ _ hquiet => hquiet.touches

/-- A command of the step starts, or one of its repair. -/
theorem touches_startCommand {other : Nat} (hother : other = idx ∨ repairs) :
    Relates (Touches kind idx repairs)
      (modifyState fun run => run.startCommand other step : PhaseM S Unit) := by
  intro before
  refine .modifyState ⟨rfl, fun _ _ => rfl, rfl, ?_, id⟩
  intro command hcommand
  rcases List.mem_cons.mp hcommand with rfl | hearlier
  · exact Or.inr hother
  · exact Or.inl hearlier

theorem touches_execStreaming {other : Nat} {moment : PhaseMoment S} (hother : other = idx ∨ repairs) :
    Relates (Touches kind idx repairs) (execStreaming other step moment) :=
  Relates.bind (touches_startCommand hother) fun _ => touches_of_quiet quiet_ask

theorem touches_poll : Relates (Touches kind idx repairs) (poll idx step) :=
  Relates.bind (touches_startCommand (Or.inl rfl)) fun _ => touches_of_quiet quiet_ask

/-- A status is recorded for the step. -/
theorem touches_status (kind : PhaseKind) (idx : Nat) (repairs : Prop) (run : PhaseRun S)
    (status : PhaseStepStatus) :
    Touches kind idx repairs run
      { run with state := run.state.setPhaseStepStatus kind idx status } := by
  refine ⟨?_, ?_, ?_, fun _ hcommand => Or.inl hcommand, id⟩
  · rw [PhaseRun.statuses, WorkflowState.statuses_setPhaseStepStatus, List.length_modify]
    rfl
  · intro index hindex
    rw [PhaseRun.statuses, WorkflowState.statuses_setPhaseStepStatus, List.getElem?_modify_ne]
    · rfl
    · exact hindex.symm
  · exact WorkflowState.setupCompleted_set _ _ _

/-- Setting a status touches one step. -/
theorem touches_setPhaseStepStatus {status : PhaseStepStatus} :
    Relates (Touches kind idx repairs) (setPhaseStepStatus kind idx status : PhaseM S Unit) :=
  fun before => Ensures.modifyState (touches_status kind idx repairs before status)

/-- The program runs the step: it touches only the step, and a failure is recorded. -/
def Ends (kind : PhaseKind) (idx : Nat) (repairs : Prop) (run : PhaseRun S)
    (program : PhaseM S PhaseStepOutcome) : Prop :=
  Ensures program run (fun outcome after => Touches kind idx repairs run after ∧
    (outcome.hasFailed = true → after.FailedAt kind idx)) (Touches kind idx repairs run)

/-- What follows something that touches only the step. -/
theorem Ends.seq {program : PhaseM S α} {next : α → PhaseM S PhaseStepOutcome}
    {middle : α → PhaseRun S → Prop} (h : Ensures program run middle (Touches kind idx repairs run))
    (hmiddle : ∀ value after, middle value after → Touches kind idx repairs run after)
    (hnext : ∀ value after, middle value after → Ends kind idx repairs after (next value)) :
    Ends kind idx repairs run (program >>= next) := by
  refine Ensures.seq h ?_
  intro value after hafter
  have htouched := hmiddle value after hafter
  refine (hnext value after hafter).mono ?_ fun last hlast => htouched.trans hlast
  intro outcome last hlast
  exact ⟨htouched.trans hlast.1, hlast.2⟩

theorem Ends.after {program : PhaseM S α} {next : α → PhaseM S PhaseStepOutcome}
    (h : Relates (Touches kind idx repairs) program)
    (hnext : ∀ value after, Ends kind idx repairs after (next value)) :
    Ends kind idx repairs run (program >>= next) :=
  Ends.seq (h run) (fun _ _ htouched => htouched) fun value after _ => hnext value after

theorem Ends.pure {outcome : PhaseStepOutcome} (h : outcome.hasFailed = true → run.FailedAt kind idx) :
    Ends kind idx repairs run (Pure.pure outcome) :=
  Ensures.pure ⟨Std.Refl.refl run, h⟩

/-- A failed step is recorded as failed. -/
theorem setPhaseStepFailed_ensures (run : PhaseRun S) (error : String) :
    Ensures (setPhaseStepFailed engine kind idx error) run
      (fun _ after => Touches kind idx repairs run after ∧ after.FailedAt kind idx)
      (Touches kind idx repairs run) := by
  have hfailed : PhaseRun.FailedAt { run with
      state := run.state.setPhaseStepStatus kind idx (.failed (engine.redact error)) } kind idx := by
    intro status hstatus
    exact ⟨_, status_set hstatus⟩
  have htouched := touches_status kind idx repairs run (.failed (engine.redact error))
  refine .change ?_
  refine .seq ((quiet_trySave _).mono (fun _ _ h => h) fun _ h => htouched.trans h.touches) ?_
  intro _ after hquiet
  exact .pure ⟨htouched.trans hquiet.touches, hfailed.quiet hquiet⟩

/-- A step that fails is recorded as failed. -/
theorem ends_failed (error : String) (outcome : PhaseStepOutcome) :
    Ends kind idx repairs run (do
      setPhaseStepFailed engine kind idx error
      Pure.pure outcome) :=
  Ensures.seq (setPhaseStepFailed_ensures run error) fun _ _ h => Ensures.pure ⟨h.1, fun _ => h.2⟩

/-- A shell step ends at a recorded status. -/
theorem ends_runShellPhaseStep (step : S) (run : PhaseRun S) :
    Ends kind idx repairs run (runShellPhaseStep engine kind step idx) := by
  refine .after (touches_execStreaming (Or.inl rfl)) ?_
  intro result after
  cases result with
  | error error => exact ends_failed _ _
  | ok output =>
    dsimp only
    split
    · exact ends_failed _ _
    · refine .pure fun hfailed => ?_
      cases hfailed

/-- So does a poll. -/
theorem ends_runPollCiPhaseStep (step : S) :
    Ends kind idx repairs run (runPollCiPhaseStep engine kind step idx) := by
  refine .after touches_poll ?_
  intro result after
  cases result with
  | error error => exact ends_failed _ _
  | ok _ =>
    refine .pure fun hfailed => ?_
    cases hfailed

/-- So does a pull request that is retried. -/
theorem ends_retryPullRequest (step : S) (delays : List Nat) (result : PhaseStepOutcome)
    (hresult : result.hasFailed = true → run.FailedAt kind idx) :
    Ends kind idx repairs run (retryPullRequest engine kind step idx delays result) := by
  induction delays generalizing run result with
  | nil => exact .pure hresult
  | cons delay delays ih =>
    refine .seq ((quiet_cancelRequested run).mono (fun _ _ h => h) fun _ h => h.touches)
      (fun _ _ h => h.touches) ?_
    intro cancelled after hquiet
    have hafter : result.hasFailed = true → after.FailedAt kind idx :=
      fun hfailed => (hresult hfailed).quiet hquiet
    split
    · exact .pure hafter
    · refine .after (touches_of_quiet quiet_announce) ?_
      intro _ waited
      refine .seq (ends_runShellPhaseStep step waited) (fun _ _ h => h.1) ?_
      intro again last hlast
      exact ih again hlast.2

variable [PhaseStepSpec S]

/-- So does any single step. -/
theorem ends_runSinglePhaseStep (step : S) (run : PhaseRun S) :
    Ends kind idx repairs run (runSinglePhaseStep engine kind step idx) := by
  unfold runSinglePhaseStep
  cases PhaseStepSpec.pollCi step with
  | some poll => exact ends_runPollCiPhaseStep step
  | none =>
    refine .after (touches_of_quiet quiet_ask) ?_
    intro result asked
    cases result with
    | error error => exact ends_failed _ _
    | ok _ =>
      refine .seq (ends_runShellPhaseStep step asked) (fun _ _ h => h.1) ?_
      intro outcome after hafter
      split
      · exact ends_retryPullRequest step _ outcome hafter.2
      · exact .pure hafter.2

/-- A fix is republished by the commands of other steps, whose records stay. -/
theorem touches_republishCiFix {failedJobs : List String} (hrepairs : repairs) (steps : List (S × Nat)) :
    Relates (Touches kind idx repairs) (republishCiFix failedJobs steps) := by
  induction steps with
  | nil => exact .pure
  | cons entry rest ih =>
    refine .bind (touches_of_quiet quiet_ask) ?_
    intro result
    cases result with
    | error error => exact .pure
    | ok _ =>
      refine .bind (touches_execStreaming (Or.inr hrepairs)) ?_
      intro result
      cases result with
      | error error => exact .pure
      | ok output =>
        dsimp only
        split
        · exact ih
        · exact .pure

/-- Each attempt of a repair ends with a step that is recorded as failed, or was not. -/
theorem ends_runPhaseRemediation {config : RemediationConfig} {republish : List (S × Nat)}
    (hrepairs : repairs) (left : Nat) (last : PhaseStepOutcome)
    (hlast : last.hasFailed = true → run.FailedAt kind idx) :
    Ends kind idx repairs run
      (runPhaseRemediation engine kind config step idx republish left last) := by
  induction left generalizing run last with
  | zero => exact .pure hlast
  | succ left ih =>
    refine .seq ((quiet_cancelRequested run).mono (fun _ _ h => h) fun _ h => h.touches)
      (fun _ _ h => h.touches) ?_
    intro cancelled asked hquiet
    split
    · exact .pure fun hfailed => (hlast hfailed).quiet hquiet
    · refine .after touches_setPhaseStepStatus fun _ _ => ?_
      refine .after (touches_of_quiet quiet_trySave) fun _ _ => ?_
      refine .after (touches_of_quiet quiet_announce) fun _ _ => ?_
      refine .after (touches_of_quiet quiet_launchOnFailureAgent) fun _ _ => ?_
      refine .after (touches_of_quiet quiet_cancelRequested) fun stopped _ => ?_
      split
      · exact ends_failed _ _
      · refine .after (touches_republishCiFix hrepairs _) fun _ _ => ?_
        refine .after touches_setPhaseStepStatus fun _ _ => ?_
        refine .after (touches_of_quiet quiet_trySave) fun _ retried => ?_
        refine .seq (ends_runSinglePhaseStep step retried) (fun _ _ h => h.1) ?_
        intro outcome after hafter
        split
        · exact ih outcome hafter.2
        · exact .pure hafter.2

theorem ends_runPhaseStep {steps : List S} {onFailureConfigs : List (Option RemediationConfig)}
    {options : PhaseRunOptions} (step : S) (run : PhaseRun S) :
    Ends kind idx (options.allowRemediation = true) run
      (runPhaseStep engine kind steps onFailureConfigs options step idx) := by
  refine .seq (ends_runSinglePhaseStep step run) (fun _ _ h => h.1) ?_
  intro outcome after hafter
  refine .seq ((quiet_cancelRequested after).mono (fun _ _ h => h) fun _ h => h.touches)
    (fun _ _ h => h.touches) ?_
  intro cancelled asked hquiet
  have hfailed : outcome.hasFailed = true → asked.FailedAt kind idx :=
    fun hfailed => (hafter.2 hfailed).quiet hquiet
  split
  case isTrue hremedied =>
      split
      · refine ends_runPhaseRemediation ?_ _ outcome hfailed
        simp only [Bool.and_eq_true] at hremedied
        exact hremedied.1.2
      · exact .pure hfailed
  case isFalse => exact .pure hfailed

end PhaseEngine

end Awman.Engine
