import Awman.WorkflowPhases

/-!
# What a cancelled phase publishes

The runner looks at the cancellation token before it starts a step that publishes, and between the
waits of a repair.  A publishing command is therefore started after the token fired only if the
token fired while the runner was already past its last look: `PhaseMoment.unchecked` lists these
moments.  `Unfired` says that the last look still holds, and is what every start of a publishing
command needs.
-/

namespace Awman.Engine

open Awman.Interaction

variable {S : Type} [PhaseStepSpec S]

/-- The moments after which the runner goes on to a publishing command without another look at the
token. -/
def PhaseMoment.unchecked : PhaseMoment S → Bool
  -- A step that publishes is being prepared: it is saved, announced and given its container.
  | startSaved step saved => saved && PhaseStepSpec.publishes step
  | startAnnounced step => PhaseStepSpec.publishes step
  | containerAsked step started => started && PhaseStepSpec.publishes step
  -- A pull request is about to be tried again.
  | retryWaited _ => true
  -- The `on_failure` agent is done: its fix is pushed, and the failed step is tried again.
  | fixContainerAsked _ | fixCommandEnded _ => true
  | retrySaved step => PhaseStepSpec.publishes step
  | phaseSaved | skipSaved | commandEnded _ | pollEnded _ | failureSaved | fixingSaved
  | agentEnded | successSaved | outcomeAnnounced => false

namespace PhaseRun

/-- The token never fired at an unchecked moment. -/
def Checked (run : PhaseRun S) : Prop :=
  ∀ moment ∈ run.cancels, moment.unchecked = false

/-- No publishing command was started after the token fired. -/
def PublishesInTime (run : PhaseRun S) : Prop :=
  ∀ command ∈ run.started, PhaseStepSpec.publishes command.step = true →
    command.cancelRequested = false

/-- The law of a phase run. -/
def Guarded (run : PhaseRun S) : Prop :=
  run.Checked → run.PublishesInTime

/-- The runner's last look at the token found it not fired, and still holds. -/
def Unfired (run : PhaseRun S) : Prop :=
  run.Checked → run.cancelRequested = false

variable {run : PhaseRun S}

/-- A later cancel unchecks nothing. -/
theorem Checked.before_cancel {moment : PhaseMoment S} (h : (run.cancelAt moment).Checked) :
    run.Checked := by
  intro earlier hearlier
  exact h earlier (List.mem_cons_of_mem moment hearlier)

/-- A cancel keeps the guard. -/
theorem Guarded.cancelAt {moment : PhaseMoment S} (h : run.Guarded) : (run.cancelAt moment).Guarded := by
  intro hchecked
  exact h hchecked.before_cancel

/-- A token that fires at an unchecked moment is excluded, so the last look is not outdated. -/
theorem unfired_cancelAt {moment : PhaseMoment S} (h : moment.unchecked = true) :
    (run.cancelAt moment).Unfired := by
  intro hchecked
  have hmoment := hchecked moment (List.mem_cons_self)
  rw [h] at hmoment
  cases hmoment

/-- A publishing command starts only before a cancel. -/
theorem Guarded.startCommand {idx : Nat} {step : S} (h : run.Guarded)
    (hstep : PhaseStepSpec.publishes step = true → run.Unfired) :
    (run.startCommand idx step).Guarded := by
  intro hchecked command hcommand hpublishes
  rcases List.mem_cons.mp hcommand with rfl | hearlier
  · exact hstep hpublishes hchecked
  · exact h hchecked command hearlier hpublishes

end PhaseRun

namespace PhaseEngine

open PhaseRun

variable {run : PhaseRun S} {kind : PhaseKind} {engine : PhaseEngine}

/-- A wait keeps the law, and keeps the last look valid if the token must not fire during it. -/
theorem ask_guarded {α : Type} {accept : PhaseReply → Option α} {moment : α → PhaseMoment S}
    (hrun : run.Guarded) :
    Ensures (ask accept moment) run (fun a after => after.Guarded ∧
      ((moment a).unchecked = true → run.Unfired → after.Unfired)) Guarded := by
  refine .bind (.receive hrun ?_)
  rintro ⟨reply, cancels⟩
  cases cancels with
  | false => exact .pure ⟨hrun, fun _ hunfired => hunfired⟩
  | true =>
    have hfires : (run.cancelAt (moment reply)).Guarded := hrun.cancelAt
    exact .change (.pure ⟨hfires, fun hmoment _ => unfired_cancelAt hmoment⟩)

omit [PhaseStepSpec S] in
theorem cancelRequested_guarded {post : Bool → PhaseRun S → Prop} {halt : PhaseRun S → Prop}
    (hpost : post run.cancelRequested run) : Ensures cancelRequested run post halt :=
  .read (.pure hpost)

theorem trySave_guarded {moment : Bool → PhaseMoment S} (hrun : run.Guarded) :
    Ensures (trySave moment) run (fun result after => after.Guarded ∧
      ((moment result.toBool).unchecked = true → run.Unfired → after.Unfired)) Guarded :=
  ask_guarded hrun

theorem persist_guarded {moment : Bool → PhaseMoment S} (hrun : run.Guarded) :
    Ensures (persist moment) run (fun _ after => after.Guarded ∧
      ((moment true).unchecked = true → run.Unfired → after.Unfired)) Guarded := by
  refine .seq (trySave_guarded hrun) ?_
  rintro result after ⟨hafter, hunfired⟩
  cases result with
  | error e => exact .ofExcept hafter (by simp [Except.mapError])
  | ok _ => exact .ofExcept hafter fun _ _ => ⟨hafter, hunfired⟩

theorem announce_guarded {moment : PhaseMoment S} (hrun : run.Guarded) :
    Ensures (announce moment) run (fun _ after => after.Guarded ∧
      (moment.unchecked = true → run.Unfired → after.Unfired)) Guarded :=
  ask_guarded hrun

theorem containerForStep_guarded {moment : Bool → PhaseMoment S} (hrun : run.Guarded) :
    Ensures (containerForStep moment) run (fun result after => after.Guarded ∧
      ((moment result.toBool).unchecked = true → run.Unfired → after.Unfired)) Guarded :=
  ask_guarded hrun

/-- Starting a command needs the last look to hold, if the command publishes. -/
theorem execStreaming_guarded {idx : Nat} {step : S} {moment : PhaseMoment S} (hrun : run.Guarded)
    (hstep : PhaseStepSpec.publishes step = true → run.Unfired) :
    Ensures (execStreaming idx step moment) run (fun _ after => after.Guarded ∧
      (moment.unchecked = true → run.Unfired → after.Unfired)) Guarded := by
  have hstarted : (run.startCommand idx step).Guarded := hrun.startCommand hstep
  exact .change (ask_guarded hstarted)

/-- Polling keeps the guard. -/
theorem poll_guarded {idx : Nat} {step : S} (hrun : run.Guarded)
    (hstep : PhaseStepSpec.publishes step = true → run.Unfired) :
    Ensures (poll idx step) run (fun _ after => after.Guarded) Guarded := by
  have hstarted : (run.startCommand idx step).Guarded := hrun.startCommand hstep
  exact .change ((ask_guarded hstarted).mono (fun _ _ h => h.1) fun _ h => h)

theorem setPhaseStepFailed_guarded {idx : Nat} {error : String} (hrun : run.Guarded) :
    Ensures (setPhaseStepFailed engine kind idx error) run (fun _ after => after.Guarded)
      Guarded := by
  refine .change (.seq (trySave_guarded hrun) ?_)
  intro _ after hafter
  exact .pure hafter.1

theorem runShellPhaseStep_guarded {step : S} {idx : Nat} (hrun : run.Guarded)
    (hstep : PhaseStepSpec.publishes step = true → run.Unfired) :
    Ensures (runShellPhaseStep engine kind step idx) run (fun _ after => after.Guarded)
      Guarded := by
  refine .seq (execStreaming_guarded hrun hstep) ?_
  rintro result after ⟨hafter, -⟩
  cases result with
  | error e =>
    refine .seq (setPhaseStepFailed_guarded hafter) ?_
    intro _ failed hfailed
    exact .pure hfailed
  | ok output =>
    by_cases hexit : output.exitCode = 0
    · simp only [hexit, ne_eq, not_true_eq_false, if_false]
      exact .pure hafter
    · simp only [ne_eq, hexit, not_false_eq_true, if_true]
      refine .seq (setPhaseStepFailed_guarded hafter) ?_
      intro _ failed hfailed
      exact .pure hfailed

theorem runPollCiPhaseStep_guarded {step : S} {idx : Nat} (hrun : run.Guarded)
    (hstep : PhaseStepSpec.publishes step = true → run.Unfired) :
    Ensures (runPollCiPhaseStep engine kind step idx) run (fun _ after => after.Guarded)
      Guarded := by
  refine .seq (poll_guarded hrun hstep) ?_
  intro result after hafter
  cases result with
  | error e =>
    refine .seq (setPhaseStepFailed_guarded hafter) ?_
    intro _ failed hfailed
    exact .pure hfailed
  | ok _ => exact .pure hafter

/-- Each further attempt at a pull request is preceded by a look at the token and a wait. -/
theorem retryPullRequest_guarded {step : S} {idx : Nat} (delays : List Nat) (result : PhaseStepOutcome)
    (hrun : run.Guarded) :
    Ensures (retryPullRequest engine kind step idx delays result) run
      (fun _ after => after.Guarded) Guarded := by
  induction delays generalizing run result with
  | nil => exact .pure hrun
  | cons delay delays ih =>
    refine .bind (cancelRequested_guarded ?_)
    cases hfired : run.cancelRequested with
    | true =>
      simp only [Bool.or_true, if_true]
      exact .pure hrun
    | false =>
      cases hretry : result.hasFailed && prBranchNotYetIndexed result with
      | false =>
        simp only [Bool.not_false, Bool.true_or, if_true]
        exact .pure hrun
      | true =>
        have hlook : run.Unfired := fun _ => hfired
        simp only [Bool.not_true, Bool.or_false, Bool.false_eq_true, if_false]
        refine .seq (announce_guarded hrun) ?_
        rintro _ waited ⟨hwaited, hunfired⟩
        have hstill : waited.Unfired := hunfired rfl hlook
        refine .seq (runShellPhaseStep_guarded hwaited fun _ => hstill) ?_
        intro again after hafter
        exact ih again hafter

theorem launchOnFailureAgent_guarded {config : RemediationConfig} (hrun : run.Guarded) :
    Ensures (launchOnFailureAgent engine config) run (fun _ after => after.Guarded) Guarded := by
  unfold launchOnFailureAgent
  cases engine.onFailureAgentName config with
  | error e => exact .pure hrun
  | ok name => exact (announce_guarded hrun).mono (fun _ _ h => h.1) fun _ h => h

/-- One attempt at a step keeps the guard. -/
theorem runSinglePhaseStep_guarded {step : S} {idx : Nat} (hrun : run.Guarded)
    (hstep : PhaseStepSpec.publishes step = true → run.Unfired) :
    Ensures (runSinglePhaseStep engine kind step idx) run (fun _ after => after.Guarded)
      Guarded := by
  unfold runSinglePhaseStep
  cases PhaseStepSpec.pollCi step with
  | some poll => exact runPollCiPhaseStep_guarded hrun hstep
  | none =>
    refine .seq (containerForStep_guarded hrun) ?_
    rintro result asked ⟨hasked, hunfired⟩
    cases result with
    | error e =>
      refine .seq (setPhaseStepFailed_guarded hasked) ?_
      intro _ failed hfailed
      exact .pure hfailed
    | ok _ =>
      have hstill : PhaseStepSpec.publishes step = true → asked.Unfired := by
        intro hpublishes
        exact hunfired hpublishes (hstep hpublishes)
      refine .seq (runShellPhaseStep_guarded hasked hstill) ?_
      intro outcome after hafter
      by_cases hretries : kind = .teardown ∧ PhaseStepSpec.createsPullRequest step = true
      · rw [if_pos hretries]
        exact retryPullRequest_guarded _ outcome hafter
      · rw [if_neg hretries]
        exact .pure hafter

/-- The republished steps run under the look at the token that followed the agent. -/
theorem republishCiFix_guarded {failedJobs : List String} (steps : List (S × Nat)) (hrun : run.Guarded)
    (hlook : run.Unfired) :
    Ensures (republishCiFix failedJobs steps) run
      (fun _ after => after.Guarded ∧ after.Unfired) Guarded := by
  induction steps generalizing run with
  | nil => exact .pure ⟨hrun, hlook⟩
  | cons entry rest ih =>
    obtain ⟨step, idx⟩ := entry
    refine .seq (containerForStep_guarded hrun) ?_
    rintro result asked ⟨hasked, hunfired⟩
    have hstill : asked.Unfired := hunfired rfl hlook
    cases result with
    | error e => exact .pure ⟨hasked, hstill⟩
    | ok _ =>
      refine .seq (execStreaming_guarded hasked fun _ => hstill) ?_
      rintro result ended ⟨hended, hunfired⟩
      have hthen : ended.Unfired := hunfired rfl hstill
      cases result with
      | error e => exact .pure ⟨hended, hthen⟩
      | ok output =>
        by_cases hexit : output.exitCode = 0
        · simp only [hexit, if_true]
          exact ih hended hthen
        · simp only [hexit, if_false]
          exact .pure ⟨hended, hthen⟩

/-- The runner looks at the token before the agent and after it; what follows runs under the second
look. -/
theorem runPhaseRemediation_guarded {config : RemediationConfig} {step : S} {idx : Nat}
    {republish : List (S × Nat)} (left : Nat) (last : PhaseStepOutcome) (hrun : run.Guarded) :
    Ensures (runPhaseRemediation engine kind config step idx republish left last) run
      (fun _ after => after.Guarded) Guarded := by
  induction left generalizing run last with
  | zero => exact .pure hrun
  | succ left ih =>
    refine .bind (cancelRequested_guarded ?_)
    cases hfired : run.cancelRequested with
    | true =>
      simp only [if_true]
      exact .pure hrun
    | false =>
      simp only [Bool.false_eq_true, if_false]
      refine .change (.seq (trySave_guarded hrun) ?_)
      rintro _ fixing ⟨hfixing, -⟩
      refine .seq (announce_guarded hfixing) ?_
      rintro _ announced ⟨hannounced, -⟩
      refine .seq (launchOnFailureAgent_guarded hannounced) ?_
      intro _ agentEnded hagent
      refine .bind (cancelRequested_guarded ?_)
      cases hstopped : agentEnded.cancelRequested with
      | true =>
        simp only [if_true]
        refine .seq (setPhaseStepFailed_guarded hagent) ?_
        intro _ failed hfailed
        exact .pure hfailed
      | false =>
        have hlook : agentEnded.Unfired := fun _ => hstopped
        simp only [Bool.false_eq_true, if_false]
        refine .seq (republishCiFix_guarded republish hagent hlook) ?_
        rintro _ republished ⟨hrepublished, hstill⟩
        refine .change (.seq (trySave_guarded hrepublished) ?_)
        rintro _ retried ⟨hretried, hunfired⟩
        have hstep : PhaseStepSpec.publishes step = true → retried.Unfired := by
          intro hpublishes
          exact hunfired hpublishes hstill
        refine .seq (runSinglePhaseStep_guarded hretried hstep) ?_
        intro outcome after hafter
        cases outcome.hasFailed with
        | true => exact ih outcome hafter
        | false => exact .pure hafter

variable {steps : List S} {options : PhaseRunOptions}

/-- A step with its remediation keeps the guard. -/
theorem runPhaseStep_guarded {onFailureConfigs : List (Option RemediationConfig)} {step : S} {idx : Nat}
    (hrun : run.Guarded) (hstep : PhaseStepSpec.publishes step = true → run.Unfired) :
    Ensures (runPhaseStep engine kind steps onFailureConfigs options step idx) run
      (fun _ after => after.Guarded) Guarded := by
  refine .seq (runSinglePhaseStep_guarded hrun hstep) ?_
  intro outcome after hafter
  refine .bind (cancelRequested_guarded ?_)
  cases outcome.hasFailed && options.allowRemediation && !after.cancelRequested with
  | false => exact .pure hafter
  | true =>
    simp only [if_true]
    cases (onFailureConfigs[idx]?).join with
    | none => exact .pure hafter
    | some config => exact runPhaseRemediation_guarded _ outcome hafter

/-- A step that publishes is prepared only after a look at the token: in teardown the runner looks
before each step, and nothing else publishes. -/
theorem planPhaseStep_run {step : S} {idx : Nat}
    (hplan : planPhaseStep (PhaseStepSpec.kind S) options step idx run = .run)
    (hpublishes : PhaseStepSpec.publishes step = true) : run.Unfired := by
  have hkind : PhaseStepSpec.kind S = .teardown := by
    cases hkind : PhaseStepSpec.kind S with
    | teardown => rfl
    | setup =>
      have hnot := PhaseStepSpec.setup_publishesNothing hkind step
      rw [hpublishes] at hnot
      cases hnot
  intro _
  unfold planPhaseStep at hplan
  cases hfired : run.cancelRequested with
  | false => rfl
  | true =>
    simp only [hkind, hfired, hpublishes, beq_self_eq_true, Bool.and_true, Bool.or_true,
      if_true] at hplan
    split at hplan
    · cases hplan
    · split at hplan <;> cases hplan

theorem finishPhaseStep_guarded {abort : Bool} {idx : Nat} {stepOutcome : PhaseStepOutcome}
    {outcome : PhaseOutcome} (hrun : run.Guarded) :
    Ensures (finishPhaseStep kind options abort idx stepOutcome outcome) run
      (fun _ after => after.Guarded) Guarded := by
  refine .bind (cancelRequested_guarded ?_)
  cases stepOutcome.hasFailed && options.observeCancel && run.cancelRequested with
  | true => exact .pure hrun
  | false =>
    cases stepOutcome.hasFailed with
    | true =>
      refine .seq (announce_guarded hrun) ?_
      rintro _ told ⟨htold, -⟩
      cases abort with
      | true => exact .change (.pure htold)
      | false => exact .pure htold
    | false =>
      refine .change (.seq (persist_guarded hrun) ?_)
      rintro _ saved ⟨hsaved, -⟩
      refine .seq (announce_guarded hsaved) ?_
      rintro _ told ⟨htold, -⟩
      exact .pure htold

/-- By induction on the steps left. -/
theorem runPhaseSteps_guarded {abortFlags : List Bool}
    {onFailureConfigs : List (Option RemediationConfig)} (left : List (S × Nat)) (outcome : PhaseOutcome)
    (hrun : run.Guarded) :
    Ensures (runPhaseSteps engine (PhaseStepSpec.kind S) steps abortFlags onFailureConfigs options
      left outcome) run (fun _ after => after.Guarded) Guarded := by
  induction left generalizing run outcome with
  | nil => exact .pure hrun
  | cons entry rest ih =>
    obtain ⟨step, idx⟩ := entry
    refine .read ?_
    cases hplan : planPhaseStep (PhaseStepSpec.kind S) options step idx run with
    | keep => exact ih outcome hrun
    | stop => exact .pure hrun
    | skip =>
      refine .change (.seq (persist_guarded hrun) ?_)
      rintro _ skipped ⟨hskipped, -⟩
      refine .seq (announce_guarded hskipped) ?_
      rintro _ told ⟨htold, -⟩
      exact ih _ htold
    | run =>
      have hlook : PhaseStepSpec.publishes step = true → run.Unfired := planPhaseStep_run hplan
      refine .change (.seq (persist_guarded hrun) ?_)
      rintro _ saved ⟨hsaved, hunfired⟩
      have hstill : PhaseStepSpec.publishes step = true → saved.Unfired := by
        intro hpublishes
        exact hunfired hpublishes (hlook hpublishes)
      refine .seq (announce_guarded hsaved) ?_
      rintro _ announced ⟨hannounced, hunfired⟩
      have hthen : PhaseStepSpec.publishes step = true → announced.Unfired := by
        intro hpublishes
        exact hunfired hpublishes (hstill hpublishes)
      refine .seq (runPhaseStep_guarded hannounced hthen) ?_
      intro stepOutcome ended hended
      refine .seq (finishPhaseStep_guarded hended) ?_
      rintro ⟨outcome, goesOn⟩ finished hfinished
      cases goesOn with
      | true => exact ih outcome hfinished
      | false => exact .pure hfinished

theorem enterPhase_guarded (hrun : run.Guarded) :
    Ensures (enterPhase kind steps options) run (fun _ after => after.Guarded) Guarded := by
  have hentered : PhaseRun.Guarded
      { run with state := run.state.enterPhase kind steps options.resume } := hrun
  exact .change ((persist_guarded hentered).mono (fun _ _ h => h.1) fun _ h => h)

theorem leavePhase_guarded {outcome : PhaseOutcome} (hrun : run.Guarded) :
    Ensures (leavePhase kind outcome : PhaseM S Unit) run (fun _ after => after.Guarded)
      Guarded := by
  have hleft : PhaseRun.Guarded
      { run with state := run.state.leavePhase kind outcome } := hrun
  exact .change ((persist_guarded hleft).mono (fun _ _ h => h.1) fun _ h => h)

/-- A whole phase run keeps the guard. -/
theorem runPhaseWith_guarded (steps : List S) (abortFlags : List Bool)
    (onFailureConfigs : List (Option RemediationConfig)) (options : PhaseRunOptions)
    (hrun : run.Guarded) :
    Ensures (runPhaseWith engine steps abortFlags onFailureConfigs options) run
      (fun _ after => after.Guarded) Guarded := by
  refine .seq (enterPhase_guarded hrun) ?_
  intro _ entered hentered
  refine .seq (runPhaseSteps_guarded _ _ hentered) ?_
  intro outcome ended hended
  refine .bind (cancelRequested_guarded ?_)
  refine .seq (leavePhase_guarded hended) ?_
  intro _ left hleft
  exact .pure hleft

/-- In every phase run, whatever the environment answers and wherever the run stands, no publishing
command was started after the token fired, unless the token fired at an unchecked moment. -/
theorem runPhaseWith_publishesInTime (engine : PhaseEngine) (steps : List S)
    (abortFlags : List Bool) (onFailureConfigs : List (Option RemediationConfig))
    (options : PhaseRunOptions) (state : WorkflowState) (cancelled : Bool)
    (answers : List PhaseAnswer)
    (hchecked : (runPhaseWith engine steps abortFlags onFailureConfigs options
      ⟨answers, .start state cancelled⟩).2.state.Checked) :
    (runPhaseWith engine steps abortFlags onFailureConfigs options
      ⟨answers, .start state cancelled⟩).2.state.PublishesInTime := by
  have hstart : (PhaseRun.start state cancelled : PhaseRun S).Guarded := by
    intro _ command hcommand
    cases hcommand
  have hrun : Ensures (runPhaseWith engine steps abortFlags onFailureConfigs options)
      (.start state cancelled) (fun _ after => after.Guarded) Guarded :=
    runPhaseWith_guarded steps abortFlags onFailureConfigs options hstart
  exact hrun.everywhere (fun _ _ hafter => hafter) answers hchecked

end PhaseEngine

/-- An engine without a work item, templates and secrets. -/
def plainEngine : PhaseEngine where
  templates := ⟨fun text _ => text, fun _ _ => none⟩
  workItemContext := none
  workflowAgent := none
  redact := id

/-- The teardown of a run whose main phase is over, up to what `answers` answer. -/
def teardownRun (steps : List TeardownStep) (onFailureConfigs : List (Option RemediationConfig))
    (answers : List PhaseAnswer) : PhaseRun TeardownStep :=
  (plainEngine.runPhase steps [] onFailureConfigs
    ⟨answers, .start (.new 0 "release" [] "" none) false⟩).2.state

/-- A save that succeeds. -/
def saves : PhaseAnswer :=
  ⟨.saved (.ok ()), false⟩

/-- A command that exits with a code. -/
def exits (exitCode : Int) (stderr : String) : PhaseAnswer :=
  ⟨.executed (.ok ⟨"", stderr, exitCode⟩), false⟩

/-- A container that starts. -/
def startsContainer : PhaseAnswer :=
  ⟨.container (.ok ()), false⟩

/-- Something that is over. -/
def goesOn : PhaseAnswer :=
  ⟨.done, false⟩

/-- The token fires before an answer arrives. -/
def PhaseAnswer.cancelling (answer : PhaseAnswer) : PhaseAnswer :=
  { answer with cancels := true }

/-- Commit and push, cancelled while the commit runs. -/
def cancelledDuringCommit : PhaseRun TeardownStep :=
  teardownRun [.commitChanges "Release" true, .pushBranch none none] []
    [saves, saves, goesOn, startsContainer, (exits 0 "").cancelling, saves, goesOn, saves, goesOn,
      saves]

theorem runPhaseWith_publishesInTime_cancelledDuringCommit :
    cancelledDuringCommit.cancelRequested = true ∧
      cancelledDuringCommit.started = [⟨0, .commitChanges "Release" true, false⟩] ∧
      cancelledDuringCommit.PublishesInTime := by
  refine ⟨by decide +kernel, by decide +kernel, ?_⟩
  have hchecked : cancelledDuringCommit.Checked := by
    unfold PhaseRun.Checked
    decide +kernel
  exact PhaseEngine.runPhaseWith_publishesInTime plainEngine _ [] [] _ _ false _ hchecked

/-- A pull request that is tried again, cancelled during the wait. -/
def cancelledDuringWait : PhaseRun TeardownStep :=
  teardownRun [.createPullRequest none none none] []
    [saves, saves, goesOn, startsContainer, exits 1 "No commits between main and release", saves,
      goesOn.cancelling]

/-- A CI fix that is committed and pushed, cancelled while it is committed. -/
def cancelledDuringFixCommit : PhaseRun TeardownStep :=
  teardownRun [.commitChanges "Release" true, .pushBranch none none, .pollCi none none]
    [none, none, some ⟨none, 1⟩]
    [saves, saves, goesOn, startsContainer, exits 0 "", saves, goesOn,
      saves, goesOn, startsContainer, exits 0 "", saves, goesOn,
      saves, goesOn, ⟨.polled (.error ⟨"CI failed", none⟩), false⟩, saves,
      saves, goesOn, goesOn, startsContainer, (exits 0 "").cancelling, startsContainer]

/-- A token that fires during a wait for the remote, or between the commit of a fix and its push,
does not keep the pull request or the push from being started. -/
theorem runPhaseWith_publishes_cancelled :
    ¬cancelledDuringWait.PublishesInTime ∧ ¬cancelledDuringFixCommit.PublishesInTime := by
  unfold PhaseRun.PublishesInTime
  decide +kernel

end Awman.Engine
