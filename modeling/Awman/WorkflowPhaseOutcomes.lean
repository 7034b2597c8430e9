import Awman.WorkflowPhaseRecords
import Awman.WorkflowPublishing

/-!
# What a phase run leaves behind

A phase takes its steps in order.  While it runs, the steps before the current one have ended and those
behind it are pending, so that wherever it stops the records are those of an interrupted phase.  When it
returns, the current step has ended too.
-/

namespace Awman.Engine

open Awman.Interaction

variable {S : Type}

/-! ## All steps -/

namespace PhaseEngine

open PhaseRun

variable {engine : PhaseEngine} {kind : PhaseKind} {idx : Nat} {run : PhaseRun S}

/-- What is recorded of a phase that was entered with the statuses `entry`. -/
structure Recorded (kind : PhaseKind) (options : PhaseRunOptions) (entry : List PhaseStepStatus)
    (completed : Bool) (run : PhaseRun S) : Prop where
  /-- There are as many steps. -/
  count : (run.statuses kind).length = entry.length
  kept : options.resume = true → ∀ (index : Nat) (status : PhaseStepStatus), entry[index]? = some status →
    status.hasEnded = true → (run.statuses kind)[index]? = some status
  /-- A resumed phase without repairs starts nothing that has ended. -/
  started : options.resume = true → options.allowRemediation = false → ∀ command ∈ run.started,
    ∀ status, entry[command.index]? = some status → status.hasEnded = false
  setup : run.state.setupCompleted = completed

/-- The phase may stop: what was an interrupted phase still is one. -/
def Stops (kind : PhaseKind) (options : PhaseRunOptions) (entry : List PhaseStepStatus)
    (completed : Bool) (run : PhaseRun S) : Prop :=
  Recorded kind options entry completed run ∧ (Interrupted entry → Interrupted (run.statuses kind))

/-- No step that must not fail has failed. -/
def NoneAborts (abortFlags : List Bool) (statuses : List PhaseStepStatus) (count : Nat) : Prop :=
  ∀ index < count, abortFlags.getD index false = true → ∀ error,
    statuses[index]? ≠ some (.failed error)

/-- The phase comes to a step. -/
structure Reaches (kind : PhaseKind) (options : PhaseRunOptions) (abortFlags : List Bool)
    (entry : List PhaseStepStatus) (completed : Bool) (idx : Nat) (run : PhaseRun S) : Prop where
  recorded : Recorded kind options entry completed run
  reached : Interrupted entry → ∃ count, idx ≤ count ∧ EndedBefore (run.statuses kind) count ∧
    PendingFrom (run.statuses kind) (count + 1)
  fresh : options.resume = false → PendingFrom (run.statuses kind) idx
  /-- The others are as they were. -/
  ahead : ∀ index, idx ≤ index → (run.statuses kind)[index]? = entry[index]?
  goes : options.resume = false → NoneAborts abortFlags (run.statuses kind) idx

/-- The phase is at a step that it does not keep. -/
structure Stands (kind : PhaseKind) (options : PhaseRunOptions) (abortFlags : List Bool)
    (entry : List PhaseStepStatus) (completed : Bool) (idx : Nat) (run : PhaseRun S) : Prop where
  recorded : Recorded kind options entry completed run
  before : Interrupted entry → EndedBefore (run.statuses kind) idx
  behind : Interrupted entry → PendingFrom (run.statuses kind) (idx + 1)
  fresh : options.resume = false → PendingFrom (run.statuses kind) (idx + 1)
  /-- The steps behind are as they were. -/
  ahead : ∀ index, idx + 1 ≤ index → (run.statuses kind)[index]? = entry[index]?
  unended : options.resume = true → ∀ status, entry[idx]? = some status → status.hasEnded = false
  goes : options.resume = false → NoneAborts abortFlags (run.statuses kind) idx

section positions

variable {options : PhaseRunOptions} {abortFlags : List Bool} {entry : List PhaseStepStatus}
  {completed : Bool} {after : PhaseRun S}

theorem Recorded.quiet (h : Recorded kind options entry completed run) (hquiet : Quiet run after) :
    Recorded kind options entry completed after := by
  refine ⟨?_, ?_, ?_, ?_⟩
  · rw [hquiet.statuses]
    exact h.count
  · rw [hquiet.statuses]
    exact h.kept
  · rw [hquiet.started]
    exact h.started
  · rw [hquiet.state]
    exact h.setup

theorem Reaches.quiet (h : Reaches kind options abortFlags entry completed idx run)
    (hquiet : Quiet run after) : Reaches kind options abortFlags entry completed idx after := by
  refine ⟨h.recorded.quiet hquiet, ?_, ?_, ?_, ?_⟩
  · rw [hquiet.statuses]
    exact h.reached
  · rw [hquiet.statuses]
    exact h.fresh
  · rw [hquiet.statuses]
    exact h.ahead
  · rw [hquiet.statuses]
    exact h.goes

theorem Reaches.stops (h : Reaches kind options abortFlags entry completed idx run) :
    Stops kind options entry completed run := by
  refine ⟨h.recorded, fun hentry => ?_⟩
  obtain ⟨count, -, hended, hpending⟩ := h.reached hentry
  exact ⟨count, hended, hpending⟩

section

variable (h : Stands kind options abortFlags entry completed idx run)
include h

theorem Stands.stops :
    Stops kind options entry completed run :=
  ⟨h.recorded, fun hentry => ⟨idx, h.before hentry, h.behind hentry⟩⟩

/-- While the step runs, the phase stays at it. -/
theorem Stands.touched (htouched : Touches kind idx (options.allowRemediation = true) run after) :
    Stands kind options abortFlags entry completed idx after := by
  have hbefore : ∀ index < idx, (after.statuses kind)[index]? = (run.statuses kind)[index]? :=
    fun index hindex => htouched.others index (by omega)
  have hbehind : ∀ index, idx + 1 ≤ index →
      (after.statuses kind)[index]? = (run.statuses kind)[index]? :=
    fun index hindex => htouched.others index (by omega)
  refine ⟨⟨htouched.count.trans h.recorded.count, ?_, ?_, htouched.setup.trans h.recorded.setup⟩,
    fun hentry => (h.before hentry).of_same hbefore, fun hentry => (h.behind hentry).of_same hbehind,
    fun hresume => (h.fresh hresume).of_same hbehind, ?_, h.unended, ?_⟩
  · intro hresume index status hstatus hended
    by_cases hindex : index = idx
    · subst hindex
      have hnot := h.unended hresume status hstatus
      rw [hended] at hnot
      cases hnot
    · rw [htouched.others index hindex]
      exact h.recorded.kept hresume index status hstatus hended
  · intro hresume hremedies command hcommand status hstatus
    rcases htouched.started command hcommand with hearlier | heq | hrepairs
    · exact h.recorded.started hresume hremedies command hearlier status hstatus
    · rw [heq] at hstatus
      exact h.unended hresume status hstatus
    · rw [hremedies] at hrepairs
      cases hrepairs
  · intro index hindex
    rw [hbehind index hindex]
    exact h.ahead index hindex
  · intro hresume index hindex habort error
    rw [hbefore index hindex]
    exact h.goes hresume index hindex habort error

/-- A step that has ended is left behind. -/
theorem Stands.next (hended : ∀ status, (run.statuses kind)[idx]? = some status → status.hasEnded = true)
    (hgoes : abortFlags.getD idx false = true → ∀ error,
      (run.statuses kind)[idx]? ≠ some (.failed error)) :
    Reaches kind options abortFlags entry completed (idx + 1) run := by
  refine ⟨h.recorded, fun hentry => ⟨idx + 1, le_rfl, (h.before hentry).succ hended,
    (h.behind hentry).mono (Nat.le_succ _)⟩, h.fresh, h.ahead, ?_⟩
  intro hresume index hindex habort error
  rcases Nat.lt_succ_iff_lt_or_eq.mp hindex with hearlier | rfl
  · exact h.goes hresume index hearlier habort error
  · exact hgoes habort error

end

/-- A step that is not kept is where the phase stands. -/
theorem Reaches.stands [PhaseStepSpec S] (step : S)
    (h : Reaches kind options abortFlags entry completed idx run)
    (hplan : planPhaseStep kind options step idx run ≠ .keep) :
    Stands kind options abortFlags entry completed idx run := by
  have hunended : options.resume = true → ∀ status, (run.statuses kind)[idx]? = some status →
      status.hasEnded = false := by
    intro hresume status hstatus
    by_contra hended
    rw [Bool.not_eq_false] at hended
    rw [PhaseRun.statuses, WorkflowState.statuses, List.getElem?_map] at hstatus
    obtain ⟨record, hrecord, rfl⟩ := Option.map_eq_some_iff.mp hstatus
    refine hplan (if_pos ?_)
    rw [hresume, hrecord]
    exact hended
  refine ⟨h.recorded, ?_, ?_, fun hresume => (h.fresh hresume).mono (Nat.le_succ idx),
    fun index hindex => h.ahead index (by omega), ?_, h.goes⟩
  · intro hentry
    obtain ⟨count, hcount, hended, -⟩ := h.reached hentry
    exact hended.mono hcount
  · intro hentry
    obtain ⟨count, hcount, hended, hpending⟩ := h.reached hentry
    cases hresume : options.resume with
    | false => exact (h.fresh hresume).mono (Nat.le_succ idx)
    | true =>
      intro index hindex status hstatus
      by_cases hbehind : count + 1 ≤ index
      · exact hpending index hbehind status hstatus
      · -- The step itself would have ended, and would be kept.
        obtain ⟨current, hcurrent⟩ : ∃ current, (run.statuses kind)[idx]? = some current := by
          have hlength := (List.getElem?_eq_some_iff.mp hstatus).1
          exact ⟨_, List.getElem?_eq_getElem (by omega)⟩
        have hyes := hended idx (by omega) current hcurrent
        rw [hunended hresume current hcurrent] at hyes
        cases hyes
  · intro hresume status hstatus
    exact hunended hresume status ((h.ahead idx le_rfl).trans hstatus)

/-- What the phase has come to while it goes on. -/
structure Open (outcome : PhaseOutcome) (run : PhaseRun S) : Prop where
  aborted : outcome.aborted = false
  /-- It is cancelled only if the token fired. -/
  cancelled : outcome.cancelled = true → run.cancelRequested = true

/-- What the phase came to. -/
structure Closed (kind : PhaseKind) (options : PhaseRunOptions) (abortFlags : List Bool)
    (entry : List PhaseStepStatus) (completed : Bool) (outcome : PhaseOutcome) (run : PhaseRun S) :
    Prop where
  recorded : Recorded kind options entry completed run
  /-- All steps have ended, or the phase stopped before a pending one. -/
  ended : Interrupted entry → ∃ count, EndedBefore (run.statuses kind) count ∧
    PendingFrom (run.statuses kind) count ∧ (count < entry.length →
      outcome.aborted = true ∨ options.observeCancel = true ∧ outcome.cancelled = true)
  /-- A phase is aborted by a step that must not fail. -/
  aborted : outcome.aborted = true → ∃ index error, abortFlags.getD index false = true ∧
    (run.statuses kind)[index]? = some (.failed error)
  /-- A phase is cancelled only if the token fired. -/
  cancelled : outcome.cancelled = true → run.cancelRequested = true
  /-- A step that must not fail does not fail unnoticed. -/
  goes : options.resume = false → outcome.aborted = false → outcome.cancelled = false →
    NoneAborts abortFlags (run.statuses kind) entry.length

theorem Closed.stops {outcome : PhaseOutcome}
    (h : Closed kind options abortFlags entry completed outcome run) :
    Stops kind options entry completed run := by
  refine ⟨h.recorded, fun hentry => ?_⟩
  obtain ⟨count, hended, hpending, -⟩ := h.ended hentry
  exact ⟨count, hended, hpending.mono (Nat.le_succ count)⟩

/-- The phase stops after the step, which has failed. -/
theorem Stands.closed {outcome : PhaseOutcome}
    (h : Stands kind options abortFlags entry completed idx run) (hfailed : run.FailedAt kind idx)
    (hstops : outcome.aborted = true ∨ options.observeCancel = true ∧ outcome.cancelled = true)
    (haborted : outcome.aborted = true → idx < entry.length ∧ abortFlags.getD idx false = true)
    (hcancelled : outcome.cancelled = true → run.cancelRequested = true) :
    Closed kind options abortFlags entry completed outcome run := by
  have hlast : ∀ status, (run.statuses kind)[idx]? = some status → status.hasEnded = true := by
    intro status hstatus
    obtain ⟨error, rfl⟩ := hfailed status hstatus
    rfl
  refine ⟨h.recorded, fun hentry => ⟨idx + 1, (h.before hentry).succ hlast, h.behind hentry,
    fun _ => hstops⟩, ?_, hcancelled, ?_⟩
  · intro habort
    obtain ⟨hidx, hflag⟩ := haborted habort
    rw [← h.recorded.count] at hidx
    obtain ⟨error, herror⟩ := hfailed _ (List.getElem?_eq_getElem hidx)
    exact ⟨idx, error, hflag, (List.getElem?_eq_getElem hidx).trans (congrArg some herror)⟩
  · intro _ hnot hother
    rcases hstops with habort | ⟨-, hcancel⟩
    · rw [hnot] at habort
      cases habort
    · rw [hother] at hcancel
      cases hcancel

/-- The phase stands at the step and has only just written its status. -/
structure Wrote (kind : PhaseKind) (options : PhaseRunOptions) (abortFlags : List Bool)
    (entry : List PhaseStepStatus) (completed : Bool) (idx : Nat) (status : PhaseStepStatus)
    (run after : PhaseRun S) : Prop where
  /-- The phase stands at the step. -/
  stands : Stands kind options abortFlags entry completed idx after
  written : ∀ other, (after.statuses kind)[idx]? = some other → other = status
  /-- A token that fired has fired. -/
  cancels : run.cancelRequested = true → after.cancelRequested = true

/-- A status of the step is written, saved and announced. -/
theorem Stands.writes {α : Type} {status : PhaseStepStatus} {saved : Bool → PhaseMoment S}
    {announced : PhaseMoment S} {next : PhaseM S α} {post : α → PhaseRun S → Prop}
    (h : Stands kind options abortFlags entry completed idx run)
    (hnext : ∀ after, Wrote kind options abortFlags entry completed idx status run after →
      Ensures next after post (Stops kind options entry completed)) :
    Ensures (do
      setPhaseStepStatus kind idx status
      persist saved
      announce announced
      next) run post (Stops kind options entry completed) := by
  have hset := h.touched (touches_status kind idx _ run status)
  refine .change ?_
  refine .seq ((quiet_persist _).mono (fun _ _ h => h) fun after hquiet =>
    (hset.touched hquiet.touches).stops) ?_
  intro _ stored hstored
  refine .seq ((quiet_announce stored).mono (fun _ _ h => h) fun after hquiet =>
    (hset.touched (hstored.trans hquiet).touches).stops) ?_
  intro _ told htold
  have hquiet := hstored.trans htold
  refine hnext told ⟨hset.touched hquiet.touches, ?_, hquiet.cancels⟩
  intro other hother
  rw [hquiet.statuses] at hother
  exact status_set hother

/-- A step whose written status is an end and no failure is left behind. -/
theorem Wrote.next {status : PhaseStepStatus}
    (h : Wrote kind options abortFlags entry completed idx status run after)
    (hended : status.hasEnded = true) (hfailed : ∀ error, status ≠ .failed error) :
    Reaches kind options abortFlags entry completed (idx + 1) after := by
  refine h.stands.next ?_ ?_
  · intro other hother
    rw [h.written other hother]
    exact hended
  · intro _ error hother
    exact hfailed error (h.written _ hother).symm

/-- What became of a step is recorded: the phase goes on, or it is over. -/
theorem finishPhaseStep_ensures {stepOutcome : PhaseStepOutcome} {outcome : PhaseOutcome}
    (hstands : Stands kind options abortFlags entry completed idx run)
    (hfailed : stepOutcome.hasFailed = true → run.FailedAt kind idx) (hidx : idx < entry.length)
    (hopen : Open outcome run) :
    Ensures (finishPhaseStep kind options (abortFlags.getD idx false) idx stepOutcome outcome) run
      (fun result after =>
        if result.2 = true then
          Reaches kind options abortFlags entry completed (idx + 1) after ∧ Open result.1 after
        else Closed kind options abortFlags entry completed result.1 after)
      (Stops kind options entry completed) := by
  refine .bind (.read (.pure ?_))
  split
  case isTrue hcancelled =>
      simp only [Bool.and_eq_true] at hcancelled
      obtain ⟨⟨hfails, hobserves⟩, htoken⟩ := hcancelled
      refine .pure ?_
      rw [if_neg (by simp)]
      refine hstands.closed (hfailed hfails) (Or.inr ⟨hobserves, rfl⟩) ?_ fun _ => htoken
      intro habort
      rw [hopen.aborted] at habort
      cases habort
  case isFalse =>
      split
      case isTrue hfails =>
          refine .seq ((quiet_announce run).mono (fun _ _ h => h) fun after hquiet =>
            (hstands.touched hquiet.touches).stops) ?_
          intro _ told hquiet
          have htold := hstands.touched hquiet.touches
          have hstill := (hfailed hfails).quiet hquiet
          split
          case isTrue habort =>
              refine .change (.pure ?_)
              rw [if_neg (by simp)]
              refine Stands.closed ⟨⟨htold.recorded.count, htold.recorded.kept, htold.recorded.started,
                htold.recorded.setup⟩, htold.before, htold.behind, htold.fresh, htold.ahead,
                htold.unended, htold.goes⟩ hstill (Or.inl rfl) (fun _ => ⟨hidx, habort⟩) ?_
              exact fun hcancelled => hquiet.cancels (hopen.cancelled hcancelled)
          case isFalse hgoes =>
              refine .pure ?_
              rw [if_pos rfl]
              refine ⟨htold.next ?_ fun habort => absurd habort hgoes, hopen.aborted, fun hcancelled =>
                hquiet.cancels (hopen.cancelled hcancelled)⟩
              intro status hstatus
              obtain ⟨error, rfl⟩ := hstill status hstatus
              rfl
      case isFalse =>
          refine hstands.writes fun told hwrote => .pure ?_
          rw [if_pos rfl]
          exact ⟨hwrote.next rfl nofun, hopen.aborted, fun hcancelled =>
            hwrote.cancels (hopen.cancelled hcancelled)⟩

theorem planPhaseStep_stop [PhaseStepSpec S] {step : S}
    (hplan : planPhaseStep kind options step idx run = .stop) :
    options.observeCancel = true ∧ run.cancelRequested = true := by
  unfold planPhaseStep at hplan
  split at hplan
  · cases hplan
  · split at hplan
    case isTrue hstop => exact Bool.and_eq_true_iff.mp hstop
    case isFalse =>
        split at hplan
        · cases hplan
        · cases hplan

/-- Only a step that has ended is kept. -/
theorem planPhaseStep_keep [PhaseStepSpec S] {step : S}
    (hplan : planPhaseStep kind options step idx run = .keep) :
    options.resume = true ∧ ∀ status, (run.statuses kind)[idx]? = some status →
      status.hasEnded = true := by
  unfold planPhaseStep at hplan
  split at hplan
  case isTrue hkeep =>
      obtain ⟨hresume, hany⟩ := Bool.and_eq_true_iff.mp hkeep
      refine ⟨hresume, fun status hstatus => ?_⟩
      rw [PhaseRun.statuses, WorkflowState.statuses, List.getElem?_map] at hstatus
      obtain ⟨record, hrecord, rfl⟩ := Option.map_eq_some_iff.mp hstatus
      rw [hrecord] at hany
      exact hany
  case isFalse =>
      split at hplan
      · cases hplan
      · split at hplan
        · cases hplan
        · cases hplan

/-- A step that is kept is left behind. -/
theorem Reaches.keep (h : Reaches kind options abortFlags entry completed idx run)
    (hresume : options.resume = true)
    (hlast : ∀ status, (run.statuses kind)[idx]? = some status → status.hasEnded = true) :
    Reaches kind options abortFlags entry completed (idx + 1) run := by
  have hnever : options.resume ≠ false := by simp [hresume]
  refine ⟨h.recorded, ?_, fun hnot => absurd hnot hnever, fun index hindex => h.ahead index (by omega),
    fun hnot => absurd hnot hnever⟩
  intro hentry
  obtain ⟨count, hcount, hended, hpending⟩ := h.reached hentry
  by_cases hless : idx < count
  · exact ⟨count, hless, hended, hpending⟩
  · obtain rfl : count = idx := by omega
    exact ⟨count + 1, le_rfl, hended.succ hlast, hpending.mono (Nat.le_succ _)⟩

/-- A phase that has passed its last step is over. -/
theorem Reaches.finished {outcome : PhaseOutcome}
    (h : Reaches kind options abortFlags entry completed entry.length run) (hopen : Open outcome run) :
    Closed kind options abortFlags entry completed outcome run := by
  refine ⟨h.recorded, fun hentry => ?_, ?_, hopen.cancelled, fun hresume _ _ => h.goes hresume⟩
  · obtain ⟨count, hcount, hended, -⟩ := h.reached hentry
    refine ⟨count, hended, ?_, fun hless => by omega⟩
    intro index hindex status hstatus
    have hlast := (List.getElem?_eq_some_iff.mp hstatus).1
    rw [h.recorded.count] at hlast
    omega
  · intro habort
    rw [hopen.aborted] at habort
    cases habort

/-- A phase that a cancel stops before a step is over. -/
theorem Reaches.cancelled {outcome : PhaseOutcome}
    (h : Reaches kind options abortFlags entry completed idx run) (hopen : Open outcome run)
    (hresume : options.resume = false) (hobserves : options.observeCancel = true)
    (htoken : run.cancelRequested = true) :
    Closed kind options abortFlags entry completed { outcome with cancelled := true } run := by
  refine ⟨h.recorded, fun hentry => ?_, ?_, fun _ => htoken, fun _ _ hnot => ?_⟩
  · obtain ⟨count, hcount, hended, -⟩ := h.reached hentry
    exact ⟨idx, hended.mono hcount, h.fresh hresume, fun _ => Or.inr ⟨hobserves, rfl⟩⟩
  · intro habort
    rw [hopen.aborted] at habort
    cases habort
  · cases hnot

/-- The steps that are left are run in order. -/
theorem runPhaseSteps_ensures [PhaseStepSpec S] {steps : List S}
    {onFailureConfigs : List (Option RemediationConfig)} (remaining : List S) (outcome : PhaseOutcome)
    (hoptions : options.resume = true → options.observeCancel = false)
    (hreaches : Reaches kind options abortFlags entry completed idx run) (hopen : Open outcome run)
    (hlength : idx + remaining.length = entry.length) :
    Ensures (runPhaseSteps engine kind steps abortFlags onFailureConfigs options
      (remaining.zipIdx idx) outcome) run
      (fun outcome after => Closed kind options abortFlags entry completed outcome after)
      (Stops kind options entry completed) := by
  induction remaining generalizing idx outcome run with
  | nil =>
    rw [List.length_nil, Nat.add_zero] at hlength
    subst hlength
    exact .pure (hreaches.finished hopen)
  | cons step rest ih =>
    rw [List.length_cons] at hlength
    have hrest : (idx + 1) + rest.length = entry.length := by omega
    have hnoted : Open { outcome with
        cancelled := outcome.cancelled || (kind == .teardown && run.cancelRequested) } run := by
      refine ⟨hopen.aborted, fun hcancelled => ?_⟩
      rcases Bool.or_eq_true_iff.mp hcancelled with hbefore | hnow
      · exact hopen.cancelled hbefore
      · exact (Bool.and_eq_true_iff.mp hnow).2
    rw [List.zipIdx_cons]
    refine .read ?_
    dsimp only
    cases hplan : planPhaseStep kind options step idx run with
    | keep =>
      obtain ⟨hresume, hended⟩ := planPhaseStep_keep hplan
      exact ih outcome (hreaches.keep hresume hended) hopen hrest
    | stop =>
      obtain ⟨hobserves, htoken⟩ := planPhaseStep_stop hplan
      have hresume : options.resume = false := by
        cases hresume : options.resume with
        | false => rfl
        | true => rw [hoptions hresume] at hobserves; cases hobserves
      exact .pure (hreaches.cancelled hopen hresume hobserves htoken)
    | skip =>
      have hstands := Reaches.stands step hreaches (by rw [hplan]; simp)
      refine hstands.writes fun told hwrote => ?_
      refine ih _ (hwrote.next rfl nofun) ⟨hnoted.aborted, fun hcancelled => ?_⟩ hrest
      exact hwrote.cancels (hnoted.cancelled hcancelled)
    | run =>
      have hstands := Reaches.stands step hreaches (by rw [hplan]; simp)
      refine hstands.writes fun told hwrote => ?_
      have hstarted := hwrote.stands
      refine .seq ((ends_runPhaseStep step told).mono (fun _ _ h => h) fun after htouched =>
        (hstarted.touched htouched).stops) ?_
      rintro stepOutcome ended ⟨htouched, hfailed⟩
      refine .seq (finishPhaseStep_ensures (hstarted.touched htouched) hfailed (by omega)
        ⟨hnoted.aborted, fun hcancelled =>
          htouched.cancels (hwrote.cancels (hnoted.cancelled hcancelled))⟩) ?_
      rintro ⟨result, goesOn⟩ finished hfinished
      cases goesOn with
      | true =>
        rw [if_pos rfl] at hfinished
        exact ih result hfinished.1 hfinished.2 hrest
      | false =>
        rw [if_neg (by simp)] at hfinished
        exact .pure hfinished

end positions

/-! ## The phase -/

/-- What holds wherever a phase run stops. -/
structure Stopped (kind : PhaseKind) (options : PhaseRunOptions) (entry : List PhaseStepStatus)
    (run : PhaseRun S) : Prop where
  /-- What was an interrupted phase still is one. -/
  interrupted : Interrupted entry → Interrupted (run.statuses kind)
  kept : options.resume = true → ∀ (index : Nat) (status : PhaseStepStatus), entry[index]? = some status →
    status.hasEnded = true → (run.statuses kind)[index]? = some status
  /-- A resumed phase without repairs starts nothing that has ended. -/
  started : options.resume = true → options.allowRemediation = false → ∀ command ∈ run.started,
    ∀ status, entry[command.index]? = some status → status.hasEnded = false

/-- The phase is left after its last step. -/
structure Leaves (kind : PhaseKind) (outcome : PhaseOutcome) (last after : PhaseRun S) : Prop where
  state : after.state = last.state.leavePhase kind outcome
  started : after.started = last.started
  /-- A token that fired has fired. -/
  cancels : last.cancelRequested = true → after.cancelRequested = true

section phase

variable {options : PhaseRunOptions} {abortFlags : List Bool} {entry : List PhaseStepStatus}
  {completed : Bool} {outcome : PhaseOutcome} {after : PhaseRun S}

theorem Stops.stopped (h : Stops kind options entry completed run) : Stopped kind options entry run :=
  ⟨h.2, h.1.kept, h.1.started⟩

theorem Leaves.statuses (h : Leaves kind outcome run after) :
    after.statuses kind = run.statuses kind := by
  rw [PhaseRun.statuses, h.state, WorkflowState.statuses_leavePhase]
  rfl

theorem Leaves.stopped (h : Leaves kind outcome run after) (hrun : Stopped kind options entry run) :
    Stopped kind options entry after := by
  refine ⟨?_, ?_, ?_⟩
  · rw [h.statuses]
    exact hrun.interrupted
  · rw [h.statuses]
    exact hrun.kept
  · rw [h.started]
    exact hrun.started

/-- A late cancellation of teardown is part of what it came to. -/
theorem Closed.noted (h : Closed kind options abortFlags entry completed outcome run) (late : Bool)
    (hlate : late = true → run.cancelRequested = true) :
    Closed kind options abortFlags entry completed
      { outcome with cancelled := outcome.cancelled || late } run := by
  refine ⟨h.recorded, ?_, h.aborted, ?_, ?_⟩
  · intro hentry
    obtain ⟨count, hended, hpending, hstops⟩ := h.ended hentry
    refine ⟨count, hended, hpending, fun hless => ?_⟩
    rcases hstops hless with habort | ⟨hobserves, hcancelled⟩
    · exact Or.inl habort
    · exact Or.inr ⟨hobserves, by rw [hcancelled]; rfl⟩
  · intro hcancelled
    rcases Bool.or_eq_true_iff.mp hcancelled with hbefore | hnow
    · exact h.cancelled hbefore
    · exact hlate hnow
  · intro hresume hnot hother
    exact h.goes hresume hnot (Bool.or_eq_false_iff.mp hother).1

variable [PhaseStepSpec S]

/-- A phase that is entered comes to its first step. -/
theorem reaches_start (abortFlags : List Bool) {steps : List S} {state : WorkflowState} (cancelled : Bool)
    (hentry : (state.enterPhase kind steps options.resume).statuses kind = entry) :
    Reaches kind options abortFlags entry state.setupCompleted 0
      { (PhaseRun.start state cancelled : PhaseRun S) with
        state := state.enterPhase kind steps options.resume } := by
  have hsame : PhaseRun.statuses { (PhaseRun.start state cancelled : PhaseRun S) with
      state := state.enterPhase kind steps options.resume } kind = entry := hentry
  refine ⟨⟨by rw [hsame], ?_, ?_, ?_⟩, ?_, ?_, ?_, ?_⟩
  · intro _ index status hstatus _
    rw [hsame]
    exact hstatus
  · intro _ _ command hcommand
    cases hcommand
  · exact WorkflowState.setupCompleted_enterPhase state kind steps options.resume
  · intro hinterrupted
    obtain ⟨count, hended, hpending⟩ := hinterrupted
    rw [hsame]
    exact ⟨count, Nat.zero_le count, hended, hpending⟩
  · intro hresume index _ status hstatus
    rw [hsame, ← hentry, WorkflowState.statuses_enterPhase, hresume, if_neg (by simp)] at hstatus
    exact List.eq_of_mem_replicate (List.mem_of_getElem? hstatus)
  · intro index _
    rw [hsame]
  · intro _ index hindex
    omega

/-- A phase run takes the steps in order and is left. -/
theorem runPhaseWith_ensures {onFailureConfigs : List (Option RemediationConfig)} (steps : List S)
    (state : WorkflowState) (cancelled : Bool)
    (hoptions : options.resume = true → options.observeCancel = false)
    (hentry : (state.enterPhase (PhaseStepSpec.kind S)
      (steps.map (PhaseStepSpec.substitute engine.templates engine.workItemContext))
      options.resume).statuses (PhaseStepSpec.kind S) = entry) :
    Ensures (runPhaseWith engine steps abortFlags onFailureConfigs options) (.start state cancelled)
      (fun outcome after => ∃ last,
        Closed (PhaseStepSpec.kind S) options abortFlags entry state.setupCompleted outcome last ∧
          Leaves (PhaseStepSpec.kind S) outcome last after)
      (Stopped (PhaseStepSpec.kind S) options entry) := by
  have hstart := reaches_start abortFlags cancelled hentry
  have hlength : entry.length = steps.length := by
    rw [← hentry, WorkflowState.statuses_enterPhase, List.length_map]
    split
    case isTrue hsame => exact hsame.2
    case isFalse => exact List.length_replicate
  refine .seq (.bind (.modifyState ((quiet_persist _).mono
    (fun _ after hquiet => hstart.quiet hquiet) fun after hquiet =>
      (hstart.quiet hquiet).stops.stopped))) ?_
  intro _ entered hentered
  refine .seq ((runPhaseSteps_ensures _ {} hoptions hentered ⟨rfl, fun hnot => ?_⟩ ?_).mono
    (fun _ _ h => h) fun _ h => h.stopped) ?_
  · cases hnot
  · rw [Nat.zero_add, List.length_map, hlength]
  intro outcome last hclosed
  refine .bind (.read (.pure ?_))
  dsimp only
  have hnoted := hclosed.noted (PhaseStepSpec.kind S == .teardown && last.cancelRequested)
    fun hlate => (Bool.and_eq_true_iff.mp hlate).2
  have hleaves : ∀ after : PhaseRun S, Quiet { last with
      state := last.state.leavePhase (PhaseStepSpec.kind S) { outcome with
        cancelled := outcome.cancelled || PhaseStepSpec.kind S == .teardown && last.cancelRequested } }
      after → Leaves (PhaseStepSpec.kind S) { outcome with
        cancelled := outcome.cancelled || PhaseStepSpec.kind S == .teardown && last.cancelRequested }
        last after :=
    fun after hquiet => ⟨hquiet.state, hquiet.started, hquiet.cancels⟩
  refine .seq (.bind (.modifyState ((quiet_persist _).mono
    (fun _ after hquiet => hleaves after hquiet) fun after hquiet =>
      (hleaves after hquiet).stopped hnoted.stops.stopped))) ?_
  intro _ after hleft
  exact .pure ⟨last, hnoted, hleft⟩

end phase

/-! ## The runs of a phase -/

/-- What a phase run that returned leaves behind. -/
structure Settled (kind : PhaseKind) (abortFlags : List Bool) (count : Nat) (before : WorkflowState)
    (outcome : PhaseOutcome) (after : WorkflowState) : Prop where
  records : (after.statuses kind).length = count
  /-- The first steps have ended.  The others are pending, and there are others only if the phase was
  aborted, or setup was cancelled. -/
  ended : ∃ ended, EndedBefore (after.statuses kind) ended ∧ PendingFrom (after.statuses kind) ended ∧
    (ended < count → outcome.aborted = true ∨ kind = .setup ∧ outcome.cancelled = true)
  /-- A phase is aborted by a step that must not fail. -/
  aborted : outcome.aborted = true → ∃ index error, abortFlags.getD index false = true ∧
    (after.statuses kind)[index]? = some (.failed error)
  /-- Setup is marked as completed when it was neither aborted nor cancelled. -/
  setup : kind = .setup → (after.setupCompleted = true ↔ before.setupCompleted = true ∨
    outcome.aborted = false ∧ outcome.cancelled = false)

/-- Nothing that had ended is started again or changes. -/
structure RepeatsNothing (kind : PhaseKind) (before : WorkflowState) (after : PhaseRun S) : Prop where
  started : ∀ command ∈ after.started, ∀ status, (before.statuses kind)[command.index]? = some status →
    status.hasEnded = false
  /-- The steps that had ended. -/
  kept : ∀ (index : Nat) (status : PhaseStepStatus), (before.statuses kind)[index]? = some status →
    status.hasEnded = true → (after.statuses kind)[index]? = some status

section settled

variable {options : PhaseRunOptions} {abortFlags : List Bool} {entry : List PhaseStepStatus}
  {outcome : PhaseOutcome} {state : WorkflowState} {last after : PhaseRun S}

theorem Closed.settled (h : Closed kind options abortFlags entry state.setupCompleted outcome last)
    (hleft : Leaves kind outcome last after) (hentry : Interrupted entry)
    (hobserves : options.observeCancel = true → kind = .setup) :
    Settled kind abortFlags entry.length state outcome after.state := by
  have hsame : after.state.statuses kind = last.statuses kind := hleft.statuses
  refine ⟨by rw [hsame, h.recorded.count], ?_, ?_, ?_⟩
  · obtain ⟨count, hended, hpending, hstops⟩ := h.ended hentry
    rw [hsame]
    refine ⟨count, hended, hpending, fun hless => ?_⟩
    rcases hstops hless with habort | ⟨hobserve, hcancelled⟩
    · exact Or.inl habort
    · exact Or.inr ⟨hobserves hobserve, hcancelled⟩
  · rw [hsame]
    exact h.aborted
  · intro hkind
    have hcompleted := h.recorded.setup
    rw [hleft.state, hkind, WorkflowState.leavePhase, ← hcompleted]
    cases outcome.aborted with
    | true => simp
    | false =>
      cases outcome.cancelled with
      | true => simp
      | false => simp [WorkflowState.setPhaseCompleted]

theorem interrupted_replicate (count : Nat) :
    Interrupted (List.replicate count PhaseStepStatus.pending) := by
  refine PendingFrom.interrupted ?_
  intro index _ status hstatus
  exact List.eq_of_mem_replicate (List.mem_of_getElem? hstatus)

variable [PhaseStepSpec S]

/-- The statuses with which a phase is entered. -/
def entryStatuses (engine : PhaseEngine) (steps : List S) (state : WorkflowState) (resume : Bool) :
    List PhaseStepStatus :=
  (state.enterPhase (PhaseStepSpec.kind S)
    (steps.map (PhaseStepSpec.substitute engine.templates engine.workItemContext)) resume).statuses
      (PhaseStepSpec.kind S)

theorem entryStatuses_eq (steps : List S) (state : WorkflowState) (resume : Bool) :
    entryStatuses engine steps state resume =
      if resume = true ∧ (state.statuses (PhaseStepSpec.kind S)).length = steps.length then
        state.statuses (PhaseStepSpec.kind S)
      else List.replicate steps.length .pending := by
  rw [entryStatuses, WorkflowState.statuses_enterPhase, List.length_map]

theorem entryStatuses_length (engine : PhaseEngine) (steps : List S) (state : WorkflowState)
    (resume : Bool) :
    (entryStatuses engine steps state resume).length = steps.length := by
  rw [entryStatuses_eq]
  split
  case isTrue hsame => exact hsame.2
  case isFalse => exact List.length_replicate

/-- A phase that starts over is entered like one that has not begun. -/
theorem entryStatuses_fresh (steps : List S) (state : WorkflowState) :
    Interrupted (entryStatuses engine steps state false) := by
  rw [entryStatuses_eq, if_neg (by simp)]
  exact interrupted_replicate _

theorem entryStatuses_resumed (steps : List S)
    (hstate : Interrupted (state.statuses (PhaseStepSpec.kind S))) :
    Interrupted (entryStatuses engine steps state true) := by
  rw [entryStatuses_eq]
  split
  · exact hstate
  · exact interrupted_replicate _

/-- A phase that starts over settles, whatever was recorded of it before. -/
theorem starts_over {abortFlags : List Bool} {onFailureConfigs : List (Option RemediationConfig)}
    {options : PhaseRunOptions} (engine : PhaseEngine) (steps : List S) (state : WorkflowState)
    (cancelled : Bool) (hfresh : options.resume = false)
    (hobserves : options.observeCancel = true → PhaseStepSpec.kind S = .setup) :
    Ensures (runPhaseWith engine steps abortFlags onFailureConfigs options) (.start state cancelled)
      (fun outcome after =>
        Interrupted (after.statuses (PhaseStepSpec.kind S)) ∧
        Settled (PhaseStepSpec.kind S) abortFlags steps.length state outcome after.state ∧
        (outcome.cancelled = true → after.cancelRequested = true) ∧
        (outcome.aborted = false → outcome.cancelled = false →
          NoneAborts abortFlags (after.statuses (PhaseStepSpec.kind S)) steps.length))
      (fun after => Interrupted (after.statuses (PhaseStepSpec.kind S))) := by
  have hresume : options.resume = true → options.observeCancel = false := by
    intro hnot
    rw [hfresh] at hnot
    cases hnot
  have hentry : Interrupted (entryStatuses engine steps state options.resume) := by
    rw [hfresh]
    exact entryStatuses_fresh steps state
  refine (runPhaseWith_ensures steps state cancelled hresume rfl).mono ?_ fun after hstopped =>
    hstopped.interrupted hentry
  rintro outcome after ⟨last, hclosed, hleft⟩
  have hsettled := hclosed.settled hleft hentry hobserves
  have hlength := entryStatuses_length engine steps state options.resume
  refine ⟨(hleft.stopped hclosed.stops.stopped).interrupted hentry, ?_, fun hcancelled =>
    hleft.cancels (hclosed.cancelled hcancelled), ?_⟩
  · rw [← hlength]
    exact hsettled
  · intro hnot hother
    rw [← hlength, hleft.statuses]
    exact hclosed.goes hfresh hnot hother

end settled

/-- Wherever a phase run stops, at most one step is neither pending nor at its end, and when it returns the
steps have ended, up to pending ones after an abort or a cancelled setup; setup is marked as completed
exactly when it was neither aborted nor cancelled.  A phase that is run again starts over.  Only an
interrupted teardown of a cancelled run goes on where it stopped: it repeats no step that has ended. -/
theorem phase_runs_settle (engine : PhaseEngine) :
    (∀ (S : Type) [PhaseStepSpec S] (steps : List S) (abortFlags : List Bool)
        (onFailureConfigs : List (Option RemediationConfig)) (state : WorkflowState) (cancelled : Bool),
      Ensures (engine.runPhase steps abortFlags onFailureConfigs) (.start state cancelled)
        (fun outcome after =>
          Interrupted (after.statuses (PhaseStepSpec.kind S)) ∧
          Settled (PhaseStepSpec.kind S) abortFlags steps.length state outcome after.state ∧
          (outcome.cancelled = true → after.cancelRequested = true) ∧
          (outcome.aborted = false → outcome.cancelled = false →
            NoneAborts abortFlags (after.statuses (PhaseStepSpec.kind S)) steps.length))
        (fun after => Interrupted (after.statuses (PhaseStepSpec.kind S)))) ∧
    (∀ (steps : List TeardownStep) (abortFlags : List Bool) (state : WorkflowState) (cancelled : Bool),
      Ensures (engine.runTeardownCancelled steps abortFlags) (.start state cancelled)
        (fun outcome after => Interrupted (after.statuses .teardown) ∧
          Settled .teardown abortFlags steps.length state outcome after.state)
        (fun after => Interrupted (after.statuses .teardown))) ∧
    (∀ (steps : List TeardownStep) (abortFlags : List Bool) (state : WorkflowState) (cancelled : Bool),
      Ensures (engine.resumeTeardownCancelled steps abortFlags) (.start state cancelled)
        (fun outcome after => (Interrupted (state.statuses .teardown) →
            Interrupted (after.statuses .teardown) ∧
            Settled .teardown abortFlags steps.length state outcome after.state) ∧
          ((state.statuses .teardown).length = steps.length → RepeatsNothing .teardown state after))
        (fun after => (Interrupted (state.statuses .teardown) → Interrupted (after.statuses .teardown)) ∧
          ((state.statuses .teardown).length = steps.length → RepeatsNothing .teardown state after))) := by
  refine ⟨?_, ?_, ?_⟩
  · intro S _ steps abortFlags onFailureConfigs state cancelled
    exact starts_over engine steps state cancelled rfl fun hobserves => by simpa using hobserves
  · intro steps abortFlags state cancelled
    refine .seq ((starts_over engine steps state cancelled rfl ?_).mono (fun _ _ h => h)
      fun _ h => h) ?_
    · intro hobserves
      cases hobserves
    · rintro outcome after ⟨hinterrupted, hsettled, -, -⟩
      refine .pure ⟨hinterrupted, hsettled.records, ?_, hsettled.aborted, fun hkind => ?_⟩
      · obtain ⟨ended, hended, hpending, hstops⟩ := hsettled.ended
        refine ⟨ended, hended, hpending, fun hless => ?_⟩
        rcases hstops hless with habort | ⟨hkind, -⟩
        · exact Or.inl habort
        · cases hkind
      · cases hkind
  · intro steps abortFlags state cancelled
    have hrepeats : ∀ after : PhaseRun TeardownStep, (state.statuses .teardown).length = steps.length →
        Stopped .teardown { resume := true, skip := steps.map fun step => !step.runsWhenCancelled }
          (entryStatuses engine steps state true) after → RepeatsNothing .teardown state after := by
      intro after hlength hstopped
      have hentry : entryStatuses engine steps state true = state.statuses .teardown := by
        rw [entryStatuses_eq]
        exact if_pos ⟨rfl, hlength⟩
      rw [hentry] at hstopped
      exact ⟨hstopped.started rfl rfl, hstopped.kept rfl⟩
    refine (runPhaseWith_ensures steps state cancelled (fun _ => rfl) rfl).mono ?_ ?_
    · rintro outcome after ⟨last, hclosed, hleft⟩
      have hstopped := hleft.stopped hclosed.stops.stopped
      refine ⟨fun hstate => ?_, fun hlength => hrepeats after hlength hstopped⟩
      have hentry : Interrupted (entryStatuses engine steps state true) :=
        entryStatuses_resumed steps hstate
      refine ⟨hstopped.interrupted hentry, ?_⟩
      have hsettled := hclosed.settled hleft hentry (fun hobserves => nomatch hobserves)
      rw [← entryStatuses_length engine steps state true]
      exact hsettled
    · intro after hstopped
      exact ⟨fun hstate => hstopped.interrupted (entryStatuses_resumed steps hstate),
        fun hlength => hrepeats after hlength hstopped⟩

end PhaseEngine

/-- Setup steps of which the second must not fail, and fails. -/
def abortedSetup : List PhaseAnswer :=
  [saves, saves, goesOn, startsContainer, exits 0 "", saves, goesOn,
    saves, goesOn, startsContainer, exits 1 "no space left", saves, goesOn, saves]

/-- The start of the first step of a phase. -/
def firstStepStarts : List PhaseAnswer := [saves, saves, goesOn, startsContainer]

/-- A setup phase that was aborted repeats the step that succeeded when the run is resumed. -/
theorem resumed_setup_repeats :
    ¬ ∀ (engine : PhaseEngine) (steps : List SetupStep) (abortFlags : List Bool)
        (onFailureConfigs : List (Option RemediationConfig)) (state : WorkflowState)
        (answers again : List PhaseAnswer) (outcome : PhaseOutcome) (left : PhaseRun SetupStep),
      (engine.runPhase steps abortFlags onFailureConfigs ⟨answers, .start state false⟩).1 =
          .ok outcome →
        (engine.runPhase steps abortFlags onFailureConfigs ⟨answers, .start state false⟩).2.state =
          left →
        ∀ command ∈ (engine.runPhase steps abortFlags onFailureConfigs
            ⟨again, .start left.state false⟩).2.state.started,
          ∀ status, (left.statuses .setup)[command.index]? = some status → status.hasEnded = false := by
  intro hnever
  have hrepeated := hnever plainEngine [.runShell "make deps" none, .runShell "make" none] [true, true] []
    (.new 0 "release" [] "" none) abortedSetup firstStepStarts _ _ rfl rfl _ List.mem_cons_self
    .succeeded rfl
  cases hrepeated

end Awman.Engine
