import Awman.TaskEvaluations

/-!
# The recorded files of a run

A run records its workflow and the state file of that as soon as the workflow starts.  Whatever ends
the run writes the same two columns from what it knows: only an executed workflow knows the files.
An end that a restarted daemon records leaves the columns alone.
-/

namespace Awman.Tasks

open Session Interleaving

variable {store : Store} {faults : Faults} {run row : Run} {tidings : Tidings} {call : Call}
  {config : Config Store Call} {event : Event Tidings Call}

/-- The row records a workflow or a state file. -/
def Run.Recorded (run : Run) : Prop :=
  run.workflowPath.isSome = true ∨ run.workflowStatePath.isSome = true

/-- Two rows record the same files. -/
def Run.SameFiles (run row : Run) : Prop :=
  row.workflowPath = run.workflowPath ∧ row.workflowStatePath = run.workflowStatePath

namespace Operation

/-- The identifier of a run that an operation may open. -/
def Opens : Operation → Text → Prop
  | .startRun runId .., id => id = runId
  | _, _ => False

/-- Every run but a new one has the files it had. -/
def KeepsFiles (new : Text → Prop) (store after : Store) : Prop :=
  ∀ row ∈ after.runs, (∃ run ∈ store.runs, run.id = row.id ∧ run.SameFiles row) ∨ new row.id

instance (new : Text → Prop) : IsPreorder Store (KeepsFiles new) where
  refl _ row hrow := Or.inl ⟨row, hrow, rfl, rfl, rfl⟩
  trans _ _ _ hfirst hsecond row hrow := by
    rcases hsecond row hrow with ⟨run, hrun, hid, hpath, hstate⟩ | hnew
    · rcases hfirst run hrun with ⟨old, hold, holdId, holdPath, holdState⟩ | hnew
      · exact Or.inl ⟨old, hold, holdId.trans hid, hpath.trans holdPath, hstate.trans holdState⟩
      · exact Or.inr (hid ▸ hnew)
    · exact Or.inr hnew

/-- An operation that is not about the row of one run leaves the files of every run. -/
theorem keepsFiles {work : Operation} (h : work.isOfRun = false) (faults : Faults) (store : Store) :
    KeepsFiles work.Opens store (work.after faults store) := by
  refine keeps ?_ ?_
  · intro statement hexecutes store rows after happly row hrow
    cases statement with
    | insertTask task =>
      obtain ⟨hid, hname, rfl⟩ := Statement.apply_insertTask happly
      exact Or.inl ⟨row, hrow, rfl, rfl, rfl⟩
    | updateTasks key clause =>
      obtain rfl := Statement.apply_updateTasks happly
      exact Or.inl ⟨row, hrow, rfl, rfl, rfl⟩
    | deleteTask | deleteRuns => cases hexecutes
    | insertRun new =>
      obtain ⟨hid, htask, rfl⟩ := Statement.apply_insertRun happly
      rcases List.mem_append.mp hrow with hold | hnew
      · exact Or.inl ⟨row, hold, rfl, rfl, rfl⟩
      · obtain rfl := List.mem_singleton.mp hnew
        cases hexecutes
        exact Or.inr rfl
    | updateRuns key clause =>
      cases hexecutes with
      | finishRun | setWorkflowStatePath => cases h
      | reconcile now =>
        obtain rfl := Statement.apply_updateRuns happly
        obtain ⟨old, hold, rfl⟩ := Store.mem_setRuns hrow
        refine Or.inl ⟨old, hold, ?_⟩
        split <;> exact ⟨rfl, rfl, rfl⟩
  · intro name hoperation store task hruns hnamed row hrow
    exact Or.inl ⟨row, (List.mem_filter.mp hrow).1, rfl, rfl, rfl⟩

/-- A run that is there keeps its files in such an operation. -/
theorem files_after {work : Operation} (h : work.isOfRun = false) (hrun : run ∈ store.runs)
    (hrow : row ∈ (work.after faults store).runs) (hid : row.id = run.id) : run.SameFiles row := by
  have hopens : work.Opens row.id → work.after faults store = store := by
    intro hnew
    cases work with
    | startRun runId taskId sessionId startedAt unmetEnv =>
      have hknown : runId ∈ store.runs.map Run.id := by
        obtain rfl : row.id = runId := hnew
        rw [hid]
        exact List.mem_map_of_mem hrun
      obtain ⟨error, hcall⟩ := startRunWithEnv_refused faults runId taskId sessionId startedAt
        unmetEnv store (Or.inr (Or.inl hknown))
      rw [Operation.after, Session.after, session, call_discard, hcall]
    | create | writeColumns | setStatus | delete | requestTrigger | finishRun | setBackoff
      | setWorkflowStatePath | reconcile => cases hnew
  rcases keepsFiles h faults store row hrow with ⟨old, hold, holdId, hfiles⟩ | hnew
  · rw [← store.run_eq hold hrun (holdId.trans hid)]
    exact hfiles
  · rw [hopens hnew] at hrow
    rw [store.run_eq hrow hrun hid]
    exact ⟨rfl, rfl⟩

/-- An end is recorded on the run that is still in flight. -/
theorem after_finishRun (faults : Faults) (runId : Text) (status : RunStatus) (detail : RunDetail)
    (finishedAt : Instant) (store : Store) :
    (Operation.finishRun runId status detail finishedAt).after faults store =
      if faults 0 then store
      else store.setRuns { id := some runId, running := true }
        { status := some status, workflowPath := some detail.workflowPath
          workflowStatePath := some detail.workflowStatePath, error := some detail.error
          finishedAt := some finishedAt, reason := some detail.reason } := by
  rw [Operation.after, Session.after, session, Tasks.finishRun, call_discard, call_bind,
    call_execute]
  by_cases hfault : faults 0 = true
  · rw [if_pos hfault, if_pos hfault]
  · rw [if_neg hfault, if_neg hfault]
    rfl

/-- The files are recorded on one run. -/
theorem after_setWorkflowStatePath (faults : Faults) (runId : Text)
    (workflowPath workflowStatePath : Option Text) (store : Store) :
    (Operation.setWorkflowStatePath runId workflowPath workflowStatePath).after faults store =
      if faults 0 then store
      else store.setRuns { id := some runId }
        { workflowPath := some workflowPath, workflowStatePath := some workflowStatePath } := by
  rw [Operation.after, Session.after, session, Tasks.setWorkflowStatePath, call_discard,
    call_execute]
  by_cases hfault : faults 0 = true
  · rw [if_pos hfault, if_pos hfault]
  · rw [if_neg hfault, if_neg hfault]
    rfl

/-- An end leaves the files of a run if it does not reach the row, or knows the files itself. -/
theorem finishRun_files_iff {runId : Text} {status : RunStatus} {detail : RunDetail}
    {finishedAt : Instant} (hrun : run ∈ store.runs) :
    (∀ row ∈ ((Operation.finishRun runId status detail finishedAt).after faults store).runs,
      row.id = run.id → run.SameFiles row) ↔
      faults 0 = true ∨ run.id ≠ runId ∨ run.status ≠ .running ∨
        detail.workflowPath = run.workflowPath ∧
          detail.workflowStatePath = run.workflowStatePath := by
  rw [after_finishRun]
  by_cases hfault : faults 0 = true
  · rw [if_pos hfault]
    refine iff_of_true ?_ (Or.inl hfault)
    intro row hrow hid
    rw [store.run_eq hrow hrun hid]
    exact ⟨rfl, rfl⟩
  · rw [if_neg hfault, or_iff_right hfault]
    have hmem := List.mem_map_of_mem (f := fun run : Run =>
      if RunKey.names { id := some runId, running := true } run then
        RunSet.apply { status := some status, workflowPath := some detail.workflowPath
                       workflowStatePath := some detail.workflowStatePath
                       error := some detail.error, finishedAt := some finishedAt
                       reason := some detail.reason } run
      else run) hrun
    by_cases hkey : RunKey.names { id := some runId, running := true } run = true
    · rw [if_pos hkey] at hmem
      simp only [RunKey.names, Option.all_some, Bool.and_eq_true, decide_eq_true_eq, Bool.not_true,
        Bool.false_or] at hkey
      obtain ⟨hid, hrunning⟩ := hkey
      rw [or_iff_right (not_not.mpr hid), or_iff_right (not_not.mpr hrunning)]
      constructor
      · intro hsame
        exact hsame _ hmem rfl
      · intro hdetail row hrow hrowId
        rw [Store.run_eq hrow hmem hrowId]
        exact hdetail
    · rw [if_neg hkey] at hmem
      refine iff_of_true ?_ ?_
      · intro row hrow hrowId
        rw [Store.run_eq hrow hmem hrowId]
        exact ⟨rfl, rfl⟩
      · by_contra hall
        simp only [not_or, not_not] at hall
        obtain ⟨hid, hrunning, -⟩ := hall
        exact hkey (by simp [RunKey.names, hid, hrunning])

/-- Recording the files of a run leaves those of every other one. -/
theorem setWorkflowStatePath_files {runId : Text} {workflowPath workflowStatePath : Option Text}
    (hrun : run ∈ store.runs) (hother : runId ≠ run.id)
    (hrow : row ∈ ((Operation.setWorkflowStatePath runId workflowPath workflowStatePath).after
      faults store).runs) (hid : row.id = run.id) : run.SameFiles row := by
  rw [after_setWorkflowStatePath] at hrow
  split at hrow
  · rw [store.run_eq hrow hrun hid]
    exact ⟨rfl, rfl⟩
  · obtain ⟨old, hold, rfl⟩ := Store.mem_setRuns hrow
    have hsame : old = run := by
      refine store.run_eq hold hrun ?_
      rw [← hid]
      split <;> rfl
    subst hsame
    have hkey : RunKey.names { id := some runId } old = false := by
      simp [RunKey.names, hother.symm]
    rw [hkey]
    exact ⟨rfl, rfl⟩

end Operation

/-! ## Ends of a run -/

namespace Call

/-- The run that a step ends, with the files this end knows. -/
def ends (tidings : Tidings) : Call → Option (Text × Option Text × Option Text)
  | .opened _ runId =>
    match tidings.prepared with
    | .ok _ => none
    | .error _ => some (runId, none, none)
  | .evaluating _ runId =>
    match tidings.event with
    | .workflowStarted _ _ => none
    | .outcome (.workflowExecuted _ workflowPath workflowStatePath _) =>
      some (runId, some workflowPath, workflowStatePath)
    | .outcome _ => some (runId, none, none)
    | .canceled _ => some (runId, none, none)
  | _ => none

/-- The run whose files a step records. -/
def records (tidings : Tidings) : Call → Option Text
  | .evaluating _ runId =>
    match tidings.event with
    | .workflowStarted _ _ => some runId
    | _ => none
  | _ => none

/-- What a step does to the row of a run: it ends a run with the files it knows, it records the
files of a run, or it is not about one run. -/
theorem performs_cases (call : Call) (tidings : Tidings)
    (houtside : ∀ work, call = .operation work → work.isOutside = true) :
    (∃ runId status detail, call.performs tidings =
        some (.finishRun runId status detail tidings.now) ∧
      call.ends tidings = some (runId, detail.workflowPath, detail.workflowStatePath) ∧
      call.records tidings = none) ∨
    (∃ runId workflowPath statePath, call.performs tidings =
        some (.setWorkflowStatePath runId workflowPath statePath) ∧
      call.ends tidings = none ∧ call.records tidings = some runId) ∨
    (∀ work, call.performs tidings = some work → work.isOfRun = false) ∧
      call.ends tidings = none ∧ call.records tidings = none := by
  cases call with
  | operation work =>
    refine Or.inr (Or.inr ⟨?_, rfl, rfl⟩)
    intro other hother
    cases hother
    have hwork := houtside work rfl
    cases work with
    | finishRun | setWorkflowStatePath => cases hwork
    | create | writeColumns | setStatus | delete | requestTrigger | startRun | setBackoff
      | reconcile => rfl
  | selecting | finished =>
    refine Or.inr (Or.inr ⟨?_, rfl, rfl⟩)
    intro work hwork
    cases hwork
  | opening | backingOff =>
    refine Or.inr (Or.inr ⟨?_, rfl, rfl⟩)
    intro work hwork
    cases hwork
    rfl
  | opened task runId =>
    cases hprepared : tidings.prepared with
    | ok =>
      refine Or.inr (Or.inr ⟨?_, by simp [ends, hprepared], rfl⟩)
      intro work hwork
      simp [performs, hprepared] at hwork
    | error error =>
      exact Or.inl ⟨runId, .failed, { error := some error }, by simp [performs, hprepared],
        by simp [ends, hprepared], rfl⟩
  | evaluating task runId =>
    cases hevent : tidings.event with
    | workflowStarted workflowPath statePath =>
      exact Or.inr (Or.inl ⟨runId, some workflowPath, some statePath, by simp [performs, hevent],
        by simp [ends, hevent], by simp [records, hevent]⟩)
    | outcome outcome =>
      refine Or.inl ⟨runId, (classify tidings.runLogDir outcome).1,
        (classify tidings.runLogDir outcome).2.1, by simp [performs, hevent], ?_,
        by simp [records, hevent]⟩
      cases outcome <;> simp [ends, hevent, classify]
    | canceled reason =>
      exact Or.inl ⟨runId, .canceled, { reason }, by simp [performs, hevent],
        by simp [ends, hevent], by simp [records, hevent]⟩

end Call

/-- The entry of a schedule records the files of a run. -/
def Records (config : Config Store Call) (runId : Text) : Event Tidings Call → Prop
  | .start _ _ => False
  | .step id tidings => ∃ call, config.calls id = some call ∧ call.records tidings = some runId

/-- The entry leaves the files that a run has recorded, unless it records others. -/
def LeavesFiles (config : Config Store Call) (event : Event Tidings Call) : Prop :=
  ∀ run ∈ config.shared.runs, run.Recorded → ¬Records config run.id event →
    ∀ row ∈ (squad.next config event).shared.runs, row.id = run.id → run.SameFiles row

/-- An end of a run in flight knows the files that the run has recorded. -/
def CarriesFiles (config : Config Store Call) : Event Tidings Call → Prop
  | .start _ _ => True
  | .step id tidings => ∀ call runId workflowPath workflowStatePath,
    config.calls id = some call →
    call.ends tidings = some (runId, workflowPath, workflowStatePath) → tidings.faults 0 = false →
    ∀ run ∈ config.shared.runs, run.id = runId → run.status = .running → run.Recorded →
      workflowPath = run.workflowPath ∧ workflowStatePath = run.workflowStatePath

/-- Only the scheduler writes the rows of single runs. -/
def Outside (config : Config Store Call) : Prop :=
  ∀ id work, config.calls id = some (.operation work) → work.isOutside = true

theorem Call.advance_ne_operation (call : Call) (tidings : Tidings) (store : Store) (work : Operation) :
    call.advance tidings store ≠ .operation work := by
  intro h
  cases call with
  | operation | backingOff | finished => cases h
  | selecting =>
    rw [advance] at h
    split at h
    · split at h <;> cases h
    · cases h
  | opening | opened =>
    rw [advance] at h
    split at h <;> cases h
  | evaluating =>
    rw [advance] at h
    split at h
    · cases h
    · split at h
      split at h
      · cases h
      · split at h <;> cases h
    · cases h

theorem outside_preserves : squad.Preserves (fun _ _ => True) Outside where
  start := by
    intro config id position hinv hnew hstarts other work hcall
    rcases Config.calls_move hcall with ⟨-, rfl⟩ | ⟨-, hold⟩
    · exact hstarts
    · exact hinv other work hold
  step := by
    intro config id tidings old position shared hinv hallowed hold hstep other work hcall
    rcases Config.calls_move hcall with ⟨-, hmoved⟩ | ⟨-, hstands⟩
    · have hadvance := (Call.step_eq (show old.step tidings config.shared = _ from hstep)).1
      exact absurd (hadvance.symm.trans hmoved.symm) (old.advance_ne_operation tidings _ work)
    · exact hinv other work hstands

/-- Rows that stay as they are keep their files. -/
theorem leavesFiles_of_runs_eq (h : (squad.next config event).shared.runs = config.shared.runs) :
    LeavesFiles config event := by
  intro run hrun hrecorded hrecords row hrow hid
  rw [h] at hrow
  rw [config.shared.run_eq hrow hrun hid]
  exact ⟨rfl, rfl⟩

/-- A turn leaves the store as the work of its call leaves it. -/
theorem shared_next_step {id : Nat} (tidings : Tidings) (hcall : config.calls id = some call) :
    (squad.next config (.step id tidings)).shared =
      ((call.performs tidings).map (·.after tidings.faults config.shared)).getD config.shared := by
  cases hstep : call.step tidings config.shared with
  | none =>
    rw [System.next_step_of_none hcall hstep]
    cases call <;> cases hstep
    rfl
  | some moved =>
    rw [System.next_step hcall hstep, Config.move_shared]
    exact (Call.step_eq hstep).2

theorem records_step_iff {id : Nat} {runId : Text} (hcall : config.calls id = some call) :
    Records config runId (.step id tidings) ↔ call.records tidings = some runId := by
  constructor
  · rintro ⟨other, hother, hrecords⟩
    rw [Option.some.inj (hcall.symm.trans hother)]
    exact hrecords
  · intro hrecords
    exact ⟨call, hcall, hrecords⟩

/-- A turn that ends no run has no files to know. -/
theorem carriesFiles_of_not_ends {id : Nat} (hcall : config.calls id = some call)
    (hends : call.ends tidings = none) : CarriesFiles config (.step id tidings) := by
  intro other ended workflowPath workflowStatePath hother hended
  obtain rfl : call = other := Option.some.inj (hcall.symm.trans hother)
  rw [hends] at hended
  cases hended

/-- A turn that ends a run leaves the recorded files if and only if it knows them. -/
theorem leavesFiles_finishRun_iff {id : Nat} {runId : Text} {status : RunStatus} {detail : RunDetail}
    (hcall : config.calls id = some call)
    (hperforms : call.performs tidings = some (.finishRun runId status detail tidings.now))
    (hends : call.ends tidings = some (runId, detail.workflowPath, detail.workflowStatePath))
    (hnone : call.records tidings = none) :
    LeavesFiles config (.step id tidings) ↔ CarriesFiles config (.step id tidings) := by
  have hshared := shared_next_step tidings hcall
  rw [hperforms, Option.map_some, Option.getD_some] at hshared
  constructor
  · intro hleaves other ended workflowPath workflowStatePath hother hended hfault run hrun hid
      hrunning hrecorded
    obtain rfl : call = other := Option.some.inj (hcall.symm.trans hother)
    rw [hends] at hended
    cases hended
    have hkept := hleaves run hrun hrecorded (by rw [records_step_iff hcall, hnone]; simp)
    rw [hshared] at hkept
    rcases (Operation.finishRun_files_iff hrun).mp hkept with hsame | hsame | hsame | hsame
    · rw [hfault] at hsame
      cases hsame
    · exact absurd hid hsame
    · exact absurd hrunning hsame
    · exact hsame
  · intro hcarries run hrun hrecorded hnot
    rw [hshared]
    refine (Operation.finishRun_files_iff hrun).mpr ?_
    by_contra hall
    simp only [not_or, not_not] at hall
    obtain ⟨hfault, hid, hrunning, hfiles⟩ := hall
    exact hfiles (hcarries call runId _ _ hcall hends (Bool.eq_false_iff.mpr hfault) run hrun hid
      hrunning hrecorded)

/-- An entry leaves the recorded files if and only if an end in it knows them. -/
theorem leavesFiles_iff (houtside : Outside config) :
    LeavesFiles config event ↔ CarriesFiles config event := by
  cases event with
  | start id position =>
    refine iff_of_true (leavesFiles_of_runs_eq ?_) trivial
    rcases squad.next_cases config (.start id position) with hsame | ⟨_, _, _, _, _, hmoved⟩ |
      ⟨_, _, _, _, _, hevent, _⟩
    · rw [hsame]
    · rw [hmoved, Config.move_shared]
    · cases hevent
  | step id tidings =>
    cases hcall : config.calls id with
    | none =>
      refine iff_of_true (leavesFiles_of_runs_eq (by rw [System.next_step_of_idle hcall])) ?_
      intro call runId workflowPath workflowStatePath hsome
      rw [hcall] at hsome
      cases hsome
    | some call =>
      have hshared := shared_next_step tidings hcall
      rcases call.performs_cases tidings (fun work hwork => houtside id work (hwork ▸ hcall)) with
        ⟨runId, status, detail, hperforms, hends, hnone⟩ |
        ⟨runId, workflowPath, statePath, hperforms, hends, hsome⟩ | ⟨hperforms, hends, hnone⟩
      · exact leavesFiles_finishRun_iff hcall hperforms hends hnone
      · refine iff_of_true ?_ (carriesFiles_of_not_ends hcall hends)
        rw [hperforms, Option.map_some, Option.getD_some] at hshared
        intro run hrun hrecorded hnot row hrow hid
        rw [records_step_iff hcall, hsome, Option.some_inj] at hnot
        rw [hshared] at hrow
        exact Operation.setWorkflowStatePath_files hrun hnot hrow hid
      · refine iff_of_true ?_ (carriesFiles_of_not_ends hcall hends)
        cases hwork : call.performs tidings with
        | none =>
          rw [hwork] at hshared
          exact leavesFiles_of_runs_eq (by rw [hshared]; rfl)
        | some work =>
          rw [hwork, Option.map_some, Option.getD_some] at hshared
          intro run hrun hrecorded hnot row hrow hid
          rw [hshared] at hrow
          exact Operation.files_after (hperforms work hwork) hrun hrow hid

/-! ## Whole runs -/

/-- Once a run has recorded its files, its row keeps them as long as it is in the table and no others
are recorded. -/
def KeepsFiles (config : Config Store Call) (events : List (Event Tidings Call)) : Prop :=
  ∀ count later run, count ≤ later → later ≤ events.length →
    run ∈ (squad.run config (events.take count)).shared.runs → run.Recorded →
    (∀ between event, count ≤ between → between < later → events[between]? = some event →
      ¬Records (squad.run config (events.take between)) run.id event) →
    (∀ between, count ≤ between → between ≤ later →
      run.id ∈ (squad.run config (events.take between)).shared.runs.map Run.id) →
    ∀ row ∈ (squad.run config (events.take later)).shared.runs, row.id = run.id →
      run.SameFiles row

theorem outside_run (store : Store) (events : List (Event Tidings Call)) :
    Outside (squad.run (Config.idle store) events) := by
  refine outside_preserves.run ?_ (System.meets_of_always (fun _ _ => trivial) events)
  intro id work hcall
  cases hcall

theorem Run.SameFiles.recorded (h : run.SameFiles row) (hrecorded : run.Recorded) : row.Recorded := by
  rw [Run.Recorded, h.1, h.2]
  exact hrecorded

/-- In a run of the scheduler the recorded files stay, if and only if every end of a run in flight
knows the files that this run has recorded. -/
theorem recorded_files_kept_iff (store : Store) (events : List (Event Tidings Call)) :
    KeepsFiles (Config.idle store) events ↔ squad.Meets CarriesFiles (Config.idle store) events := by
  rw [System.meets_iff]
  constructor
  · intro hkeeps count event hevent
    refine (leavesFiles_iff (outside_run store _)).mp ?_
    intro run hrun hrecorded hnot row hrow hid
    rw [← System.run_take_succ hevent] at hrow
    have hlength : count < events.length := (List.getElem?_eq_some_iff.mp hevent).1
    refine hkeeps count (count + 1) run (Nat.le_succ count) hlength hrun hrecorded ?_ ?_ row hrow hid
    · intro between other hfrom hto hother
      obtain rfl : between = count := by omega
      obtain rfl : event = other := Option.some.inj (hevent.symm.trans hother)
      exact hnot
    · intro between hfrom hto
      rcases Nat.lt_or_ge count between with hlater | hsame
      · obtain rfl : between = count + 1 := by omega
        rw [← hid]
        exact List.mem_map_of_mem hrow
      · obtain rfl : between = count := by omega
        exact List.mem_map_of_mem hrun
  · intro hcarries count later run hle hlength hrun hrecorded hnot hpresent
    induction later, hle using Nat.le_induction with
    | base =>
      intro row hrow hid
      rw [Store.run_eq hrow hrun hid]
      exact ⟨rfl, rfl⟩
    | succ later hle ih =>
      intro row hrow hid
      obtain ⟨middle, hmiddle, hmiddleId⟩ := List.mem_map.mp (hpresent later hle (Nat.le_succ later))
      have hsame : run.SameFiles middle := by
        refine ih (by omega) ?_ ?_ middle hmiddle hmiddleId
        · intro between event hfrom hto hevent
          exact hnot between event hfrom (by omega) hevent
        · intro between hfrom hto
          exact hpresent between hfrom (by omega)
      have hevent : events[later]? = some events[later] := List.getElem?_eq_getElem hlength
      have hleaves := (leavesFiles_iff (outside_run store _)).mpr (hcarries later _ hevent)
      have hunrecorded := hnot later _ hle (Nat.lt_succ_self later) hevent
      rw [System.run_take_succ hevent] at hrow
      have hlast := hleaves middle hmiddle (hsame.recorded hrecorded)
        (by rw [hmiddleId]; exact hunrecorded) row hrow (hid.trans hmiddleId.symm)
      exact ⟨hlast.1.trans hsame.1, hlast.2.trans hsame.2⟩

/-- A step in which the generated workflow starts. -/
def starting : Tidings := { failing with event := .workflowStarted ['w'] ['s'] }

/-- The workflow of a run starts and the evaluation then ends with an error: the row of the failed run
does not name the files any more. -/
theorem files_lost_on_failure :
    let before := squad.run (Config.idle (oneTask (sampleTask ['x'] ['t'])))
      (dispatched 3 ++ [.step 0 starting])
    let after := squad.next before (.step 0 failing)
    before.shared.runs.map (fun run => (run.status, run.workflowPath, run.workflowStatePath)) =
        [(.running, some ['w'], some ['s'])] ∧
      after.shared.runs.map (fun run => (run.status, run.workflowPath, run.workflowStatePath)) =
        [(.failed, none, none)] := by
  decide

end Awman.Tasks
