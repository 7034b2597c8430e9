import Awman.TaskStore

/-!
# What an operation of the store changes

Every operation executes a few statements.  What each of them keeps, the operation keeps, also when
one of its statements fails.  Opening a run executes two statements without a transaction: it is
atomic unless the second one fails by itself.
-/

namespace Awman.Tasks

open Session

variable {store : Store} {runId taskId : Text} {faults : Faults}

/-! ## Single statements -/

namespace Store

/-- The rows of the tasks after an update. -/
@[simp] theorem tasks_setTasks (key : TaskKey) (clause : TaskSet) :
    (store.setTasks key clause).tasks =
      store.tasks.map fun task => if key.names task then clause.apply task else task := rfl

@[simp] theorem runs_setRuns (key : RunKey) (clause : RunSet) :
    (store.setRuns key clause).runs =
      store.runs.map fun run => if key.names run then clause.apply run else run := rfl

@[simp] theorem tasks_addTask {task : Task} (hid : task.id ∉ store.tasks.map Task.id)
    (hname : task.name ∉ store.tasks.map Task.name) :
    (store.addTask task hid hname).tasks = store.tasks ++ [task] := rfl

@[simp] theorem runs_addRun {run : Run} (hid : run.id ∉ store.runs.map Run.id)
    (htask : run.taskId ∈ store.tasks.map Task.id) :
    (store.addRun run hid htask).runs = store.runs ++ [run] := rfl

@[simp] theorem runs_dropRuns (taskId : Text) :
    (store.dropRuns taskId).runs = store.runs.filter fun run => run.taskId ≠ taskId := rfl

@[simp] theorem tasks_dropTask {id : Text} (hruns : ∀ run ∈ store.runs, run.taskId ≠ id) :
    (store.dropTask id hruns).tasks = store.tasks.filter fun task => task.id ≠ id := rfl

/-- A task that is there keeps its identifier and its name in an update. -/
theorem mem_setTasks {key : TaskKey} {clause : TaskSet} {task : Task}
    (h : task ∈ (store.setTasks key clause).tasks) :
    ∃ old ∈ store.tasks, task = if key.names old then clause.apply old else old := by
  obtain ⟨old, hold, hsame⟩ := List.mem_map.mp h
  exact ⟨old, hold, hsame.symm⟩

theorem mem_setRuns {key : RunKey} {clause : RunSet} {run : Run}
    (h : run ∈ (store.setRuns key clause).runs) :
    ∃ old ∈ store.runs, run = if key.names old then clause.apply old else old := by
  obtain ⟨old, hold, hsame⟩ := List.mem_map.mp h
  exact ⟨old, hold, hsame.symm⟩

/-- Two rows of one identifier are one row. -/
theorem task_eq {task other : Task} (htask : task ∈ store.tasks) (hother : other ∈ store.tasks)
    (hid : task.id = other.id) : task = other :=
  List.inj_on_of_nodup_map store.task_ids htask hother hid

/-- Two rows of one name are one row. -/
theorem task_eq_of_name {task other : Task} (htask : task ∈ store.tasks) (hother : other ∈ store.tasks)
    (hname : task.name = other.name) : task = other :=
  List.inj_on_of_nodup_map store.task_names htask hother hname

theorem run_eq {run other : Run} (hrun : run ∈ store.runs) (hother : other ∈ store.runs)
    (hid : run.id = other.id) : run = other :=
  List.inj_on_of_nodup_map store.run_ids hrun hother hid

theorem named_eq_some_iff {name : Text} {task : Task} :
    store.named name = some task ↔ task ∈ store.tasks ∧ task.name = name := by
  constructor
  · intro h
    have hname : TaskKey.names (.name name) task = true := List.find?_some h
    exact ⟨List.mem_of_find?_eq_some h, of_decide_eq_true hname⟩
  · rintro ⟨hmem, hname⟩
    cases hfound : store.named name with
    | none =>
      have hnot := List.find?_eq_none.mp hfound task hmem
      exact absurd (decide_eq_true hname) hnot
    | some found =>
      have hother : TaskKey.names (.name name) found = true := List.find?_some hfound
      have hsame := store.task_eq_of_name hmem (List.mem_of_find?_eq_some hfound)
        (hname.trans (of_decide_eq_true hother).symm)
      rw [hsame]

end Store

/-- The row of a task after it was updated by its name. -/
theorem named_setTasks {name : Text} {task : Task} {clause : TaskSet}
    (htask : store.named name = some task) :
    (store.setTasks (.name name) clause).named name = some (clause.apply task) := by
  obtain ⟨hmem, hname⟩ := Store.named_eq_some_iff.mp htask
  have hkey : TaskKey.names (.name name) task = true := decide_eq_true hname
  have hrow := List.mem_map_of_mem
    (f := fun task => if TaskKey.names (.name name) task then clause.apply task else task) hmem
  rw [if_pos hkey] at hrow
  exact Store.named_eq_some_iff.mpr ⟨hrow, hname⟩

theorem Statement.apply_insertTask {task : Task} {rows : Nat} {after : Store}
    (h : (Statement.insertTask task).apply store = .ok (rows, after)) :
    ∃ hid hname, after = store.addTask task hid hname := by
  rw [Statement.apply] at h
  split at h
  · cases h
  · rename_i hid
    split at h
    · cases h
    · rename_i hname
      exact ⟨hid, hname, (congrArg Prod.snd (Except.ok.inj h)).symm⟩

theorem Statement.apply_insertRun {run : Run} {rows : Nat} {after : Store}
    (h : (Statement.insertRun run).apply store = .ok (rows, after)) :
    ∃ hid htask, after = store.addRun run hid htask := by
  rw [Statement.apply] at h
  split at h
  · cases h
  · rename_i hid
    split at h
    · rename_i htask
      exact ⟨hid, htask, (congrArg Prod.snd (Except.ok.inj h)).symm⟩
    · cases h

theorem Statement.apply_updateTasks {key : TaskKey} {clause : TaskSet} {rows : Nat} {after : Store}
    (h : (Statement.updateTasks key clause).apply store = .ok (rows, after)) :
    after = store.setTasks key clause := (congrArg Prod.snd (Except.ok.inj h)).symm

theorem Statement.apply_updateRuns {key : RunKey} {clause : RunSet} {rows : Nat} {after : Store}
    (h : (Statement.updateRuns key clause).apply store = .ok (rows, after)) :
    after = store.setRuns key clause := (congrArg Prod.snd (Except.ok.inj h)).symm

/-! ## What sessions keep -/

namespace Session

variable {α β : Type} {R : Store → Store → Prop} [IsPreorder Store R] {session : Session α}

/-- The tables after a session are related to those before it. -/
def Keeps (R : Store → Store → Prop) (session : Session α) : Prop :=
  ∀ store, R store (session.after store)

theorem keeps_pure (answer : α) : Keeps R (pure answer : Session α) := fun store => refl_of R store

theorem keeps_throw (error : StoreError) : Keeps R (throw error : Session α) :=
  fun store => refl_of R store

theorem keeps_bind {next : α → Session β} (hfirst : Keeps R session)
    (hnext : ∀ answer, Keeps R (next answer)) : Keeps R (session >>= next) := by
  intro store
  have hbefore := hfirst store
  rw [after] at hbefore
  rw [after, call_bind]
  rcases hcall : session.call store with ⟨answer | answer, between⟩
  · rw [hcall] at hbefore
    exact hbefore
  · rw [hcall] at hbefore
    exact trans_of R hbefore (hnext answer between)

omit [IsPreorder Store R] in
theorem keeps_discard (hsession : Keeps R session) : Keeps R (discard session) := by
  intro store
  have hafter : (discard session).after store = session.after store := by
    rw [after, call_discard, after]
    rcases session.call store with ⟨answer | answer, between⟩ <;> rfl
  rw [hafter]
  exact hsession store

theorem keeps_execute {fault : Bool} {statement : Statement}
    (h : ∀ store rows after, statement.apply store = .ok (rows, after) → R store after) :
    Keeps R (execute fault statement) := by
  intro store
  rw [after, call_execute]
  split
  · exact refl_of R store
  · cases happly : statement.apply store with
    | error failure => exact refl_of R store
    | ok changed => exact h store changed.1 changed.2 happly

theorem keeps_tryCatch {handler : StoreError → Session α} (hsession : Keeps R session)
    (hhandler : ∀ error, Keeps R (handler error)) : Keeps R (tryCatch session handler) := by
  intro store
  have hbefore := hsession store
  rw [after] at hbefore
  rw [after, call_tryCatch]
  rcases hcall : session.call store with ⟨error | answer, between⟩
  · rw [hcall] at hbefore
    exact trans_of R hbefore (hhandler error between)
  · rw [hcall] at hbefore
    exact hbefore

end Session

/-- A removal leaves the tables as they were, or takes the task and its runs away. -/
theorem delete_after (faults : Faults) (name : Text) (store : Store) :
    (Tasks.delete faults name).after store = store ∨
    ∃ task hruns, store.named name = some task ∧
      (Tasks.delete faults name).after store =
        (store.dropRuns task.id).dropTask task.id hruns := by
  rw [after, Tasks.delete, call_transaction, call_bind, call_query]
  by_cases hread : faults 0 = true
  · exact Or.inl (by rw [if_pos hread])
  · rw [if_neg hread]
    dsimp only
    cases hnamed : store.named name with
    | none => exact Or.inl rfl
    | some task =>
      dsimp only
      rw [call_bind, call_discard, call_execute]
      by_cases hfirst : faults 1 = true
      · exact Or.inl (by rw [if_pos hfirst])
      · have hruns : ∀ run ∈ (store.dropRuns task.id).runs, run.taskId ≠ task.id := by
          intro run hrun
          exact of_decide_eq_true (List.mem_filter.mp hrun).2
        rw [if_neg hfirst, Statement.apply]
        dsimp only
        rw [call_bind, call_execute]
        by_cases hsecond : faults 2 = true
        · exact Or.inl (by rw [if_pos hsecond])
        · rw [if_neg hsecond, Statement.apply, dif_pos hruns]
          dsimp only
          rw [call_query]
          by_cases hcommit : faults 3 = true
          · exact Or.inl (by rw [if_pos hcommit])
          · exact Or.inr ⟨task, hruns, rfl, by rw [if_neg hcommit]⟩

/-- One use of the connection that changes the tables. -/
inductive Operation where
  | create (task : Task)
  | writeColumns (name : Text) (columns : Columns) (now : Instant)
  | setStatus (name : Text) (status : TaskStatus) (now : Instant)
  | delete (name : Text)
  | requestTrigger (name : Text) (now : Instant)
  | startRun (runId taskId : Text) (sessionId : Option Text) (startedAt : Instant)
      (unmetEnv : List Text)
  | finishRun (runId : Text) (status : RunStatus) (detail : RunDetail) (finishedAt : Instant)
  | setBackoff (name : Text) (until_ : Option Instant) (now : Instant)
  | setWorkflowStatePath (runId : Text) (workflowPath workflowStatePath : Option Text)
  | reconcile (now : Instant)

namespace Operation

/-- What the operation does, without its answer. -/
def session (faults : Faults) : Operation → Session Unit
  | .create task => Tasks.create faults task
  | .writeColumns name columns now => Tasks.writeColumns (faults 0) name columns now
  | .setStatus name status now => discard (Tasks.setStatus faults name status now)
  | .delete name => discard (Tasks.delete faults name)
  | .requestTrigger name now => discard (Tasks.requestTrigger faults name now)
  | .startRun runId taskId sessionId startedAt unmetEnv =>
    discard (startRunWithEnv faults runId taskId sessionId startedAt unmetEnv)
  | .finishRun runId status detail finishedAt =>
    discard (Tasks.finishRun faults runId status detail finishedAt)
  | .setBackoff name until_ now => Tasks.setBackoff faults name until_ now
  | .setWorkflowStatePath runId workflowPath workflowStatePath =>
    Tasks.setWorkflowStatePath faults runId workflowPath workflowStatePath
  | .reconcile now => discard (reconcileOrphanedRuns faults now)

/-- The tables after the operation. -/
def after (faults : Faults) (operation : Operation) (store : Store) : Store :=
  (operation.session faults).after store

/-- The statements an operation other than a removal may execute. -/
inductive Executes : Operation → Statement → Prop where
  | create (task : Task) :
      Executes (.create task) (.insertTask { task with triggerRequestedAt := none })
  | writeColumns (name : Text) (columns : Columns) (now : Instant) :
      Executes (.writeColumns name columns now)
        (.updateTasks (.name name) { columns := some columns, updatedAt := now })
  | setStatus (name : Text) (status : TaskStatus) (now : Instant) :
      Executes (.setStatus name status now)
        (.updateTasks (.name name) { status := some status, updatedAt := now })
  | requestTrigger (name : Text) (now : Instant) :
      Executes (.requestTrigger name now) (.updateTasks (.name name)
        { triggerRequestedAt := some (some now), backoffUntil := some none, updatedAt := now })
  | insertRun (runId taskId : Text) (sessionId : Option Text) (startedAt : Instant)
      (unmetEnv : List Text) :
      Executes (.startRun runId taskId sessionId startedAt unmetEnv)
        (.insertRun (openedRun runId taskId sessionId startedAt unmetEnv))
  | runStarted (runId taskId : Text) (sessionId : Option Text) (startedAt : Instant)
      (unmetEnv : List Text) :
      Executes (.startRun runId taskId sessionId startedAt unmetEnv) (.updateTasks (.id taskId)
        { lastRunAt := some startedAt, updatedAt := startedAt, triggerRequestedAt := some none })
  | finishRun (runId : Text) (status : RunStatus) (detail : RunDetail) (finishedAt : Instant) :
      Executes (.finishRun runId status detail finishedAt)
        (.updateRuns { id := some runId, running := true }
          { status := some status, workflowPath := some detail.workflowPath
            workflowStatePath := some detail.workflowStatePath, error := some detail.error
            finishedAt := some finishedAt, reason := some detail.reason })
  | setBackoff (name : Text) (until_ : Option Instant) (now : Instant) :
      Executes (.setBackoff name until_ now)
        (.updateTasks (.name name) { backoffUntil := some until_, updatedAt := now })
  | setWorkflowStatePath (runId : Text) (workflowPath workflowStatePath : Option Text) :
      Executes (.setWorkflowStatePath runId workflowPath workflowStatePath)
        (.updateRuns { id := some runId }
          { workflowPath := some workflowPath, workflowStatePath := some workflowStatePath })
  | reconcile (now : Instant) :
      Executes (.reconcile now) (.updateRuns { running := true }
        { status := some .interrupted, finishedAt := some now, error := some (some orphaned) })

variable {R : Store → Store → Prop} [IsPreorder Store R]

/-- What the statements of an operation and the removal of a task keep, the operation keeps. -/
theorem keeps {operation : Operation} (h : ∀ statement, operation.Executes statement →
    ∀ store rows after, statement.apply store = .ok (rows, after) → R store after)
    (hdelete : ∀ name, operation = .delete name → ∀ store task hruns, store.named name = some task →
      R store ((store.dropRuns task.id).dropTask task.id hruns)) :
    R store (operation.after faults store) := by
  have hsession : Keeps R (operation.session faults) := by
    cases operation with
    | create task =>
      rw [session, Tasks.create]
      split
      · exact keeps_throw _
      · refine keeps_tryCatch (keeps_discard (keeps_execute (h _ (.create task)))) ?_
        intro error
        split
        · exact keeps_throw _
        · exact keeps_throw _
    | writeColumns name columns now =>
      exact keeps_discard (keeps_execute (h _ (.writeColumns name columns now)))
    | setStatus name status now =>
      exact keeps_discard (keeps_bind (keeps_execute (h _ (.setStatus name status now)))
        fun _ => keeps_pure _)
    | delete name =>
      refine keeps_discard fun store => ?_
      rcases delete_after faults name store with hsame | ⟨task, hruns, hnamed, hafter⟩
      · rw [hsame]
        exact refl_of R store
      · rw [hafter]
        exact hdelete name rfl store task hruns hnamed
    | requestTrigger name now =>
      exact keeps_discard (keeps_bind (keeps_execute (h _ (.requestTrigger name now)))
        fun _ => keeps_pure _)
    | startRun runId taskId sessionId startedAt unmetEnv =>
      refine keeps_discard (keeps_bind (keeps_discard (keeps_execute ?_)) fun _ =>
        keeps_bind (keeps_discard (keeps_execute ?_)) fun _ => keeps_pure _)
      · exact h _ (.insertRun runId taskId sessionId startedAt unmetEnv)
      · exact h _ (.runStarted runId taskId sessionId startedAt unmetEnv)
    | finishRun runId status detail finishedAt =>
      exact keeps_discard (keeps_bind
        (keeps_execute (h _ (.finishRun runId status detail finishedAt))) fun _ => keeps_pure _)
    | setBackoff name until_ now =>
      exact keeps_discard (keeps_execute (h _ (.setBackoff name until_ now)))
    | setWorkflowStatePath runId workflowPath workflowStatePath =>
      exact keeps_discard (keeps_execute
        (h _ (.setWorkflowStatePath runId workflowPath workflowStatePath)))
    | reconcile now => exact keeps_discard (keeps_execute (h _ (.reconcile now)))
  exact hsession store

end Operation

/-! ## Opening a run -/

section Opening

variable (faults) (runId taskId : Text) (sessionId : Option Text) (startedAt : Instant)
  (unmetEnv : List Text) (store : Store)

/-- The row of the run is refused: SQLite fails, the identifier is taken, or the task is gone. -/
def OpeningRefused : Prop :=
  faults 0 = true ∨ runId ∈ store.runs.map Run.id ∨ taskId ∉ store.tasks.map Task.id

/-- A refused row changes nothing. -/
theorem startRunWithEnv_refused (h : OpeningRefused faults runId taskId store) :
    ∃ error, (startRunWithEnv faults runId taskId sessionId startedAt unmetEnv).call store =
      (.error error, store) := by
  rw [startRunWithEnv, call_bind, call_discard, call_execute]
  by_cases hfault : faults 0 = true
  · exact ⟨.sqlite .fault, by rw [if_pos hfault]⟩
  · rw [if_neg hfault, Statement.apply]
    by_cases hid : runId ∈ store.runs.map Run.id
    · exact ⟨.sqlite .primaryKey, by rw [dif_pos (show (openedRun runId taskId sessionId startedAt
        unmetEnv).id ∈ _ from hid)]⟩
    · have htask : taskId ∉ store.tasks.map Task.id :=
        (h.resolve_left hfault).resolve_left hid
      exact ⟨.sqlite .foreignKey, by
        rw [dif_neg (show ¬(openedRun runId taskId sessionId startedAt unmetEnv).id ∈ _ from hid),
          dif_neg (show ¬(openedRun runId taskId sessionId startedAt unmetEnv).taskId ∈ _ from
            htask)]⟩

/-- A row that is not refused is there, whatever comes of the second statement. -/
theorem startRunWithEnv_inserted (h : ¬OpeningRefused faults runId taskId store) :
    ∃ hid htask,
      (startRunWithEnv faults runId taskId sessionId startedAt unmetEnv).call store =
        let opened := store.addRun (openedRun runId taskId sessionId startedAt unmetEnv) hid htask
        if faults 1 then (.error (.sqlite .fault), opened)
        else (.ok runId, opened.setTasks (.id taskId)
          { lastRunAt := some startedAt, updatedAt := startedAt, triggerRequestedAt := some none }) := by
  simp only [OpeningRefused, not_or, not_not] at h
  obtain ⟨hfault, hid, htask⟩ := h
  refine ⟨hid, htask, ?_⟩
  rw [startRunWithEnv, call_bind, call_discard, call_execute, if_neg hfault, Statement.apply,
    dif_neg (show ¬(openedRun runId taskId sessionId startedAt unmetEnv).id ∈ _ from hid),
    dif_pos (show (openedRun runId taskId sessionId startedAt unmetEnv).taskId ∈ _ from htask)]
  dsimp only
  rw [call_bind, call_discard, call_execute]
  by_cases hsecond : faults 1 = true
  · rw [if_pos hsecond, if_pos hsecond]
  · rw [if_neg hsecond, if_neg hsecond]
    rfl

/-- Opening a run leaves nothing behind when it fails, if and only if its row is refused or the second
statement does not fail. -/
theorem startRunWithEnv_atomic_iff :
    (∀ error after, (startRunWithEnv faults runId taskId sessionId startedAt unmetEnv).call store =
      (.error error, after) → after = store) ↔
      (OpeningRefused faults runId taskId store ∨ faults 1 = false) := by
  by_cases hrefused : OpeningRefused faults runId taskId store
  · obtain ⟨failure, hcall⟩ := startRunWithEnv_refused faults runId taskId sessionId startedAt
      unmetEnv store hrefused
    have hsame : ∀ error after, (startRunWithEnv faults runId taskId sessionId startedAt
        unmetEnv).call store = (.error error, after) → after = store := by
      intro error after hafter
      rw [hcall] at hafter
      exact (Prod.mk.inj hafter).2.symm
    exact iff_of_true hsame (Or.inl hrefused)
  · obtain ⟨hid, htask, hcall⟩ := startRunWithEnv_inserted faults runId taskId sessionId startedAt
      unmetEnv store hrefused
    rw [or_iff_right hrefused]
    constructor
    · intro hsame
      by_contra hfault
      rw [Bool.not_eq_false] at hfault
      dsimp only at hcall
      rw [if_pos hfault] at hcall
      have hruns := congrArg (fun after : Store => after.runs.length) (hsame _ _ hcall)
      simp [Store.addRun] at hruns
    · intro hfault error after hafter
      dsimp only at hcall
      rw [if_neg (by simp [hfault]), hafter] at hcall
      exact absurd (Prod.mk.inj hcall).1 (by simp)

end Opening

/-- A task that nobody evaluated yet. -/
def sampleTask (id name : Text) : Task :=
  { description := ['d'], intervalSecs := 60, agent := none, model := none, overlays := []
    prerequisites := none, id, name, repoScope := ['/'], mountScope := .directory
    status := .active, backoffUntil := none, createdAt := 0, updatedAt := 0, lastRunAt := none
    triggerRequestedAt := some 5 }

/-- Tables with one task. -/
def oneTask (task : Task) : Store :=
  ⟨[task], [], by simp, by simp, by simp, by simp⟩

/-- The update of the task fails after the row of its run is in: the task was due and is not any
more, and the request for its evaluation still stands. -/
theorem half_opened_run :
    let store := oneTask (sampleTask ['x'] ['t'])
    let opened := (startRunWithEnv (· = 1) ['r'] ['x'] none 7 []).call store
    opened.1 = .error (.sqlite .fault) ∧ opened.2 ≠ store ∧
      opened.2.runs.map (fun run => (run.taskId, run.status)) = [(['x'], .running)] ∧
      opened.2.tasks.map Task.triggerRequestedAt = [some 5] ∧
      (store.tasks.all fun task => store.isDue (fun _ _ _ => false) 9 task) = true ∧
      (opened.2.tasks.all fun task => opened.2.isDue (fun _ _ _ => true) 9 task) = false := by
  decide

end Awman.Tasks
