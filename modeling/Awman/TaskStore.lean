import Awman.TaskRequests
import Mathlib.Data.List.Sort

/-!
# The store of tasks

The daemon keeps its tasks and their evaluation runs in two tables of an SQLite database.  A
statement changes all it names or nothing, and it may fail for reasons of its own.  An operation of
the store holds the connection while it executes its statements; what one statement did stays when
the next one fails, unless the operation is a transaction.
-/

namespace Awman.Tasks

open Awman.Squad (MountScope PrerequisitePolicy)

/-- A text. -/
abbrev Text := List Char

/-- A moment, in nanoseconds. -/
abbrev Instant := Int

/-- Whether a task is evaluated. -/
inductive TaskStatus where
  | active
  | paused
  deriving DecidableEq

/-- Where a run stands. -/
inductive RunStatus where
  | running
  | notTriggered
  | workflowExecuted
  | failed
  | interrupted
  | canceled
  deriving DecidableEq

/-- The columns of a task that an edit may change. -/
@[ext] structure Columns where
  /-- What the task is to do. -/
  description : Text
  /-- The seconds between two evaluations. -/
  intervalSecs : Nat
  agent : Option Text
  model : Option Text
  overlays : List Text
  /-- The decisions about credentials. -/
  prerequisites : Option PrerequisitePolicy
  deriving DecidableEq

/-- A row of `squad_tasks`. -/
@[ext] structure Task extends Columns where
  id : Text
  name : Text
  /-- The directory the task is bound to. -/
  repoScope : Text
  /-- What kind of directory that is. -/
  mountScope : MountScope
  status : TaskStatus
  /-- No evaluation before this moment. -/
  backoffUntil : Option Instant
  createdAt : Instant
  /-- When the row last changed. -/
  updatedAt : Instant
  lastRunAt : Option Instant
  /-- When an evaluation ahead of the schedule was asked for. -/
  triggerRequestedAt : Option Instant
  deriving DecidableEq

/-- A row of `squad_runs`. -/
@[ext] structure Run where
  id : Text
  taskId : Text
  status : RunStatus
  workflowPath : Option Text
  workflowStatePath : Option Text
  sessionId : Option Text
  startedAt : Instant
  finishedAt : Option Instant
  /-- What went wrong. -/
  error : Option Text
  reason : Option Text
  /-- The declared variables without a value when it started. -/
  unmetEnv : List Text
  deriving DecidableEq

/-- What is told of a run when it finishes. -/
structure RunDetail where
  workflowPath : Option Text := none
  workflowStatePath : Option Text := none
  /-- What went wrong. -/
  error : Option Text := none
  reason : Option Text := none

/-- A partial write of the columns of a task: what is absent is left alone. -/
structure TaskUpdate where
  /-- What the task is to do. -/
  description : Option Text := none
  /-- The seconds between two evaluations. -/
  intervalSecs : Option Nat := none
  /-- The leader agent; none within clears it. -/
  agent : Option (Option Text) := none
  /-- The leader model; none within clears it. -/
  model : Option (Option Text) := none
  overlays : Option (List Text) := none
  /-- The decisions about credentials. -/
  prerequisites : Option PrerequisitePolicy := none

/-! ## The tables and their statements -/

/-- The two tables with their constraints: the columns without repetitions, and the foreign key. -/
@[ext] structure Store where
  /-- The table `squad_tasks`. -/
  tasks : List Task
  /-- The table `squad_runs`. -/
  runs : List Run
  task_ids : (tasks.map Task.id).Nodup
  task_names : (tasks.map Task.name).Nodup
  run_ids : (runs.map Run.id).Nodup
  owned : ∀ run ∈ runs, run.taskId ∈ tasks.map Task.id
  deriving DecidableEq

/-- Why SQLite refuses a statement. -/
inductive SqliteFailure where
  | primaryKey
  | unique
  | foreignKey
  /-- Anything else: the disk is full, the file cannot be written. -/
  | fault
  deriving DecidableEq

/-- Which rows of `squad_tasks` a statement is about. -/
inductive TaskKey where
  | id (value : Text)
  | name (value : Text)
  deriving DecidableEq

def TaskKey.names : TaskKey → Task → Bool
  | .id value, task => task.id = value
  | .name value, task => task.name = value

/-- The columns an `UPDATE squad_tasks` sets. -/
structure TaskSet where
  columns : Option Columns := none
  status : Option TaskStatus := none
  /-- No evaluation before this moment. -/
  backoffUntil : Option (Option Instant) := none
  /-- When the row last changed. -/
  updatedAt : Instant
  lastRunAt : Option Instant := none
  /-- When an evaluation ahead of the schedule was asked for. -/
  triggerRequestedAt : Option (Option Instant) := none

def TaskSet.apply (clause : TaskSet) (task : Task) : Task :=
  { task with
    toColumns := clause.columns.getD task.toColumns
    status := clause.status.getD task.status
    backoffUntil := clause.backoffUntil.getD task.backoffUntil
    updatedAt := clause.updatedAt
    lastRunAt := clause.lastRunAt.or task.lastRunAt
    triggerRequestedAt := clause.triggerRequestedAt.getD task.triggerRequestedAt }

/-- Which rows of `squad_runs` a statement is about. -/
structure RunKey where
  /-- Only the run with this identifier. -/
  id : Option Text := none
  /-- Only runs that have not finished. -/
  running : Bool := false

def RunKey.names (key : RunKey) (run : Run) : Bool :=
  key.id.all (run.id = ·) && (!key.running || run.status = .running)

/-- The columns an `UPDATE squad_runs` sets. -/
structure RunSet where
  status : Option RunStatus := none
  workflowPath : Option (Option Text) := none
  workflowStatePath : Option (Option Text) := none
  finishedAt : Option Instant := none
  /-- What went wrong. -/
  error : Option (Option Text) := none
  reason : Option (Option Text) := none

def RunSet.apply (clause : RunSet) (run : Run) : Run :=
  { run with
    status := clause.status.getD run.status
    workflowPath := clause.workflowPath.getD run.workflowPath
    workflowStatePath := clause.workflowStatePath.getD run.workflowStatePath
    finishedAt := clause.finishedAt.or run.finishedAt
    error := clause.error.getD run.error
    reason := clause.reason.getD run.reason }

/-- A statement that changes the tables. -/
inductive Statement where
  | insertTask (task : Task)
  | updateTasks (key : TaskKey) (clause : TaskSet)
  | deleteTask (id : Text)
  | insertRun (run : Run)
  | updateRuns (key : RunKey) (clause : RunSet)
  | deleteRuns (taskId : Text)

namespace Store

variable {store : Store} {task : Task} {run : Run}

/-- The tables before anything is stored. -/
def empty : Store := ⟨[], [], List.nodup_nil, List.nodup_nil, List.nodup_nil, by simp⟩

/-- The row of a task with a name. -/
def named (store : Store) (name : Text) : Option Task :=
  store.tasks.find? (TaskKey.names (.name name))

/-- A new row of `squad_tasks`. -/
def addTask (store : Store) (task : Task) (hid : task.id ∉ store.tasks.map Task.id)
    (hname : task.name ∉ store.tasks.map Task.name) : Store where
  tasks := store.tasks ++ [task]
  runs := store.runs
  task_ids := by
    rw [List.map_append]
    exact store.task_ids.append (List.nodup_singleton task.id) (by simpa using hid)
  task_names := by
    rw [List.map_append]
    exact store.task_names.append (List.nodup_singleton task.name) (by simpa using hname)
  run_ids := store.run_ids
  owned run hrun := by
    rw [List.map_append]
    exact List.mem_append_left _ (store.owned run hrun)

/-- Rows of `squad_tasks` with other columns. -/
def setTasks (store : Store) (key : TaskKey) (clause : TaskSet) : Store where
  tasks := store.tasks.map fun task => if key.names task then clause.apply task else task
  runs := store.runs
  task_ids := by
    have hids : (store.tasks.map fun task => if key.names task then clause.apply task else task).map
        Task.id = store.tasks.map Task.id := by
      rw [List.map_map]
      exact List.map_congr_left fun task _ => by simp only [Function.comp]; split <;> rfl
    rw [hids]
    exact store.task_ids
  task_names := by
    have hnames : (store.tasks.map fun task =>
        if key.names task then clause.apply task else task).map Task.name =
        store.tasks.map Task.name := by
      rw [List.map_map]
      exact List.map_congr_left fun task _ => by simp only [Function.comp]; split <;> rfl
    rw [hnames]
    exact store.task_names
  run_ids := store.run_ids
  owned run hrun := by
    obtain ⟨task, htask, hid⟩ := List.mem_map.mp (store.owned run hrun)
    have hmem := List.mem_map_of_mem
      (f := fun task => if key.names task then clause.apply task else task) htask
    have hsame : (if key.names task then clause.apply task else task).id = task.id := by
      split <;> rfl
    rw [← hid, ← hsame]
    exact List.mem_map_of_mem hmem

/-- A new row of `squad_runs`. -/
def addRun (store : Store) (run : Run) (hid : run.id ∉ store.runs.map Run.id)
    (htask : run.taskId ∈ store.tasks.map Task.id) : Store where
  tasks := store.tasks
  runs := store.runs ++ [run]
  task_ids := store.task_ids
  task_names := store.task_names
  run_ids := by
    rw [List.map_append]
    exact store.run_ids.append (List.nodup_singleton run.id) (by simpa using hid)
  owned other hother := by
    rcases List.mem_append.mp hother with hold | hnew
    · exact store.owned other hold
    · rw [List.mem_singleton.mp hnew]
      exact htask

/-- Rows of `squad_runs` with other columns. -/
def setRuns (store : Store) (key : RunKey) (clause : RunSet) : Store where
  tasks := store.tasks
  runs := store.runs.map fun run => if key.names run then clause.apply run else run
  task_ids := store.task_ids
  task_names := store.task_names
  run_ids := by
    have hids : (store.runs.map fun run => if key.names run then clause.apply run else run).map
        Run.id = store.runs.map Run.id := by
      rw [List.map_map]
      exact List.map_congr_left fun run _ => by simp only [Function.comp]; split <;> rfl
    rw [hids]
    exact store.run_ids
  owned run hrun := by
    obtain ⟨old, hold, rfl⟩ := List.mem_map.mp hrun
    have hsame : (if key.names old then clause.apply old else old).taskId = old.taskId := by
      split <;> rfl
    rw [hsame]
    exact store.owned old hold

/-- The tables without the runs of a task. -/
def dropRuns (store : Store) (taskId : Text) : Store where
  tasks := store.tasks
  runs := store.runs.filter fun run => run.taskId ≠ taskId
  task_ids := store.task_ids
  task_names := store.task_names
  run_ids := (List.filter_sublist.map Run.id).nodup store.run_ids
  owned run hrun := store.owned run (List.mem_filter.mp hrun).1

/-- The tables without a task that has no runs. -/
def dropTask (store : Store) (id : Text) (hruns : ∀ run ∈ store.runs, run.taskId ≠ id) :
    Store where
  tasks := store.tasks.filter fun task => task.id ≠ id
  runs := store.runs
  task_ids := (List.filter_sublist.map Task.id).nodup store.task_ids
  task_names := (List.filter_sublist.map Task.name).nodup store.task_names
  run_ids := store.run_ids
  owned run hrun := by
    obtain ⟨task, htask, hid⟩ := List.mem_map.mp (store.owned run hrun)
    have hother : task.id ≠ id := hid ▸ hruns run hrun
    rw [← hid]
    exact List.mem_map_of_mem (List.mem_filter.mpr ⟨htask, by simpa using hother⟩)

end Store

/-- What a statement does, with the number of rows it changed. -/
def Statement.apply (statement : Statement) (store : Store) : Except SqliteFailure (Nat × Store) :=
  match statement with
  | .insertTask task =>
    if hid : task.id ∈ store.tasks.map Task.id then .error .primaryKey
    else if hname : task.name ∈ store.tasks.map Task.name then .error .unique
    else .ok (1, store.addTask task hid hname)
  | .updateTasks key clause => .ok (store.tasks.countP key.names, store.setTasks key clause)
  | .deleteTask id =>
    if hruns : ∀ run ∈ store.runs, run.taskId ≠ id then
      .ok (store.tasks.countP (·.id = id), store.dropTask id hruns)
    else .error .foreignKey
  | .insertRun run =>
    if hid : run.id ∈ store.runs.map Run.id then .error .primaryKey
    else if htask : run.taskId ∈ store.tasks.map Task.id then .ok (1, store.addRun run hid htask)
    else .error .foreignKey
  | .updateRuns key clause => .ok (store.runs.countP key.names, store.setRuns key clause)
  | .deleteRuns taskId => .ok (store.runs.countP (·.taskId = taskId), store.dropRuns taskId)

/-! ## Sessions -/

/-- Why an operation of the store fails. -/
inductive StoreError where
  /-- The seconds between two evaluations are too many. -/
  | interval (seconds : Nat)
  | nameTaken (name : Text)
  | sqlite (failure : SqliteFailure)
  deriving DecidableEq

/-- The text of an error that the store words itself. -/
def StoreError.message (debug : Text → String) : StoreError → Option String
  | .interval seconds =>
    some s!"task interval_secs {seconds} exceeds SQLite's signed integer range"
  | .nameTaken name => some s!"a task named {debug name} already exists"
  | .sqlite _ => none

/-- What holds the connection to the tables. -/
abbrev Session (α : Type) := ExceptT StoreError (StateM Store) α

namespace Session

variable {α β : Type} {store : Store}

/-- The answer of a session, and the tables after it. -/
def call (session : Session α) (store : Store) : Except StoreError α × Store :=
  (ExceptT.run session).run store

/-- The tables after a session. -/
def after (session : Session α) (store : Store) : Store := (session.call store).2

/-- Execute one statement; the answer is the number of rows it changed. -/
def execute (fault : Bool) (statement : Statement) : Session Nat :=
  ExceptT.mk fun store =>
    if fault then (.error (.sqlite .fault), store)
    else
      match statement.apply store with
      | .ok (rows, after) => (.ok rows, after)
      | .error failure => (.error (.sqlite failure), store)

/-- Read from the tables. -/
def query (fault : Bool) (read : Store → α) : Session α :=
  ExceptT.mk fun store => if fault then (.error (.sqlite .fault), store) else (.ok (read store), store)

/-- An answer that needs no tables. -/
def settle (answer : Except StoreError α) : Session α := ExceptT.mk fun store => (answer, store)

/-- A session whose statements stay only if it succeeds. -/
def transaction (session : Session α) : Session α :=
  ExceptT.mk fun store =>
    match session.call store with
    | (.ok answer, after) => (.ok answer, after)
    | (.error error, _) => (.error error, store)

theorem call_bind (session : Session α) (next : α → Session β) :
    (session >>= next).call store =
      match session.call store with
      | (.ok answer, after) => (next answer).call after
      | (.error error, after) => (.error error, after) := by
  simp only [call, ExceptT.run_bind, StateT.run_bind]
  rcases (ExceptT.run session).run store with ⟨answer, after⟩
  cases answer <;> rfl

@[simp] theorem call_discard (session : Session α) :
    (discard session : Session PUnit).call store =
      match session.call store with
      | (.ok _, after) => (.ok PUnit.unit, after)
      | (.error error, after) => (.error error, after) := by
  have hmap : (discard session : Session PUnit) = session >>= fun _ => pure PUnit.unit := by
    rw [Functor.discard, bind_pure_comp]
    rfl
  rw [hmap, call_bind]
  rcases session.call store with ⟨answer | answer, after⟩ <;> rfl

theorem call_tryCatch (session : Session α) (handler : StoreError → Session α) :
    (tryCatch session handler).call store =
      match session.call store with
      | (.ok answer, after) => (.ok answer, after)
      | (.error error, after) => (handler error).call after := by
  have hrun : StateT.run session store = session.call store := rfl
  rcases hcall : session.call store with ⟨answer | answer, after⟩
  · rw [hcall] at hrun
    simp only [call, tryCatch, tryCatchThe, MonadExceptOf.tryCatch, ExceptT.tryCatch,
      ExceptT.run_mk, StateT.run_bind]
    rw [hrun]
    rfl
  · rw [hcall] at hrun
    simp only [call, tryCatch, tryCatchThe, MonadExceptOf.tryCatch, ExceptT.tryCatch,
      ExceptT.run_mk, StateT.run_bind]
    rw [hrun]
    rfl

@[simp] theorem call_settle (answer : Except StoreError α) :
    (settle answer).call store = (answer, store) := rfl

@[simp] theorem call_execute (fault : Bool) (statement : Statement) :
    (execute fault statement).call store =
      if fault then (.error (.sqlite .fault), store)
      else
        match statement.apply store with
        | .ok (rows, after) => (.ok rows, after)
        | .error failure => (.error (.sqlite failure), store) := rfl

@[simp] theorem call_query (fault : Bool) (read : Store → α) :
    (query fault read).call store =
      if fault then (.error (.sqlite .fault), store) else (.ok (read store), store) := rfl

@[simp] theorem call_transaction (session : Session α) :
    session.transaction.call store =
      match session.call store with
      | (.ok answer, after) => (.ok answer, after)
      | (.error error, _) => (.error error, store) := rfl

end Session

/-! ## The operations of the store -/

open Session

/-- The largest value of an `INTEGER` column. -/
def i64Max : Nat := 2 ^ 63 - 1

/-- What the edit leaves of the columns. -/
def TaskUpdate.merge (request : TaskUpdate) (existing : Columns) : Columns where
  description := request.description.getD existing.description
  intervalSecs := request.intervalSecs.getD existing.intervalSecs
  agent := request.agent.getD existing.agent
  model := request.model.getD existing.model
  overlays := request.overlays.getD existing.overlays
  prerequisites := request.prerequisites.or existing.prerequisites

/-- Which of its statements fail by themselves. -/
abbrev Faults := Nat → Bool

variable (faults : Faults)

/-- Store a new task. -/
def create (task : Task) : Session Unit :=
  if i64Max < task.intervalSecs then throw (.interval task.intervalSecs)
  else
    tryCatch (discard (execute (faults 0) (.insertTask { task with triggerRequestedAt := none })))
      fun
      | .sqlite .unique => throw (.nameTaken task.name)
      | error => throw error

/-- The task with a name. -/
def get (fault : Bool) (name : Text) : Session (Option Task) := query fault (·.named name)

/-- The columns an edit writes, from the row that was read. -/
def mergedColumns (request : TaskUpdate) (existing : Columns) : Except StoreError Columns :=
  if i64Max < (request.merge existing).intervalSecs then
    .error (.interval (request.merge existing).intervalSecs)
  else .ok (request.merge existing)

/-- Write the columns of an edit. -/
def writeColumns (fault : Bool) (name : Text) (columns : Columns) (now : Instant) : Session Unit :=
  discard (execute fault (.updateTasks (.name name) { columns := some columns, updatedAt := now }))

/-- Apply an edit to one task; the answer is the task as it then stands.  The connection is free
between the reading, the writing and the second reading. -/
def update (name : Text) (request : TaskUpdate) (now : Instant) : Session (Option Task) := do
  let some existing ← get (faults 0) name | return none
  let columns ← settle (mergedColumns request existing.toColumns)
  writeColumns (faults 1) name columns now
  get (faults 2) name

/-- Set whether a task is evaluated. -/
def setStatus (name : Text) (status : TaskStatus) (now : Instant) : Session Bool := do
  let rows ← execute (faults 0)
    (.updateTasks (.name name) { status := some status, updatedAt := now })
  return decide (0 < rows)

/-- Remove a task with its runs. -/
def delete (name : Text) : Session Bool :=
  transaction do
    let some task ← query (faults 0) (·.named name) | return false
    discard (execute (faults 1) (.deleteRuns task.id))
    let rows ← execute (faults 2) (.deleteTask task.id)
    query (faults 3) fun _ => decide (0 < rows)

/-- Ask for an evaluation ahead of the schedule. -/
def requestTrigger (name : Text) (now : Instant) : Session Bool := do
  let rows ← execute (faults 0) (.updateTasks (.name name)
    { triggerRequestedAt := some (some now), backoffUntil := some none, updatedAt := now })
  return decide (0 < rows)

/-- The row of a run that opens. -/
def openedRun (runId taskId : Text) (sessionId : Option Text) (startedAt : Instant)
    (unmetEnv : List Text) : Run :=
  { id := runId, taskId, status := .running, workflowPath := none, workflowStatePath := none
    sessionId, startedAt, finishedAt := none, error := none, reason := none, unmetEnv }

/-- Open a run of a task.  The two statements are not a transaction. -/
def startRunWithEnv (runId taskId : Text) (sessionId : Option Text) (startedAt : Instant)
    (unmetEnv : List Text) : Session Text := do
  discard (execute (faults 0) (.insertRun (openedRun runId taskId sessionId startedAt unmetEnv)))
  discard (execute (faults 1) (.updateTasks (.id taskId)
    { lastRunAt := some startedAt, updatedAt := startedAt, triggerRequestedAt := some none }))
  return runId

/-- Record how a run ended. -/
def finishRun (runId : Text) (status : RunStatus) (detail : RunDetail) (finishedAt : Instant) :
    Session Bool := do
  let rows ← execute (faults 0) (.updateRuns { id := some runId, running := true }
    { status := some status, workflowPath := some detail.workflowPath
      workflowStatePath := some detail.workflowStatePath, error := some detail.error
      finishedAt := some finishedAt, reason := some detail.reason })
  return decide (0 < rows)

/-- Set until when a task is not evaluated. -/
def setBackoff (name : Text) (until_ : Option Instant) (now : Instant) : Session Unit :=
  discard (execute (faults 0)
    (.updateTasks (.name name) { backoffUntil := some until_, updatedAt := now }))

/-- Record the workflow of a run that is in flight. -/
def setWorkflowStatePath (runId : Text) (workflowPath workflowStatePath : Option Text) :
    Session Unit :=
  discard (execute (faults 0) (.updateRuns { id := some runId }
    { workflowPath := some workflowPath, workflowStatePath := some workflowStatePath }))

/-- What a restarted daemon says about the runs it finds unfinished. -/
def orphaned : Text := "daemon restarted while this run was in flight".toList

/-- End the runs that a daemon left unfinished. -/
def reconcileOrphanedRuns (now : Instant) : Session Nat :=
  execute (faults 0) (.updateRuns { running := true }
    { status := some .interrupted, finishedAt := some now, error := some (some orphaned) })

/-- A task is to be evaluated; `elapsed` is SQLite's reckoning of the seconds between two moments. -/
def Store.isDue (elapsed : Instant → Instant → Nat → Bool) (now : Instant) (store : Store)
    (task : Task) : Bool :=
  task.status = .active &&
    (task.triggerRequestedAt.isSome ||
      task.backoffUntil.all (· ≤ now) && task.lastRunAt.all (elapsed now · task.intervalSecs)) &&
    !store.runs.any fun run => run.taskId = task.id && run.status = .running

/-- The order in which due tasks come: those asked for, then those that never ran, then those whose
last run is longest ago. -/
def Task.dueBefore (first second : Task) : Bool :=
  match first.triggerRequestedAt, second.triggerRequestedAt with
  | some _, none => true
  | none, some _ => false
  | _, _ =>
    match first.lastRunAt, second.lastRunAt with
    | none, _ => true
    | some _, none => false
    | some last, some other => last ≤ other

/-- The tasks to evaluate now. -/
def dueForEvaluation (fault : Bool) (elapsed : Instant → Instant → Nat → Bool) (now : Instant) :
    Session (List Task) :=
  query fault fun store =>
    (store.tasks.filter (store.isDue elapsed now)).insertionSort fun first second =>
      first.dueBefore second = true

end Awman.Tasks
