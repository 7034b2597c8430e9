import Awman.Library.Interleaving
import Awman.TaskOperations

/-!
# Edits of one task at the same time

An edit reads the row of its task, frees the connection, and then writes every column an edit may
change, those it does not carry from the row it read.  Two edits and any number of other operations
run interleaved: the second edit to write keeps what the first one wrote if it read the row after
that, or if the first one changed nothing.
-/

namespace Awman.Tasks

open Session Interleaving

/-! ## Merging columns -/

/-- No column is set by both requests. -/
structure TaskUpdate.Disjoint (first second : TaskUpdate) : Prop where
  description : first.description = none ∨ second.description = none
  intervalSecs : first.intervalSecs = none ∨ second.intervalSecs = none
  agent : first.agent = none ∨ second.agent = none
  model : first.model = none ∨ second.model = none
  overlays : first.overlays = none ∨ second.overlays = none
  prerequisites : first.prerequisites = none ∨ second.prerequisites = none

namespace TaskUpdate

variable {first second : TaskUpdate} {columns : Columns}

theorem Disjoint.symm (h : first.Disjoint second) : second.Disjoint first :=
  ⟨h.description.symm, h.intervalSecs.symm, h.agent.symm, h.model.symm, h.overlays.symm,
    h.prerequisites.symm⟩

theorem getD_comm {α : Type} {first second : Option α} (h : first = none ∨ second = none) (value : α) :
    first.getD (second.getD value) = second.getD (first.getD value) := by
  rcases h with rfl | rfl <;> rfl

/-- A column keeps what the first edit wrote if the second one does not set it, or the first one
changed nothing there. -/
theorem getD_kept_iff {α : Type} {first second : Option α} (h : first = none ∨ second = none)
    (value : α) : second.getD value = second.getD (first.getD value) ↔ first.getD value = value := by
  rcases h with rfl | rfl
  · simp
  · exact eq_comm

theorem or_eq_getD {α : Type} (first second : Option α) :
    first.or second = (first.map some).getD second := by cases first <;> rfl

/-- Requests without a common column may be merged in either order. -/
theorem merge_comm (h : first.Disjoint second) (columns : Columns) :
    first.merge (second.merge columns) = second.merge (first.merge columns) := by
  have hprerequisites : first.prerequisites.map some = none ∨
      second.prerequisites.map some = none := by
    rcases h.prerequisites with hnone | hnone
    · exact Or.inl (by rw [hnone]; rfl)
    · exact Or.inr (by rw [hnone]; rfl)
  simp only [merge, or_eq_getD, getD_comm h.description, getD_comm h.intervalSecs,
    getD_comm h.agent, getD_comm h.model, getD_comm h.overlays, getD_comm hprerequisites]

/-- Merging into the columns that were there before the first request loses it, unless it changed
nothing. -/
theorem merge_kept_iff (h : first.Disjoint second) (columns : Columns) :
    second.merge columns = second.merge (first.merge columns) ↔ first.merge columns = columns := by
  have hprerequisites : first.prerequisites.map some = none ∨
      second.prerequisites.map some = none := by
    rcases h.prerequisites with hnone | hnone
    · exact Or.inl (by rw [hnone]; rfl)
    · exact Or.inr (by rw [hnone]; rfl)
  simp only [Columns.ext_iff, merge, or_eq_getD, getD_kept_iff h.description,
    getD_kept_iff h.intervalSecs, getD_kept_iff h.agent, getD_kept_iff h.model,
    getD_kept_iff h.overlays, getD_kept_iff hprerequisites]

end TaskUpdate

/-! ## The tables but for the columns of one task -/

variable {name other : Text} {columns : Columns} {store twin : Store} {task row : Task}

/-- A row without what an edit of the task with a name writes. -/
def Task.blank (name : Text) (columns : Columns) (task : Task) : Task :=
  if task.name = name then { task with toColumns := columns, updatedAt := 0 } else task

@[simp] theorem Task.blank_id : (task.blank name columns).id = task.id := by
  unfold blank
  split <;> rfl

@[simp] theorem Task.blank_name : (task.blank name columns).name = task.name := by
  unfold blank
  split <;> rfl

theorem Task.blank_of_ne (h : task.name ≠ name) : task.blank name columns = task := if_neg h

theorem Task.blank_of_eq (h : task.name = name) :
    task.blank name columns = { task with toColumns := columns, updatedAt := 0 } := if_pos h

theorem Task.blank_blank : (task.blank name columns).blank name columns = task.blank name columns := by
  by_cases h : task.name = name
  · rw [Task.blank_of_eq (show (task.blank name columns).name = name by rw [Task.blank_name, h]),
      Task.blank_of_eq h]
  · rw [Task.blank_of_ne h, Task.blank_of_ne h]

/-- The tables are the same but for what an edit of the task writes. -/
structure Alike (name : Text) (columns : Columns) (store twin : Store) : Prop where
  tasks : store.tasks.map (Task.blank name columns) = twin.tasks.map (Task.blank name columns)
  runs : store.runs = twin.runs

namespace Alike

theorem refl (name : Text) (columns : Columns) (store : Store) : Alike name columns store store :=
  ⟨rfl, rfl⟩

theorem trans {third : Store} (h : Alike name columns store twin)
    (hnext : Alike name columns twin third) : Alike name columns store third :=
  ⟨h.tasks.trans hnext.tasks, h.runs.trans hnext.runs⟩

theorem symm (h : Alike name columns store twin) : Alike name columns twin store :=
  ⟨h.tasks.symm, h.runs.symm⟩

/-- What only looks at identifiers and names sees no difference. -/
theorem map_eq {α : Type} (h : Alike name columns store twin) {view : Task → α}
    (hview : ∀ task, view (task.blank name columns) = view task) :
    store.tasks.map view = twin.tasks.map view := by
  have hblank := congrArg (List.map view) h.tasks
  have hsame : view ∘ Task.blank name columns = view := funext hview
  rw [List.map_map, List.map_map, hsame] at hblank
  exact hblank

section

variable (h : Alike name columns store twin)
include h

theorem ids :
    store.tasks.map Task.id = twin.tasks.map Task.id := h.map_eq fun _ => Task.blank_id

theorem names :
    store.tasks.map Task.name = twin.tasks.map Task.name := h.map_eq fun _ => Task.blank_name

/-- A row has its counterpart. -/
theorem mem (htask : task ∈ store.tasks) :
    ∃ row ∈ twin.tasks, row.blank name columns = task.blank name columns := by
  have hmem := List.mem_map_of_mem (f := Task.blank name columns) htask
  rw [h.tasks] at hmem
  exact List.mem_map.mp hmem

/-- The row of the task itself is the same but for the columns of an edit. -/
theorem named (htask : store.named name = some task) :
    ∃ row, twin.named name = some row ∧
      task = { row with toColumns := task.toColumns, updatedAt := task.updatedAt } := by
  obtain ⟨hmem, hname⟩ := Store.named_eq_some_iff.mp htask
  obtain ⟨row, hrow, hblank⟩ := h.mem hmem
  have hrowname : row.name = name := by
    have hsame := congrArg Task.name hblank
    rw [Task.blank_name, Task.blank_name] at hsame
    exact hsame.trans hname
  refine ⟨row, Store.named_eq_some_iff.mpr ⟨hrow, hrowname⟩, ?_⟩
  rw [Task.blank_of_eq hname, Task.blank_of_eq hrowname] at hblank
  simp only [Task.mk.injEq] at hblank
  ext <;> simp [hblank]

/-- Other tasks have the same row. -/
theorem named_of_ne (hother : other ≠ name) : store.named other = twin.named other := by
  have hside : ∀ {store twin : Store} {task : Task}, Alike name columns store twin →
      store.named other = some task → twin.named other = some task := by
    intro store twin task h htask
    obtain ⟨hmem, hname⟩ := Store.named_eq_some_iff.mp htask
    obtain ⟨row, hrow, hblank⟩ := h.mem hmem
    have hrowname : row.name = other := by
      have hsame := congrArg Task.name hblank
      rw [Task.blank_name, Task.blank_name] at hsame
      exact hsame.trans hname
    rw [Task.blank_of_ne (by rw [hrowname]; exact hother),
      Task.blank_of_ne (by rw [hname]; exact hother)] at hblank
    rw [← hblank]
    exact Store.named_eq_some_iff.mpr ⟨hrow, hrowname⟩
  ext task
  exact ⟨hside h, hside h.symm⟩

end

end Alike

/-! ## Operations that an edit does not disturb -/

/-- What a session answers and leaves does not depend on what an edit of the task writes. -/
def Blind {α : Type} (name : Text) (columns : Columns) (session : Session α) : Prop :=
  ∀ store twin, Alike name columns store twin →
    (session.call store).1 = (session.call twin).1 ∧
      Alike name columns (session.call store).2 (session.call twin).2

namespace Blind

variable {α β : Type} {session : Session α}

theorem pure (answer : α) : Blind name columns (Pure.pure answer : Session α) :=
  fun _ _ h => ⟨rfl, h⟩

theorem throw (error : StoreError) : Blind name columns (MonadExcept.throw error : Session α) :=
  fun _ _ h => ⟨rfl, h⟩

theorem bind {next : α → Session β} (hfirst : Blind name columns session)
    (hnext : ∀ answer, Blind name columns (next answer)) : Blind name columns (session >>= next) := by
  intro store twin h
  obtain ⟨hanswer, halike⟩ := hfirst store twin h
  rw [call_bind, call_bind]
  rcases hcall : session.call store with ⟨answer | answer, between⟩
  · rw [hcall] at hanswer halike
    rcases htwin : session.call twin with ⟨other, after⟩
    rw [htwin] at hanswer halike
    obtain rfl : Except.error answer = other := hanswer
    exact ⟨rfl, halike⟩
  · rw [hcall] at hanswer halike
    rcases htwin : session.call twin with ⟨other, after⟩
    rw [htwin] at hanswer halike
    obtain rfl : Except.ok answer = other := hanswer
    exact hnext answer between after halike

theorem discard (h : Blind name columns session) : Blind name columns (Functor.discard session) := by
  have hmap : (Functor.discard session : Session PUnit) =
      session >>= fun _ => Pure.pure PUnit.unit := by
    rw [Functor.discard, bind_pure_comp]
    rfl
  rw [hmap]
  exact bind h fun _ => pure _

theorem tryCatch {handler : StoreError → Session α} (h : Blind name columns session)
    (hhandler : ∀ error, Blind name columns (handler error)) :
    Blind name columns (MonadExcept.tryCatch session handler) := by
  intro store twin halike
  obtain ⟨hanswer, hafter⟩ := h store twin halike
  rw [call_tryCatch, call_tryCatch]
  rcases hcall : session.call store with ⟨answer | answer, between⟩
  · rw [hcall] at hanswer hafter
    rcases htwin : session.call twin with ⟨other, after⟩
    rw [htwin] at hanswer hafter
    obtain rfl : Except.error answer = other := hanswer
    exact hhandler answer between after hafter
  · rw [hcall] at hanswer hafter
    rcases htwin : session.call twin with ⟨other, after⟩
    rw [htwin] at hanswer hafter
    obtain rfl : Except.ok answer = other := hanswer
    exact ⟨rfl, hafter⟩

theorem transaction (h : Blind name columns session) : Blind name columns session.transaction := by
  intro store twin halike
  obtain ⟨hanswer, hafter⟩ := h store twin halike
  rw [call_transaction, call_transaction]
  rcases hcall : session.call store with ⟨answer | answer, between⟩
  · rw [hcall] at hanswer
    rcases htwin : session.call twin with ⟨other, after⟩
    rw [htwin] at hanswer
    obtain rfl : Except.error answer = other := hanswer
    exact ⟨rfl, halike⟩
  · rw [hcall] at hanswer hafter
    rcases htwin : session.call twin with ⟨other, after⟩
    rw [htwin] at hanswer hafter
    obtain rfl : Except.ok answer = other := hanswer
    exact ⟨rfl, hafter⟩

theorem query {fault : Bool} {read : Store → α}
    (h : ∀ store twin, Alike name columns store twin → read store = read twin) :
    Blind name columns (Session.query fault read) := by
  intro store twin halike
  rw [call_query, call_query, h store twin halike]
  cases fault <;> exact ⟨rfl, halike⟩

end Blind

/-- A statement that an edit of the task does not disturb: it reads identifiers and names only, and
writes none of the columns of that task. -/
def Statement.Spares (name : Text) : Statement → Prop
  | .updateTasks key clause => clause.columns = none ∨ ∃ other, key = .name other ∧ other ≠ name
  | _ => True

/-- An update of other columns does the same to a row without its columns. -/
theorem TaskSet.blank_apply {clause : TaskSet} (h : clause.columns = none) (task : Task) :
    (clause.apply task).blank name columns =
      (clause.apply (task.blank name columns)).blank name columns := by
  by_cases hname : task.name = name
  · have hblank : (task.blank name columns).name = name := by rw [Task.blank_name, hname]
    rw [Task.blank_of_eq (show (clause.apply task).name = name from hname),
      Task.blank_of_eq (show (clause.apply (task.blank name columns)).name = name from hblank),
      Task.blank_of_eq hname]
    simp [apply, h]
  · rw [Task.blank_of_ne hname]

theorem TaskKey.names_blank (key : TaskKey) (task : Task) :
    key.names (task.blank name columns) = key.names task := by
  cases key <;> simp [names]

/-- A sparing update keeps the stores alike. -/
theorem Alike.setTasks {key : TaskKey} {clause : TaskSet} (h : Alike name columns store twin)
    (hspares : (Statement.updateTasks key clause).Spares name) :
    Alike name columns (store.setTasks key clause) (twin.setTasks key clause) := by
  have hrow : ∀ task : Task,
      (if key.names task then clause.apply task else task).blank name columns =
        ((fun row => if key.names row then clause.apply row else row)
          (task.blank name columns)).blank name columns := by
    intro task
    dsimp only
    rw [TaskKey.names_blank]
    rcases hspares with hcolumns | ⟨other, rfl, hother⟩
    · split
      · exact TaskSet.blank_apply hcolumns task
      · exact Task.blank_blank.symm
    · by_cases hname : task.name = name
      · have hnot : TaskKey.names (.name other) task = false :=
          decide_eq_false (by rw [hname]; exact hother.symm)
        rw [hnot]
        exact Task.blank_blank.symm
      · rw [Task.blank_of_ne hname]
  constructor
  · rw [Store.tasks_setTasks, Store.tasks_setTasks, List.map_map, List.map_map]
    have hfactor : Task.blank name columns ∘
        (fun task => if key.names task then clause.apply task else task) =
        (Task.blank name columns ∘ fun row => if key.names row then clause.apply row else row) ∘
          Task.blank name columns := funext hrow
    rw [hfactor, ← List.map_map, h.tasks, List.map_map]
  · exact h.runs

/-- Stores alike up to one row count alike. -/
theorem Alike.countP {key : TaskKey} (h : Alike name columns store twin) :
    store.tasks.countP key.names = twin.tasks.countP key.names := by
  have hmap : store.tasks.map key.names = twin.tasks.map key.names :=
    h.map_eq (TaskKey.names_blank key)
  have hcount := congrArg (List.countP id) hmap
  rw [List.countP_map, List.countP_map] at hcount
  exact hcount

/-- What a statement that spares the columns does. -/
theorem Alike.apply {statement : Statement} (h : Alike name columns store twin)
    (hspares : statement.Spares name) :
    (∃ failure, statement.apply store = .error failure ∧ statement.apply twin = .error failure) ∨
    ∃ rows after other, statement.apply store = .ok (rows, after) ∧
      statement.apply twin = .ok (rows, other) ∧ Alike name columns after other := by
  cases statement with
  | insertTask task =>
    by_cases hid : task.id ∈ store.tasks.map Task.id
    · exact Or.inl ⟨.primaryKey, dif_pos hid, dif_pos (h.ids ▸ hid)⟩
    · by_cases hname : task.name ∈ store.tasks.map Task.name
      · exact Or.inl ⟨.unique, (dif_neg hid).trans (dif_pos hname),
          (dif_neg (h.ids ▸ hid)).trans (dif_pos (h.names ▸ hname))⟩
      · refine Or.inr ⟨1, _, _, (dif_neg hid).trans (dif_neg hname),
          (dif_neg (h.ids ▸ hid)).trans (dif_neg (h.names ▸ hname)), ?_⟩
        constructor
        · rw [Store.tasks_addTask, Store.tasks_addTask, List.map_append, List.map_append, h.tasks]
        · exact h.runs
  | updateTasks key clause =>
    exact Or.inr ⟨_, _, _, rfl, congrArg (fun rows => Except.ok (rows, _)) h.countP.symm,
      h.setTasks hspares⟩
  | deleteTask id =>
    by_cases hruns : ∀ run ∈ store.runs, run.taskId ≠ id
    · have htwin : ∀ run ∈ twin.runs, run.taskId ≠ id := by
        rw [← h.runs]
        exact hruns
      have hcount := congrArg (List.countP (· = id)) h.ids
      rw [List.countP_map, List.countP_map] at hcount
      refine Or.inr ⟨_, _, twin.dropTask id htwin, dif_pos hruns, (dif_pos htwin).trans ?_, ?_⟩
      · exact congrArg (fun rows => Except.ok (rows, twin.dropTask id htwin)) hcount.symm
      · constructor
        · rw [Store.tasks_dropTask, Store.tasks_dropTask]
          have hfilter : ∀ tasks : List Task,
              (tasks.filter fun task => task.id ≠ id).map (Task.blank name columns) =
                (tasks.map (Task.blank name columns)).filter fun task => task.id ≠ id := by
            intro tasks
            rw [List.filter_map]
            congr 2
            funext task
            simp
          rw [hfilter, hfilter, h.tasks]
        · exact h.runs
    · exact Or.inl ⟨.foreignKey, dif_neg hruns, dif_neg (by rw [← h.runs]; exact hruns)⟩
  | insertRun run =>
    by_cases hid : run.id ∈ store.runs.map Run.id
    · exact Or.inl ⟨.primaryKey, dif_pos hid, dif_pos (h.runs ▸ hid)⟩
    · by_cases htask : run.taskId ∈ store.tasks.map Task.id
      · refine Or.inr ⟨1, _, _, (dif_neg hid).trans (dif_pos htask),
          (dif_neg (h.runs ▸ hid)).trans (dif_pos (h.ids ▸ htask)), h.tasks, ?_⟩
        rw [Store.runs_addRun, Store.runs_addRun, h.runs]
      · exact Or.inl ⟨.foreignKey, (dif_neg hid).trans (dif_neg htask),
          (dif_neg (h.runs ▸ hid)).trans (dif_neg (h.ids ▸ htask))⟩
  | updateRuns key clause =>
    refine Or.inr ⟨_, _, twin.setRuns key clause, rfl, ?_, h.tasks, ?_⟩
    · rw [Statement.apply, h.runs]
    · rw [Store.runs_setRuns, Store.runs_setRuns, h.runs]
  | deleteRuns taskId =>
    refine Or.inr ⟨_, _, twin.dropRuns taskId, rfl, ?_, h.tasks, ?_⟩
    · rw [Statement.apply, h.runs]
    · rw [Store.runs_dropRuns, Store.runs_dropRuns, h.runs]

/-- A sparing statement cannot tell the stores apart. -/
theorem Blind.execute {fault : Bool} {statement : Statement} (hspares : statement.Spares name) :
    Blind name columns (Session.execute fault statement) := by
  intro store twin h
  rw [call_execute, call_execute]
  cases fault with
  | true => exact ⟨rfl, h⟩
  | false =>
    rcases h.apply hspares with ⟨failure, hstore, htwin⟩ | ⟨rows, after, other, hstore, htwin, halike⟩
    · rw [hstore, htwin]
      exact ⟨rfl, h⟩
    · rw [hstore, htwin]
      exact ⟨rfl, halike⟩

namespace Operation

/-- Any operation but a removal of the task and another edit of its columns. -/
def spares (name : Text) : Operation → Bool
  | .delete other => other ≠ name
  | .writeColumns other _ _ => other ≠ name
  | _ => true

variable {operation : Operation} {faults : Faults}

/-- What the statements of such an operation are. -/
theorem Executes.spares {statement : Statement} (h : operation.Executes statement)
    (hspares : operation.spares name = true) : statement.Spares name := by
  cases h with
  | writeColumns other columns now => exact Or.inr ⟨other, rfl, of_decide_eq_true hspares⟩
  | setStatus | requestTrigger | runStarted | setBackoff => exact Or.inl rfl
  | create | insertRun | finishRun | setWorkflowStatePath | reconcile => trivial

/-- Such an operation does the same whatever an edit of the task writes. -/
theorem blind (hspares : operation.spares name = true) :
    Blind name columns (operation.session faults) := by
  have hexecute : ∀ {fault : Bool} {statement : Statement}, operation.Executes statement →
      Blind name columns (execute fault statement) := fun h => .execute (h.spares hspares)
  cases operation with
  | create task =>
    rw [session, Tasks.create]
    split
    · exact .throw _
    · refine .tryCatch (.discard (hexecute (.create task))) ?_
      intro error
      split
      · exact .throw _
      · exact .throw _
  | writeColumns other columns now => exact .discard (hexecute (.writeColumns other columns now))
  | setStatus other status now =>
    exact .discard (.bind (hexecute (.setStatus other status now)) fun _ => .pure _)
  | delete other =>
    refine .discard (.transaction (.bind (.query ?_) fun found => ?_))
    · intro store twin h
      exact h.named_of_ne (of_decide_eq_true hspares)
    · cases found with
      | none => exact .pure _
      | some task =>
        refine .bind (.discard (.execute trivial)) fun _ => .bind (.execute trivial) fun _ => ?_
        exact .query fun _ _ _ => rfl
  | requestTrigger other now =>
    exact .discard (.bind (hexecute (.requestTrigger other now)) fun _ => .pure _)
  | startRun runId taskId sessionId startedAt unmetEnv =>
    refine .discard (.bind (.discard (hexecute ?_)) fun _ =>
      .bind (.discard (hexecute ?_)) fun _ => .pure _)
    · exact .insertRun runId taskId sessionId startedAt unmetEnv
    · exact .runStarted runId taskId sessionId startedAt unmetEnv
  | finishRun runId status detail finishedAt =>
    exact .discard (.bind (hexecute (.finishRun runId status detail finishedAt)) fun _ => .pure _)
  | setBackoff other until_ now => exact .discard (hexecute (.setBackoff other until_ now))
  | setWorkflowStatePath runId workflowPath workflowStatePath =>
    exact .discard (hexecute (.setWorkflowStatePath runId workflowPath workflowStatePath))
  | reconcile now => exact .discard (hexecute (.reconcile now))

/-- The task with a name stays, with the columns of an edit as they were. -/
def KeepsColumns (name : Text) (store after : Store) : Prop :=
  ∀ task, store.named name = some task →
    ∃ row, after.named name = some row ∧ row.toColumns = task.toColumns

instance : IsPreorder Store (KeepsColumns name) where
  refl _ task htask := ⟨task, htask, rfl⟩
  trans _ _ _ hfirst hsecond task htask := by
    obtain ⟨row, hrow, hcolumns⟩ := hfirst task htask
    obtain ⟨last, hlast, hsame⟩ := hsecond row hrow
    exact ⟨last, hlast, hsame.trans hcolumns⟩

/-- Such an operation keeps the columns of the task. -/
theorem keepsColumns (hspares : operation.spares name = true) (store : Store) :
    KeepsColumns name store (operation.after faults store) := by
  refine keeps ?_ ?_
  · intro statement hexecutes store rows after happly task htask
    obtain ⟨hmem, hname⟩ := Store.named_eq_some_iff.mp htask
    have hstatement := hexecutes.spares hspares
    cases statement with
    | insertTask new =>
      obtain ⟨hid, hfresh, rfl⟩ := Statement.apply_insertTask happly
      exact ⟨task, Store.named_eq_some_iff.mpr ⟨List.mem_append_left _ hmem, hname⟩, rfl⟩
    | updateTasks key clause =>
      obtain rfl := Statement.apply_updateTasks happly
      have hrow := List.mem_map_of_mem
        (f := fun task => if key.names task then clause.apply task else task) hmem
      by_cases hkey : key.names task = true
      · rw [if_pos hkey] at hrow
        refine ⟨clause.apply task, Store.named_eq_some_iff.mpr ⟨hrow, hname⟩, ?_⟩
        rcases hstatement with hcolumns | ⟨other, rfl, hother⟩
        · rw [TaskSet.apply, hcolumns, Option.getD_none]
        · exact absurd ((of_decide_eq_true hkey).symm.trans hname) hother
      · rw [if_neg hkey] at hrow
        exact ⟨task, Store.named_eq_some_iff.mpr ⟨hrow, hname⟩, rfl⟩
    | deleteTask | deleteRuns => cases hexecutes
    | insertRun run =>
      obtain ⟨hid, hknown, rfl⟩ := Statement.apply_insertRun happly
      exact ⟨task, htask, rfl⟩
    | updateRuns key clause =>
      obtain rfl := Statement.apply_updateRuns happly
      exact ⟨task, htask, rfl⟩
  · intro other hoperation store found hruns hfound task htask
    obtain ⟨hmem, hname⟩ := Store.named_eq_some_iff.mp htask
    obtain ⟨hother, hothername⟩ := Store.named_eq_some_iff.mp hfound
    have hdifferent : task.id ≠ found.id := by
      intro hid
      rw [hoperation] at hspares
      have hsame := store.task_eq hmem hother hid
      rw [hsame, hothername] at hname
      exact of_decide_eq_true hspares hname
    exact ⟨task, Store.named_eq_some_iff.mpr
      ⟨List.mem_filter.mpr ⟨hmem, decide_eq_true hdifferent⟩, hname⟩, rfl⟩

end Operation

end Awman.Tasks
