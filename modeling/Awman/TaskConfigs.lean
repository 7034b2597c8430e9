import Awman.Library.NameMaps
import Awman.TaskOperations

/-!
# Tasks and their config files

A task is a row of the store, and the agents of its workflows are in a config file beside its workspace.
Creating or editing a task checks the request, writes the file and then the row.  The name of a new task
is compared with the others only when the row is inserted.
-/

namespace Awman.Tasks

open Awman.Squad
open Awman.Overlay (HostPath joinPath textBytes)
open Awman.Checks

/-- Why a request of the administrator fails. -/
inductive GatewayError where
  | refused (message : String)
  /-- The path is not below the directory of the tasks. -/
  | invalidPath (path : HostPath) (reason : String)
  /-- A file or directory cannot be changed. -/
  | io (path : HostPath) (error : String)
  /-- An operation of the store fails. -/
  | store (error : StoreError)

/-- The effective root of a task, as it is resolved once. -/
structure ResolvedWorkspace where
  /-- The directory the task is bound to. -/
  repoScope : HostPath
  mountScope : MountScope
  /-- The repository, if the directory is the root of one. -/
  gitRoot : Option HostPath
  /-- The directory that belongs to the task. -/
  durableWorkspace : HostPath

/-- What the gateway of the daemon works with. -/
structure TaskGateway where
  /-- What the checks of requests see. -/
  checks : LocalGateway
  /-- Why the runtime does not run tasks, if it does not. -/
  tierRefusal : Option String
  tasksDir : HostPath
  /-- Whether a path stays below the directory of the tasks. -/
  underTasks : HostPath → Bool
  leadsTo : HostPath → HostPath
  document : AgentPool → Text
  /-- Why a config file cannot be replaced or removed, if it cannot. -/
  configFault : HostPath → Option String
  /-- Whether reading the task before an edit fails. -/
  getFault : Bool
  /-- Which statements of the store fail by themselves. -/
  faults : Faults
  /-- The identifier for a new task. -/
  newId : Text
  now : Instant

/-- The tables, and the files with their contents. -/
structure World where
  store : Store
  files : NameMap HostPath Text

/-- The columns an edit writes. -/
def toStoreUpdate (req : UpdateTask) : TaskUpdate where
  prerequisites := req.prerequisites
  description := req.description
  intervalSecs := req.intervalSecs
  agent := req.agent
  model := req.model
  overlays := req.overlays

/-- A check whose message refuses the request. -/
def orRefused {α : Type} (check : Except String α) : Except GatewayError α :=
  match check with
  | .ok value => .ok value
  | .error message => .error (.refused message)

namespace TaskGateway

variable (gateway : TaskGateway)

/-- A path is below the directory of the tasks. -/
def validateUnderRoot (path : HostPath) : Except GatewayError Unit :=
  if gateway.underTasks path then .ok ()
  else .error (.invalidPath path "task directory must reside under the squad tasks root")

/-- Where the files of a task are. -/
def taskBase (name : Text) : HostPath := joinPath gateway.tasksDir (textBytes name)

/-- The workspace of a task. -/
def taskDir (name : Text) : Except GatewayError HostPath := do
  gateway.validateUnderRoot (gateway.taskBase name)
  return joinPath (gateway.taskBase name) (textBytes "workspace".toList)

/-- The path of the config file of a task. -/
def configPath (name : Text) : HostPath :=
  joinPath (gateway.taskBase name) (textBytes "config.json".toList)

/-- The config file of a task. -/
def taskConfigFile (name : Text) : Except GatewayError HostPath := do
  gateway.validateUnderRoot (gateway.taskBase name)
  return gateway.configPath name

/-- Sandboxes are refused before anything else. -/
def requireContainerTier : Except GatewayError Unit :=
  match gateway.tierRefusal with
  | none => .ok ()
  | some message => .error (.refused message)

/-- Resolve the workspace and the scope of a new task. -/
def resolveWorkspace (req : CreateTask) : Except GatewayError ResolvedWorkspace := do
  let durable ← gateway.taskDir req.name
  let gitRoot ← orRefused (gateway.checks.repositoryOf req.workspace)
  match req.workspace with
  | .default => return ⟨durable, .directory, none, durable⟩
  | .custom path =>
    let canonical := (gateway.checks.host.canonicalize path).getD path
    match gitRoot with
    | some gitRoot => return ⟨canonical, req.mountScope, some gitRoot, durable⟩
    | none => return ⟨canonical, .directory, none, durable⟩

/-- Check all that must hold before a task is stored. -/
def validateCreate (req : CreateTask) : Except GatewayError ResolvedWorkspace := do
  orRefused (gateway.checks.checkFields req)
  let resolved ← gateway.resolveWorkspace req
  orRefused (gateway.checks.checkAgents resolved.gitRoot req)
  return resolved

/-- Create the workspace of a task, if it is not there. -/
def ensureDurableWorkspace (path : HostPath) : Except GatewayError Unit :=
  if gateway.checks.host.createDirAll path then .ok () else .error (.io path "cannot be created")

/-- Write the config file of a task, or remove it when there are no agents. -/
def writeTaskConfig (name : Text) (pool : AgentPool) (files : NameMap HostPath Text) :
    Except GatewayError (NameMap HostPath Text) := do
  let path ← gateway.taskConfigFile name
  if pool.entries.isEmpty then
    match gateway.configFault path with
    | some error => .error (.io path error)
    | none => return files.erase (gateway.leadsTo path)
  else
    orRefused (validateAgentsToModels gateway.checks.host.debug pool)
    match gateway.configFault path with
    | some error => .error (.io path error)
    | none => return files.insert (gateway.leadsTo path) (gateway.document pool)

/-- The row of a new task. -/
def newTask (req : CreateTask) (resolved : ResolvedWorkspace) : Task where
  description := req.description
  intervalSecs := req.intervalSecs
  agent := req.agent
  model := req.model
  overlays := req.overlays
  prerequisites := req.prerequisites
  id := gateway.newId
  name := req.name
  repoScope := Utf8Text.fromUtf8Lossy resolved.repoScope
  mountScope := resolved.mountScope
  status := .active
  backoffUntil := none
  createdAt := gateway.now
  updatedAt := gateway.now
  lastRunAt := none
  triggerRequestedAt := none

/-- The checks of a new task and its workspace: no file or row is written. -/
def prepareCreate (req : CreateTask) : Except GatewayError ResolvedWorkspace := do
  gateway.requireContainerTier
  let resolved ← gateway.validateCreate req
  gateway.ensureDurableWorkspace resolved.durableWorkspace
  return resolved

/-- Create a task. -/
def create (req : CreateTask) (world : World) : Except GatewayError Task × World :=
  match gateway.prepareCreate req with
  | .error error => (.error error, world)
  | .ok resolved =>
    match gateway.writeTaskConfig req.name req.agentsToModels world.files with
    | .error error => (.error error, world)
    | .ok files =>
      let task := gateway.newTask req resolved
      match (Tasks.create gateway.faults task).call world.store with
      | (.ok _, store) => (.ok task, ⟨store, files⟩)
      | (.error error, store) => (.error (.store error), ⟨store, files⟩)

/-- Check the fields an edit carries. -/
def validateUpdate (existing : Task) (req : UpdateTask) : Except GatewayError Unit :=
  orRefused (gateway.checks.checkUpdate (textBytes existing.repoScope) existing.mountScope
    existing.agent req)

/-- No task has the name. -/
def notFound (name : Text) : GatewayError :=
  .refused s!"task {gateway.checks.host.debug name} was not found"

/-- The task to edit, when the edit passes its checks. -/
def prepareUpdate (name : Text) (req : UpdateTask) (store : Store) : Except GatewayError Task := do
  gateway.requireContainerTier
  match ((Tasks.get gateway.getFault name).call store).1 with
  | .error error => .error (.store error)
  | .ok none => .error (gateway.notFound name)
  | .ok (some existing) =>
    gateway.validateUpdate existing req
    return existing

/-- Write the config file of an edit that carries agents. -/
def updateConfig (name : Text) (req : UpdateTask) (files : NameMap HostPath Text) :
    Except GatewayError (NameMap HostPath Text) :=
  match req.agentsToModels with
  | none => .ok files
  | some pool => gateway.writeTaskConfig name pool files

/-- Edit a task: its config file is written before its row. -/
def update (name : Text) (req : UpdateTask) (world : World) : Except GatewayError Task × World :=
  match gateway.prepareUpdate name req world.store with
  | .error error => (.error error, world)
  | .ok _ =>
    match gateway.updateConfig name req world.files with
    | .error error => (.error error, world)
    | .ok files =>
      match (Tasks.update gateway.faults name (toStoreUpdate req) gateway.now).call world.store with
      | (.ok (some updated), store) => (.ok updated, ⟨store, files⟩)
      | (.ok none, store) => (.error (gateway.notFound name), ⟨store, files⟩)
      | (.error error, store) => (.error (.store error), ⟨store, files⟩)

/-! ## What a failed request leaves -/

/-- What is in the config file of a task. -/
def config (world : World) (name : Text) : Option Text :=
  world.files.lookup (gateway.leadsTo (gateway.configPath name))

/-- Every row of a task, and the config file of every task that was there, is as it was. -/
def Unchanged (before after : World) : Prop :=
  after.store.tasks = before.store.tasks ∧
    ∀ task ∈ before.store.tasks, gateway.config after task.name = gateway.config before task.name

/-- A request that fails leaves the tasks as they were. -/
def FailsCleanly (before : World) (result : Except GatewayError Task × World) : Prop :=
  ∀ error, result.1 = .error error → gateway.Unchanged before result.2

/-- What the config file of a task with these agents holds. -/
def written (pool : AgentPool) : Option Text :=
  if pool.entries.isEmpty then none else some (gateway.document pool)

/-- The config file with these agents can be written. -/
def Writable (name : Text) (pool : AgentPool) : Prop :=
  gateway.underTasks (gateway.taskBase name) = true ∧
    gateway.configFault (gateway.configPath name) = none ∧
      (pool.entries.isEmpty = false → validateAgentsToModels gateway.checks.host.debug pool = .ok ())

/-- The config file is that of a task, and holds something else. -/
def Overwrites (world : World) (name : Text) (pool : AgentPool) : Prop :=
  (∃ task ∈ world.store.tasks,
      gateway.leadsTo (gateway.configPath task.name) = gateway.leadsTo (gateway.configPath name)) ∧
    gateway.config world name ≠ gateway.written pool

/-- The row of a new task is refused. -/
def InsertRefused (store : Store) (name : Text) : Prop :=
  gateway.faults 0 = true ∨ gateway.newId ∈ store.tasks.map Task.id ∨ name ∈ store.tasks.map Task.name

/-- A step of writing and reading back the row of an edit fails. -/
def EditRefused (existing : Task) (req : UpdateTask) : Prop :=
  gateway.faults 0 = true ∨ i64Max < ((toStoreUpdate req).merge existing.toColumns).intervalSecs ∨
    gateway.faults 1 = true ∨ gateway.faults 2 = true

/-- The row of an edit is written, with something else in it. -/
def RowChanged (existing : Task) (req : UpdateTask) : Prop :=
  gateway.faults 0 = false ∧ ((toStoreUpdate req).merge existing.toColumns).intervalSecs ≤ i64Max ∧
    gateway.faults 1 = false ∧
      ((toStoreUpdate req).merge existing.toColumns ≠ existing.toColumns ∨
        gateway.now ≠ existing.updatedAt)

/-- The config file of an edit is overwritten. -/
def ConfigChanged (world : World) (name : Text) (req : UpdateTask) : Prop :=
  ∃ pool, req.agentsToModels = some pool ∧ gateway.Overwrites world name pool

/-- The config file of an edit can be written, if it carries agents. -/
def ConfigWritable (name : Text) (req : UpdateTask) : Prop :=
  ∀ pool, req.agentsToModels = some pool → gateway.Writable name pool

variable {gateway} {world : World} {name : Text} {pool : AgentPool} {files : NameMap HostPath Text}

theorem orRefused_eq_ok {α : Type} {check : Except String α} {value : α} :
    orRefused check = .ok value ↔ check = .ok value := by
  cases check with
  | error | ok => simp [orRefused]

theorem validateUnderRoot_eq_ok {path : HostPath} :
    gateway.validateUnderRoot path = .ok () ↔ gateway.underTasks path = true := by
  unfold validateUnderRoot
  split
  case isTrue h => exact iff_of_true rfl h
  case isFalse h => exact iff_of_false (fun heq => by cases heq) h

theorem taskConfigFile_eq_ok {path : HostPath} :
    gateway.taskConfigFile name = .ok path ↔
      gateway.underTasks (gateway.taskBase name) = true ∧ path = gateway.configPath name := by
  unfold taskConfigFile
  rw [bind_eq_ok]
  constructor
  · rintro ⟨_, hroot, hpath⟩
    exact ⟨validateUnderRoot_eq_ok.mp hroot, (Except.ok.inj hpath).symm⟩
  · rintro ⟨hroot, rfl⟩
    exact ⟨(), validateUnderRoot_eq_ok.mpr hroot, rfl⟩

/-- Writing the config file changes this one file, if it can be written. -/
theorem writeTaskConfig_spec (gateway : TaskGateway) (name : Text) (pool : AgentPool)
    (files : NameMap HostPath Text) :
    (gateway.Writable name pool ∧ ∃ after, gateway.writeTaskConfig name pool files = .ok after ∧
        ∀ path, after.lookup path =
          if path = gateway.leadsTo (gateway.configPath name) then gateway.written pool
          else files.lookup path) ∨
      ¬gateway.Writable name pool ∧ ∃ error, gateway.writeTaskConfig name pool files = .error error := by
  unfold writeTaskConfig
  cases hfile : gateway.taskConfigFile name with
  | error error =>
    refine Or.inr ⟨?_, error, rfl⟩
    intro hwritable
    have hok := taskConfigFile_eq_ok.mpr ⟨hwritable.1, rfl⟩
    rw [hfile] at hok
    cases hok
  | ok path =>
    obtain ⟨hroot, rfl⟩ := taskConfigFile_eq_ok.mp hfile
    dsimp only [bind, Except.bind]
    split
    case isTrue hempty =>
        cases hfault : gateway.configFault (gateway.configPath name) with
        | some error =>
          refine Or.inr ⟨?_, _, rfl⟩
          intro hwritable
          rw [hwritable.2.1] at hfault
          cases hfault
        | none =>
          refine Or.inl ⟨⟨hroot, hfault, ?_⟩, _, rfl, ?_⟩
          · rw [hempty]
            intro hnot
            cases hnot
          · intro path
            rw [written, if_pos hempty]
            split
            case isTrue heq => rw [heq, AList.lookup_erase]
            case isFalse hne => exact AList.lookup_erase_ne hne
    case isFalse hempty =>
        have hentries := Bool.eq_false_iff.mpr hempty
        cases hvalid : validateAgentsToModels gateway.checks.host.debug pool with
        | error message =>
          refine Or.inr ⟨?_, _, rfl⟩
          intro hwritable
          rw [hwritable.2.2 hentries] at hvalid
          cases hvalid
        | ok _ =>
          cases hfault : gateway.configFault (gateway.configPath name) with
          | some error =>
            refine Or.inr ⟨?_, _, rfl⟩
            intro hwritable
            rw [hwritable.2.1] at hfault
            cases hfault
          | none =>
            refine Or.inl ⟨⟨hroot, hfault, fun _ => hvalid⟩, _, rfl, ?_⟩
            intro path
            rw [written, if_neg hempty]
            split
            case isTrue heq => rw [heq, AList.lookup_insert]
            case isFalse hne => exact AList.lookup_insert_ne hne

/-- After a file was written, the config files of all tasks are as before unless one was overwritten. -/
theorem configs_unchanged_iff (gateway : TaskGateway) (world after : World)
    (hafter : ∀ path, after.files.lookup path =
      if path = gateway.leadsTo (gateway.configPath name) then gateway.written pool
      else world.files.lookup path) :
    (∀ task ∈ world.store.tasks, gateway.config after task.name = gateway.config world task.name) ↔
      ¬gateway.Overwrites world name pool := by
  constructor
  · rintro hsame ⟨⟨task, htask, hfile⟩, hother⟩
    refine hother ?_
    have htaskSame := hsame task htask
    unfold config at htaskSame ⊢
    rw [hafter, if_pos hfile, hfile] at htaskSame
    exact htaskSame.symm
  · intro hnot task htask
    unfold config
    rw [hafter]
    split
    case isFalse => rfl
    case isTrue hfile =>
        by_contra hother
        refine hnot ⟨⟨task, htask, hfile⟩, ?_⟩
        unfold config
        rw [← hfile]
        exact fun heq => hother heq.symm

/-! ### Creating a task -/

theorem validateInterval_eq_ok {intervalSecs : Nat}
    (h : LocalGateway.validateInterval intervalSecs = .ok ()) : intervalSecs ≤ maxIntervalSecs := by
  unfold LocalGateway.validateInterval at h
  split at h
  case isTrue hbounds => exact hbounds.2
  case isFalse => cases h

theorem prepareCreate_eq_ok {req : CreateTask} {resolved : ResolvedWorkspace}
    (h : gateway.prepareCreate req = .ok resolved) : gateway.validateCreate req = .ok resolved := by
  simp only [prepareCreate, bind_eq_ok] at h
  obtain ⟨_, _, workspace, hvalid, _, _, hsame⟩ := h
  rw [hvalid]
  exact hsame

theorem interval_of_prepareCreate {req : CreateTask} {resolved : ResolvedWorkspace}
    (h : gateway.prepareCreate req = .ok resolved) : ¬i64Max < req.intervalSecs := by
  have hvalid := prepareCreate_eq_ok h
  simp only [validateCreate, bind_eq_ok, orRefused_eq_ok, LocalGateway.checkFields] at hvalid
  obtain ⟨_, ⟨_, _, _, hinterval, _⟩, _⟩ := hvalid
  have hbound := validateInterval_eq_ok hinterval
  have hmax : maxIntervalSecs ≤ i64Max := by decide
  omega

/-- Storing a new task changes nothing when it is refused. -/
theorem create_call (faults : Faults) (task : Task) (store : Store)
    (hinterval : ¬i64Max < task.intervalSecs) :
    if faults 0 = true ∨ task.id ∈ store.tasks.map Task.id ∨ task.name ∈ store.tasks.map Task.name then
      ∃ error, (Tasks.create faults task).call store = (.error error, store)
    else ∃ after, (Tasks.create faults task).call store = (.ok (), after) := by
  unfold Tasks.create
  rw [if_neg hinterval, Session.call_tryCatch, Session.call_discard, Session.call_execute]
  by_cases hfault : faults 0 = true
  · rw [if_pos (Or.inl hfault), if_pos hfault]
    exact ⟨_, rfl⟩
  · rw [if_neg hfault, Statement.apply]
    by_cases hid : task.id ∈ store.tasks.map Task.id
    · rw [if_pos (Or.inr (Or.inl hid)), dif_pos hid]
      exact ⟨_, rfl⟩
    · rw [dif_neg hid]
      by_cases hname : task.name ∈ store.tasks.map Task.name
      · rw [if_pos (Or.inr (Or.inr hname)), dif_pos hname]
        exact ⟨_, rfl⟩
      · rw [dif_neg hname, if_neg]
        · exact ⟨_, rfl⟩
        · rintro (hrefused | hrefused | hrefused)
          · exact hfault hrefused
          · exact hid hrefused
          · exact hname hrefused

/-- Creating a task fails cleanly unless the row is refused after the file of a task was overwritten. -/
theorem create_failsCleanly_iff (gateway : TaskGateway) (req : CreateTask) (world : World) :
    gateway.FailsCleanly world (gateway.create req world) ↔
      ¬((∃ resolved, gateway.prepareCreate req = .ok resolved) ∧
        gateway.Writable req.name req.agentsToModels ∧ gateway.InsertRefused world.store req.name ∧
        gateway.Overwrites world req.name req.agentsToModels) := by
  unfold create
  cases hprepared : gateway.prepareCreate req with
  | error error =>
    refine iff_of_true (fun _ _ => ⟨rfl, fun _ _ => rfl⟩) ?_
    rintro ⟨⟨resolved, hok⟩, -⟩
    cases hok
  | ok resolved =>
    rcases writeTaskConfig_spec gateway req.name req.agentsToModels world.files with
      ⟨hwritable, files, hfiles, hlookup⟩ | ⟨hnot, error, herror⟩
    case inr =>
        dsimp only
        rw [herror]
        exact iff_of_true (fun _ _ => ⟨rfl, fun _ _ => rfl⟩) fun hall => hnot hall.2.1
    case inl =>
        dsimp only
        rw [hfiles]
        have hcall := create_call gateway.faults (gateway.newTask req resolved) world.store
          (interval_of_prepareCreate hprepared)
        split at hcall
        case isTrue hrefused =>
            obtain ⟨error, heq⟩ := hcall
            dsimp only
            rw [heq]
            have hconfigs := configs_unchanged_iff gateway world ⟨world.store, files⟩ hlookup
            constructor
            · rintro hclean ⟨-, -, -, hoverwrites⟩
              exact hconfigs.mp (hclean _ rfl).2 hoverwrites
            · intro hnot _ _
              refine ⟨rfl, hconfigs.mpr fun hoverwrites => hnot ?_⟩
              exact ⟨⟨resolved, rfl⟩, hwritable, hrefused, hoverwrites⟩
        case isFalse hinserted =>
            obtain ⟨after, heq⟩ := hcall
            dsimp only
            rw [heq]
            refine iff_of_true (fun error hfails => ?_) fun hall => hinserted hall.2.2.1
            cases hfails

/-! ### Editing a task -/

variable {store : Store} {existing : Task}

theorem prepareUpdate_eq_ok {req : UpdateTask} (h : gateway.prepareUpdate name req store = .ok existing) :
    store.named name = some existing := by
  simp only [prepareUpdate, bind_eq_ok] at h
  obtain ⟨_, _, h⟩ := h
  have hread : ((Tasks.get gateway.getFault name).call store).1 =
      if gateway.getFault then .error (.sqlite .fault) else .ok (store.named name) := by
    rw [Tasks.get, Session.call_query]
    split <;> rfl
  rw [hread] at h
  by_cases hfault : gateway.getFault = true
  · rw [if_pos hfault] at h
    cases h
  · rw [if_neg hfault] at h
    cases hnamed : store.named name with
    | none =>
      rw [hnamed] at h
      cases h
    | some row =>
      rw [hnamed] at h
      simp only [bind_eq_ok] at h
      obtain ⟨_, _, hsame⟩ := h
      rw [Except.ok.inj hsame]

/-- What an edit sets in the row of its task. -/
def editClause (columns : Columns) (now : Instant) : TaskSet := { columns := some columns, updatedAt := now }

/-- The rows stay as they are exactly when the edit sets what is there. -/
theorem setTasks_editClause_iff {columns : Columns} {now : Instant}
    (hexisting : store.named name = some existing) :
    (store.setTasks (.name name) (editClause columns now)).tasks = store.tasks ↔
      columns = existing.toColumns ∧ now = existing.updatedAt := by
  constructor
  · intro hsame
    have hnamed : (store.setTasks (.name name) (editClause columns now)).named name =
        some ((editClause columns now).apply existing) := named_setTasks hexisting
    unfold Store.named at hnamed hexisting
    rw [hsame, hexisting] at hnamed
    have hrow := Option.some.inj hnamed
    constructor
    · rw [hrow]
      rfl
    · rw [hrow]
      rfl
  · rintro ⟨rfl, rfl⟩
    obtain ⟨hmem, hname⟩ := Store.named_eq_some_iff.mp hexisting
    rw [Store.tasks_setTasks]
    conv_rhs => rw [← List.map_id store.tasks]
    refine List.map_congr_left fun task htask => ?_
    split
    case isFalse => rfl
    case isTrue hkey =>
        have heq := store.task_eq_of_name htask hmem ((of_decide_eq_true hkey).trans hname.symm)
        rw [heq]
        rfl

/-- The store's part of an edit: what it answers, and what it leaves. -/
theorem update_call (faults : Faults) (request : TaskUpdate) (now : Instant)
    (hexisting : store.named name = some existing) :
    if faults 0 = true ∨ i64Max < (request.merge existing.toColumns).intervalSecs ∨ faults 1 = true then
      ∃ error, (Tasks.update faults name request now).call store = (.error error, store)
    else
      ((Tasks.update faults name request now).call store).2 =
          store.setTasks (.name name) (editClause (request.merge existing.toColumns) now) ∧
        if faults 2 = true then
          ∃ error, ((Tasks.update faults name request now).call store).1 = .error error
        else ∃ updated, ((Tasks.update faults name request now).call store).1 = .ok (some updated) := by
  unfold Tasks.update Tasks.get
  rw [Session.call_bind, Session.call_query]
  by_cases hfirst : faults 0 = true
  · rw [if_pos (Or.inl hfirst), if_pos hfirst]
    exact ⟨_, rfl⟩
  · rw [if_neg hfirst, hexisting]
    dsimp only
    rw [Session.call_bind, Session.call_settle, mergedColumns]
    by_cases hinterval : i64Max < (request.merge existing.toColumns).intervalSecs
    · rw [if_pos (Or.inr (Or.inl hinterval)), if_pos hinterval]
      exact ⟨_, rfl⟩
    · rw [if_neg hinterval]
      dsimp only
      rw [Session.call_bind, writeColumns, Session.call_discard, Session.call_execute]
      by_cases hsecond : faults 1 = true
      · rw [if_pos (Or.inr (Or.inr hsecond)), if_pos hsecond]
        exact ⟨_, rfl⟩
      · rw [if_neg hsecond, if_neg]
        · rw [Statement.apply]
          dsimp only
          rw [Session.call_query]
          have hnamed : (store.setTasks (.name name)
                (editClause (request.merge existing.toColumns) now)).named name =
              some ((editClause (request.merge existing.toColumns) now).apply existing) :=
            named_setTasks hexisting
          by_cases hthird : faults 2 = true
          · rw [if_pos hthird, if_pos hthird]
            exact ⟨rfl, _, rfl⟩
          · rw [if_neg hthird, if_neg hthird]
            exact ⟨rfl, _, congrArg Except.ok hnamed⟩
        · rintro (hrefused | hrefused | hrefused)
          · exact hfirst hrefused
          · exact hinterval hrefused
          · exact hsecond hrefused

/-- Writing the config file of an edit changes at most this one file. -/
theorem updateConfig_spec (gateway : TaskGateway) (name : Text) (req : UpdateTask) (world : World) :
    (gateway.ConfigWritable name req ∧
        ∃ files, gateway.updateConfig name req world.files = .ok files ∧
          ∀ store : Store, ((∀ task ∈ world.store.tasks,
              gateway.config ⟨store, files⟩ task.name = gateway.config world task.name) ↔
            ¬gateway.ConfigChanged world name req)) ∨
      ¬gateway.ConfigWritable name req ∧
        ∃ error, gateway.updateConfig name req world.files = .error error := by
  unfold updateConfig ConfigWritable ConfigChanged
  cases req.agentsToModels with
  | none =>
    refine Or.inl ⟨?_, _, rfl, fun store => iff_of_true (fun _ _ => rfl) ?_⟩
    · rintro pool ⟨⟩
    · rintro ⟨pool, ⟨⟩, -⟩
  | some pool =>
    simp only [Option.some.injEq, forall_eq', exists_eq_left']
    rcases writeTaskConfig_spec gateway name pool world.files with
      ⟨hwritable, files, hfiles, hlookup⟩ | hnot
    · refine Or.inl ⟨hwritable, files, hfiles, fun store => ?_⟩
      exact configs_unchanged_iff gateway world ⟨store, files⟩ hlookup
    · exact Or.inr hnot

/-- The store refuses an edit after it has changed the row, or before; or it makes the edit. -/
theorem edit_spec (gateway : TaskGateway) (req : UpdateTask)
    (hexisting : store.named name = some existing) :
    (gateway.EditRefused existing req ∧ ∃ error after,
        (Tasks.update gateway.faults name (toStoreUpdate req) gateway.now).call store =
          (.error error, after) ∧
        (after.tasks = store.tasks ↔ ¬gateway.RowChanged existing req)) ∨
      ¬gateway.EditRefused existing req ∧ ∃ updated after,
        (Tasks.update gateway.faults name (toStoreUpdate req) gateway.now).call store =
          (.ok (some updated), after) := by
  have hcall := update_call gateway.faults (toStoreUpdate req) gateway.now hexisting
  rcases hresult : (Tasks.update gateway.faults name (toStoreUpdate req) gateway.now).call
    store with ⟨answer, after⟩
  rw [hresult] at hcall
  dsimp only at hcall
  split at hcall
  case isTrue hrefused =>
      obtain ⟨error, heq⟩ := hcall
      cases heq
      have hedit : gateway.EditRefused existing req := by
        rcases hrefused with hfault | hlarge | hfault
        · exact Or.inl hfault
        · exact Or.inr (Or.inl hlarge)
        · exact Or.inr (Or.inr (Or.inl hfault))
      refine Or.inl ⟨hedit, error, _, rfl, iff_of_true rfl ?_⟩
      rintro ⟨hfirst, hinterval, hsecond, -⟩
      rcases hrefused with hfault | hlarge | hfault
      · rw [hfirst] at hfault
        cases hfault
      · exact absurd hlarge (not_lt.mpr hinterval)
      · rw [hsecond] at hfault
        cases hfault
  case isFalse hwritten =>
      obtain ⟨rfl, hanswer⟩ := hcall
      split at hanswer
      case isFalse hthird =>
          obtain ⟨updated, rfl⟩ := hanswer
          refine Or.inr ⟨?_, updated, _, rfl⟩
          rintro (hfault | hlarge | hfault | hfault)
          · exact hwritten (Or.inl hfault)
          · exact hwritten (Or.inr (Or.inl hlarge))
          · exact hwritten (Or.inr (Or.inr hfault))
          · exact hthird hfault
      case isTrue hthird =>
          obtain ⟨error, rfl⟩ := hanswer
          refine Or.inl ⟨Or.inr (Or.inr (Or.inr hthird)), error, _, rfl, ?_⟩
          rw [not_or, not_or] at hwritten
          rw [setTasks_editClause_iff hexisting, iff_not_comm, not_and_or]
          constructor
          · exact fun hchanged => hchanged.2.2.2
          · intro hother
            exact ⟨Bool.eq_false_iff.mpr hwritten.1, not_lt.mp hwritten.2.1,
              Bool.eq_false_iff.mpr hwritten.2.2, hother⟩

/-- Editing a task fails cleanly unless the store refuses the edit after the file of a task was
overwritten, or when it reads back a row that it has changed. -/
theorem update_failsCleanly_iff (gateway : TaskGateway) (name : Text) (req : UpdateTask) (world : World) :
    gateway.FailsCleanly world (gateway.update name req world) ↔
      ¬∃ existing, gateway.prepareUpdate name req world.store = .ok existing ∧
        gateway.ConfigWritable name req ∧ gateway.EditRefused existing req ∧
        (gateway.ConfigChanged world name req ∨ gateway.RowChanged existing req) := by
  unfold update
  cases hprepared : gateway.prepareUpdate name req world.store with
  | error error =>
    refine iff_of_true (fun _ _ => ⟨rfl, fun _ _ => rfl⟩) ?_
    rintro ⟨existing, ⟨⟩, -⟩
  | ok existing =>
    simp only [Except.ok.injEq, exists_eq_left']
    rcases updateConfig_spec gateway name req world with
      ⟨hwritable, files, hfiles, hconfigs⟩ | ⟨hnot, error, herror⟩
    case inr =>
        rw [herror]
        exact iff_of_true (fun _ _ => ⟨rfl, fun _ _ => rfl⟩) fun hall => hnot hall.1
    case inl =>
        rw [hfiles]
        dsimp only
        rcases edit_spec gateway req (prepareUpdate_eq_ok hprepared) with
          ⟨hedit, error, after, hcall, hrows⟩ | ⟨hmade, updated, after, hcall⟩
        case inr =>
            rw [hcall]
            refine iff_of_true (fun error hfails => ?_) fun hall => hmade hall.2.1
            cases hfails
        case inl =>
            rw [hcall]
            constructor
            · rintro hclean ⟨-, -, hconfig | hchanged⟩
              · exact (hconfigs after).mp (hclean _ rfl).2 hconfig
              · exact hrows.mp (hclean _ rfl).1 hchanged
            · intro hnot _ _
              refine ⟨hrows.mpr fun hchanged => ?_, (hconfigs after).mpr fun hconfig => ?_⟩
              · exact hnot ⟨hwritable, hedit, Or.inr hchanged⟩
              · exact hnot ⟨hwritable, hedit, Or.inl hconfig⟩

end TaskGateway

/-! ## The requests of the administrator -/

/-- A request that writes a task. -/
inductive TaskRequest where
  | create (req : CreateTask)
  | update (name : Text) (req : UpdateTask)

namespace TaskGateway

/-- Handle a request. -/
def handle (gateway : TaskGateway) (world : World) : TaskRequest → Except GatewayError Task × World
  | .create req => gateway.create req world
  | .update name req => gateway.update name req world

/-- A request passes its checks and its config file can be written, and then the store refuses it: a new
task for which the config file of a task was overwritten, or an edit whose config file was overwritten or
whose row was changed. -/
def Spoils (gateway : TaskGateway) (world : World) : TaskRequest → Prop
  | .create req =>
    (∃ resolved, gateway.prepareCreate req = .ok resolved) ∧
      gateway.Writable req.name req.agentsToModels ∧ gateway.InsertRefused world.store req.name ∧
      gateway.Overwrites world req.name req.agentsToModels
  | .update name req =>
    ∃ existing, gateway.prepareUpdate name req world.store = .ok existing ∧
      gateway.ConfigWritable name req ∧ gateway.EditRefused existing req ∧
      (gateway.ConfigChanged world name req ∨ gateway.RowChanged existing req)

/-- A request that fails leaves every task as it was, unless the store refuses it after something of a
task was overwritten. -/
theorem handle_failsCleanly_iff (gateway : TaskGateway) (world : World) (request : TaskRequest) :
    gateway.FailsCleanly world (gateway.handle world request) ↔ ¬gateway.Spoils world request := by
  cases request with
  | create req => exact create_failsCleanly_iff gateway req world
  | update name req => exact update_failsCleanly_iff gateway name req world

/-- A gateway on which nothing fails by itself. -/
def steadyGateway : TaskGateway where
  checks := {
    host := {
      homeDir := none
      canonicalize := fun _ => none
      pathExists := fun _ => false
      isDir := fun _ => false
      createDirAll := fun _ => true
      debug := RawArgs.shown
      canonicalize_canonical := Overlay.Host.nowhere_canonical
      createDirAll_of_isDir := Overlay.Host.created_of_false }
    gitRootOf := fun _ => none
    globalAgents := []
    validateTaskAgents := fun _ _ => .ok ()
    tasks := fun _ => none
    slug_of_task := fun _ hstored => by cases hstored }
  tierRefusal := none
  tasksDir := textBytes "/t".toList
  underTasks := fun _ => true
  leadsTo := id
  document := fun pool => pool.entries.flatMap Prod.fst
  configFault := fun _ => none
  getFault := false
  faults := fun _ => false
  newId := "2".toList
  now := 0

/-- A request for a task without agents of its own. -/
def triageRequest : CreateTask where
  name := "triage".toList
  description := []
  workspace := .default
  mountScope := .cwd
  intervalSecs := 60
  agent := none
  model := none
  overlays := []
  agentsToModels := .empty
  prerequisites := none

/-- The task `triage`, which has a config file with its agents. -/
def triageWorld : World where
  store := Store.empty.addTask {
    steadyGateway.newTask triageRequest ⟨[], .directory, none, []⟩ with id := "1".toList }
    (by decide) (by decide)
  files := (∅ : NameMap HostPath Text).insert (steadyGateway.configPath "triage".toList) "claude".toList

/-- Creating a task under a name that is taken removes the config file of the task that has it. -/
theorem create_taken_name :
    ¬steadyGateway.FailsCleanly triageWorld (steadyGateway.handle triageWorld (.create triageRequest)) := by
  have hprepared : (steadyGateway.prepareCreate triageRequest).isOk = true := by decide +kernel
  intro hclean
  refine (create_failsCleanly_iff steadyGateway triageRequest triageWorld).mp hclean ⟨?_, ?_, ?_, ?_⟩
  · cases hresolved : steadyGateway.prepareCreate triageRequest with
    | error error =>
      rw [hresolved] at hprepared
      cases hprepared
    | ok resolved => exact ⟨resolved, rfl⟩
  · exact ⟨rfl, rfl, fun hsome => by cases hsome⟩
  · exact Or.inr (Or.inr (by decide))
  · refine ⟨⟨_, List.mem_cons_self, rfl⟩, ?_⟩
    decide +kernel

end TaskGateway

end Awman.Tasks
