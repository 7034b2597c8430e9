import Awman.Library.Interleaving

/-!
# The files two daemons share

The API server and the squad daemon must not run at the same time, nor any of them twice.  A
starting daemon takes a startup lock, looks at the pidfile of the other daemon, claims its own and
looks again.  Liveness checks remove the pidfiles of processes that are gone, a stop removes the
pidfile and the endpoint sidecar, and so does a daemon that ends.  Every read, creation and removal
is a step of its own, and a process may crash before any of them.  The sidecar is the one of the
squad daemon.  A process id that is in use belongs to an awman process.
-/

namespace Awman.Daemon

open Interleaving

/-- A process id. -/
abbrev Pid : Type := Nat

/-- Which daemon. -/
inductive DaemonKind where
  /-- `awman api`. -/
  | api
  /-- `awman squad`. -/
  | squad
deriving DecidableEq, Repr

/-- The other daemon. -/
def DaemonKind.other : DaemonKind → DaemonKind
  | .api => .squad
  | .squad => .api

@[simp] theorem DaemonKind.other_ne (kind : DaemonKind) : kind.other ≠ kind := by
  cases kind <;> simp [other]

/-- Of two different kinds each is the other one of the other. -/
theorem DaemonKind.eq_other {kind found : DaemonKind} (h : found ≠ kind) : found = kind.other := by
  cases kind <;> cases found <;> simp_all [other]

/-- A pidfile, known by the process that created it. -/
structure PidFile where
  /-- The process that created it. -/
  creator : Pid
  /-- The process id in it, `none` while it is empty. -/
  content : Option Pid
deriving DecidableEq, Repr

/-- The processes and the files. -/
structure Files where
  /-- The processes that run. -/
  alive : List Pid
  /-- The processes that were ever started. -/
  spawned : List Pid
  /-- The daemons that end in order when they are told to. -/
  handling : List Pid
  /-- The startup lock, by who created it. -/
  lock : Option Pid
  pidfile : DaemonKind → Option PidFile
  /-- `server.json`, by who published it. -/
  sidecar : Option Pid
  /-- The processes a stop has found in the pidfile. -/
  stopped : List Pid

namespace Files

variable (files : Files)

/-- The process a pidfile names. -/
def names (kind : DaemonKind) : Option Pid :=
  (files.pidfile kind).bind PidFile.content

/-- A pidfile is written, created or removed. -/
def setPidfile (kind : DaemonKind) (file : Option PidFile) : Files :=
  { files with pidfile := Function.update files.pidfile kind file }

/-- The lock is created or removed. -/
def setLock (lock : Option Pid) : Files := { files with lock }

/-- The sidecar is published or removed. -/
def setSidecar (sidecar : Option Pid) : Files := { files with sidecar }

/-- A process starts. -/
def started (pid : Pid) : Files :=
  { files with alive := pid :: files.alive, spawned := pid :: files.spawned }

/-- A process is gone. -/
def ended (pid : Pid) : Files :=
  { files with alive := files.alive.filter fun other => other ≠ pid }

/-- A daemon ends in order from now on. -/
def handled (pid : Pid) : Files :=
  { files with handling := pid :: files.handling }

/-- A stop has found a process in the pidfile. -/
def noted (pid : Pid) : Files :=
  { files with stopped := pid :: files.stopped }

@[simp] theorem setPidfile_self (kind : DaemonKind) (file : Option PidFile) :
    (files.setPidfile kind file).pidfile kind = file := by simp [setPidfile]

theorem setPidfile_of_ne {kind other : DaemonKind} (file : Option PidFile)
    (hother : other ≠ kind) :
    (files.setPidfile kind file).pidfile other = files.pidfile other := by
  simp [setPidfile, hother]

@[simp] theorem names_setPidfile_self (kind : DaemonKind) (file : Option PidFile) :
    (files.setPidfile kind file).names kind = file.bind PidFile.content := by simp [names]

theorem names_setPidfile_of_ne {kind other : DaemonKind} (file : Option PidFile)
    (hother : other ≠ kind) : (files.setPidfile kind file).names other = files.names other := by
  simp [names, setPidfile_of_ne files file hother]

@[simp] theorem mem_ended {files : Files} {pid other : Pid} :
    other ∈ (files.ended pid).alive ↔ other ∈ files.alive ∧ other ≠ pid := by simp [ended]

end Files

/-- What a liveness check is for. -/
inductive Look where
  /-- Any command that wants to know whether the daemon runs. -/
  | observe (kind : DaemonKind)
  /-- The first look at the other daemon in `acquire`. -/
  | firstCheck (kind : DaemonKind)
  /-- The look at the own pidfile in `acquire`, when it was there already. -/
  | ownCheck (kind : DaemonKind)
  /-- The second look at the other daemon in `acquire`. -/
  | secondCheck (kind : DaemonKind)
  /-- The look of `ensure_running` at the squad daemon. -/
  | ensure
deriving DecidableEq, Repr

/-- The daemon whose pidfile is looked at. -/
def Look.kind : Look → DaemonKind
  | .observe kind => kind
  | .firstCheck kind => kind.other
  | .ownCheck kind => kind
  | .secondCheck kind => kind.other
  | .ensure => .squad

/-- Who stops the squad daemon. -/
inductive Stopper where
  /-- `squad stop`. -/
  | stop
  /-- `refresh_key`. -/
  | refresh
deriving DecidableEq, Repr

/-- What a process was started for. -/
inductive Task where
  | daemon (kind : DaemonKind)
  /-- A liveness check. -/
  | probe (kind : DaemonKind)
  | stop (stopper : Stopper)
  /-- `ensure_running`, which looks before it starts a daemon. -/
  | ensure
deriving DecidableEq, Repr

/-- What a process does next. -/
inductive Stage where
  | reading (look : Look)
  /-- It asks whether the process it read runs. -/
  | judging (look : Look) (found : Pid)
  /-- It removes the pidfile of a process that does not. -/
  | clearing (look : Look) (found : Pid)
  | locking (kind : DaemonKind)
  /-- The lock was there; it looks how old it is. -/
  | lockBusy (kind : DaemonKind)
  /-- It removes a lock it found to be stale. -/
  | breaking (kind : DaemonKind)
  | claiming (kind : DaemonKind)
  /-- It opens its pidfile and empties it. -/
  | overwriting (kind : DaemonKind)
  | writingPid (kind : DaemonKind) (creator : Pid)
  /-- It removes its pidfile after the second look. -/
  | backingOff (kind : DaemonKind)
  /-- It removes the startup lock, with or without the guard. -/
  | unlocking (kind : DaemonKind) (won : Bool)
  /-- It holds the guard and gets ready to serve. -/
  | serving (kind : DaemonKind)
  /-- The squad daemon has published its endpoint and does not end in order yet. -/
  | published
  /-- The squad daemon serves. -/
  | ready
  /-- The API server has ended and removes its pidfile. -/
  | releasing
  /-- The squad daemon has ended and reads whether the pidfile is its own. -/
  | owning
  /-- It is; the squad daemon removes the sidecar. -/
  | clearingOwnMeta
  /-- The squad daemon reads its pidfile again. -/
  | readingOwn
  /-- It still is its own; the squad daemon removes it. -/
  | removingOwn
  | stopReading (stopper : Stopper)
  /-- A stop asks whether the process it read runs. -/
  | stopJudging (stopper : Stopper) (found : Pid)
  /-- It does; the stop tells it to end. -/
  | killing (stopper : Stopper) (found : Pid)
  | stopRemoving (stopper : Stopper) (found : Option Pid) (terminated : Bool)
  /-- A stop removes the sidecar. -/
  | stopClearing (stopper : Stopper)
  /-- `ensure_running` looks whether a sidecar was left. -/
  | ensureReadingMeta
  /-- One was; `ensure_running` removes it. -/
  | ensureClearingMeta
  /-- Nothing any more. -/
  | done
deriving DecidableEq, Repr

/-- A process. -/
inductive Position where
  /-- It is about to be started. -/
  | spawning (task : Task)
  | process (pid : Pid) (stage : Stage)
deriving DecidableEq, Repr

/-- What a step chooses. -/
inductive Choice where
  /-- A process gets its process id. -/
  | spawn (pid : Pid)
  /-- The process goes on. -/
  | proceed
  /-- The lock is old enough to be stale. -/
  | stale
  /-- The squad daemon is bound and publishes its endpoint. -/
  | publish
  /-- The step fails, or takes too long. -/
  | fail
  | crash
deriving DecidableEq, Repr

/-- Where a process starts. -/
def Task.entry : Task → Stage
  | .daemon kind => .locking kind
  | .probe kind => .reading (.observe kind)
  | .stop stopper => .stopReading stopper
  | .ensure => .reading .ensure

/-- Where a liveness check goes when nothing runs. -/
def Look.absent : Look → Stage
  | .observe _ => .done
  | .firstCheck kind => .claiming kind
  | .ownCheck kind => .overwriting kind
  | .secondCheck kind => .unlocking kind true
  | .ensure => .ensureReadingMeta

/-- Where a liveness check goes when the daemon runs, or nobody can tell. -/
def Look.refused : Look → Stage
  | .observe _ => .done
  | .firstCheck kind => .unlocking kind false
  | .ownCheck kind => .unlocking kind false
  | .secondCheck kind => .backingOff kind
  | .ensure => .done

/-- Where a process goes when its step fails or takes too long. -/
def Stage.failed : Stage → Option Stage
  | .reading look => some look.refused
  | .clearing look _ => some look.refused
  | .locking _ => some .done
  | .lockBusy _ => some .done
  | .breaking kind => some (.locking kind)
  | .claiming kind => some (.unlocking kind false)
  | .overwriting kind => some (.unlocking kind false)
  | .writingPid kind _ => some (.unlocking kind false)
  | .backingOff kind => some (.unlocking kind false)
  | .published => some .owning
  | .releasing => some .done
  | .owning => some .readingOwn
  | .clearingOwnMeta => some .readingOwn
  | .readingOwn => some .done
  | .removingOwn => some .done
  | .stopReading _ => some .done
  | .killing .. => some .done
  | .stopRemoving .. => some .done
  | .stopClearing _ => some .done
  | .ensureReadingMeta => some .done
  | .ensureClearingMeta => some .done
  | _ => none

/-- Where a process that waits for the lock goes when it takes the lock for stale: nobody who still
runs holds a lock for so long. -/
def Stage.foundStale (files : Files) : Stage → Option Stage
  | .lockBusy kind =>
    if files.lock.any fun creator => creator ∉ files.alive then some (.breaking kind) else none
  | _ => none

/-- One step of a process that goes on. -/
def Stage.proceed (pid : Pid) (files : Files) : Stage → Option (Stage × Files)
  | .reading look =>
    match files.pidfile look.kind with
    | none => some (look.absent, files)
    | some ⟨_, none⟩ => some (look.refused, files)
    | some ⟨_, some found⟩ => some (.judging look found, files)
  | .judging look found =>
    some (if found ∈ files.alive then look.refused else .clearing look found, files)
  | .clearing look _ => some (look.absent, files.setPidfile look.kind none)
  | .locking kind =>
    match files.lock with
    | none => some (.reading (.firstCheck kind), files.setLock (some pid))
    | some _ => some (.lockBusy kind, files)
  | .lockBusy kind => some (.locking kind, files)
  | .breaking kind => some (.locking kind, files.setLock none)
  | .claiming kind =>
    match files.pidfile kind with
    | none => some (.reading (.secondCheck kind), files.setPidfile kind (some ⟨pid, some pid⟩))
    | some _ => some (.reading (.ownCheck kind), files)
  | .overwriting kind =>
    let creator := ((files.pidfile kind).map PidFile.creator).getD pid
    some (.writingPid kind creator, files.setPidfile kind (some ⟨creator, none⟩))
  | .writingPid kind creator =>
    -- What is written to a file that was removed meanwhile is lost.
    some (.reading (.secondCheck kind),
      if (files.pidfile kind).map PidFile.creator = some creator then
        files.setPidfile kind (some ⟨creator, some pid⟩)
      else files)
  | .backingOff kind => some (.unlocking kind false, files.setPidfile kind none)
  | .unlocking kind won => some (if won then .serving kind else .done, files.setLock none)
  | .serving .api => some (.releasing, files)
  | .serving .squad => some (.owning, files)
  | .published => some (.ready, files.handled pid)
  | .ready => some (.owning, files)
  | .releasing => some (.done, files.setPidfile .api none)
  | .owning =>
    some (if files.names .squad = some pid then .clearingOwnMeta else .readingOwn, files)
  | .clearingOwnMeta => some (.readingOwn, files.setSidecar none)
  | .readingOwn => some (if files.names .squad = some pid then .removingOwn else .done, files)
  | .removingOwn => some (.done, files.setPidfile .squad none)
  | .stopReading stopper =>
    match files.pidfile .squad with
    | none => some (.stopRemoving stopper none false, files)
    | some ⟨_, none⟩ => some (.done, files)
    | some ⟨_, some found⟩ => some (.stopJudging stopper found, files.noted found)
  | .stopJudging stopper found =>
    some (if found ∈ files.alive then .killing stopper found
      else .stopRemoving stopper (some found) false, files)
  | .killing stopper found =>
    if found ∉ files.alive then some (.done, files)
    -- A daemon without a handler is ended by the signal itself.
    else if found ∉ files.handling then
      some (.stopRemoving stopper (some found) true, files.ended found)
    else some (.stopRemoving stopper (some found) true, files)
  | .stopRemoving stopper _ terminated =>
    some (if terminated || stopper == .refresh then .stopClearing stopper else .done,
      files.setPidfile .squad none)
  | .stopClearing .stop => some (.done, files.setSidecar none)
  | .stopClearing .refresh => some (.reading .ensure, files.setSidecar none)
  | .ensureReadingMeta => some (if files.sidecar.isSome then .ensureClearingMeta else .done, files)
  | .ensureClearingMeta => some (.done, files.setSidecar none)
  | .done => none

/-- One step of a process that runs. -/
def Stage.step (pid : Pid) (files : Files) (stage : Stage) : Choice → Option (Stage × Files)
  | .proceed => stage.proceed pid files
  | .publish =>
    if stage = .serving .squad then some (.published, files.setSidecar (some pid)) else none
  | .stale => (stage.foundStale files).map fun next => (next, files)
  | .fail => stage.failed.map fun next => (next, files)
  | .crash => some (stage, files.ended pid)
  | .spawn _ => none

/-- One step of a process.  A process that is gone takes none, and a process id is used once. -/
def step : Position → Choice → Files → Option (Position × Files)
  | .spawning task, .spawn pid, files =>
    if pid ∈ files.spawned then none else some (.process pid task.entry, files.started pid)
  | .spawning _, _, _ => none
  | .process pid stage, choice, files =>
    if pid ∈ files.alive then
      (stage.step pid files choice).map fun moved => (.process pid moved.1, moved.2)
    else none

/-- The process is about to be started. -/
def Position.isSpawning : Position → Bool
  | .spawning _ => true
  | .process .. => false

/-- Daemons, liveness checks and stops over the same files. -/
def daemonSystem : System Choice Files Position where
  starts := Position.isSpawning
  step := step

/-- No process, no file. -/
def Files.empty : Files := ⟨[], [], [], none, fun _ => none, none, []⟩

end Awman.Daemon
