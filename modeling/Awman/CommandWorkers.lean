import Awman.CommandQueue
import Awman.CommandRecovery
import Awman.Library.ClaimFlags
import Mathlib.Data.Finset.Basic

/-!
# The workers of the command queue

Any number of workers claim commands and store how they ended, while commands are queued, cancelled and
refused and sessions are closed.  A claim registers a token for the command, and a cancel request takes
a running command up only if no token is registered.  The daemon may stop at any point; the next one
starts without workers and tokens, and with the statements of its start.

In whatever order all this happens a session has at most one running command, what is claimed comes
before everything else that waits in its session, a worker finds its command as it claimed it, and a
command that has ended is never executed again.
-/

namespace Awman.Api

open Awman.Interleaving

namespace CommandTable

/-! ## The other statements -/

/-- The command is cancelled because its session is closed. -/
def Assignment.cancelQueued (now : String) : Assignment where
  assign row := { row with
    status := .cancelled
    finishedAt := some now }
  rowid _ := rfl
  id _ := rfl
  sessionId _ := rfl

/-- The old spelling becomes the new one. -/
def Assignment.migrate : Assignment where
  assign row := { row with status := .queued }
  rowid _ := rfl
  id _ := rfl
  sessionId _ := rfl

variable (table : CommandTable)

/-- Cancel what waits in a session; report which commands that were. -/
def cancelQueuedForSession (sessionId now : String) : List String × CommandTable :=
  ((table.rows.filter (waitsIn sessionId)).map CommandRow.id,
    table.update (waitsIn sessionId) (.cancelQueued now))

/-- Cancel a command that waits. -/
def cancelIfQueued (id finishedAt result : String) : CommandTable :=
  table.update (fun row => row.id = id && row.status.isClaimable) (.cancel finishedAt result)

/-- Cancel a command that runs. -/
def cancelIfRunning (id finishedAt result : String) : CommandTable :=
  table.update (fun row => row.id = id && row.status = .running) (.cancel finishedAt result)

/-- Delete the commands of a session. -/
def deleteCommands (sessionId : String) : CommandTable where
  rows := table.rows.filter fun row => row.sessionId ≠ sessionId
  rowids := table.rowids.sublist (List.filter_sublist.map _)
  ids := table.ids.sublist (List.filter_sublist.map _)

/-- Whether a command has ended. -/
def ended (id : String) : Bool :=
  table.rows.any fun row => row.id = id && row.status.isTerminal

/-- Fold the old spelling of the status in every row. -/
def migratePending : CommandTable :=
  table.update (fun row => row.status = .pending) .migrate

end CommandTable

/-- Store how a command ended. -/
def QueuedCommandResult.persist (result : QueuedCommandResult) (table : CommandTable)
    (commandId now : String) : CommandTable :=
  table.completeCommand commandId result.status (some result.exitCode) (some result.resultJson) now

/-- A statement on the commands that no worker makes. -/
inductive Statement where
  | enqueueCommand (id sessionId subcommand args logPath now : String)
  | cancelQueuedForSession (sessionId now : String)
  | cancelIfQueued (id finishedAt result : String)
  | failIfQueued (id finishedAt result : String)
  | finalizeUnowned (id : String) (result : QueuedCommandResult) (now : String)
  | cancelUnowned (id : String) (sidecar : Option CommandCompletion) (finishedAt result : String)
  | finalizeRunningCommand (id : String) (completion : CommandCompletion)
  | cancelUnfinished (id finishedAt result : String)
  | recoverStaleCommands (cutoff : String)
  | deleteCommands (sessionId : String)
  | migratePending

/-- Whether the statement is made while workers run; the others belong to the start of a daemon. -/
def Statement.beside : Statement → Bool
  | .finalizeUnowned .. | .finalizeRunningCommand .. | .cancelUnfinished .. |
    .recoverStaleCommands .. | .deleteCommands .. | .migratePending => false
  | _ => true

/-- The table after a statement, while some commands have a token. -/
def Statement.apply (tokens : Finset String) (table : CommandTable) : Statement → CommandTable
  | .enqueueCommand id sessionId subcommand args logPath now =>
    (table.enqueueCommand id sessionId subcommand args logPath now).getD table
  | .cancelQueuedForSession sessionId now => (table.cancelQueuedForSession sessionId now).2
  | .cancelIfQueued id finishedAt result => table.cancelIfQueued id finishedAt result
  | .failIfQueued id finishedAt result => table.failIfQueued id finishedAt result
  -- Without a worker only what has ended is completed.
  | .finalizeUnowned id result now =>
    if table.ended id then result.persist table id now else table
  -- The token is looked up, and the row changed, under the lock that a claim takes.
  | .cancelUnowned id sidecar finishedAt result =>
    if id ∈ tokens then table
    else
      match sidecar with
      | none => table.cancelIfRunning id finishedAt result
      | some completion =>
        let finalized := table.finalizeRunningCommand id completion
        if finalized.2 then finalized.1 else table.cancelIfRunning id finishedAt result
  | .finalizeRunningCommand id completion => (table.finalizeRunningCommand id completion).1
  | .cancelUnfinished id finishedAt result => table.cancelUnfinished id finishedAt result
  | .recoverStaleCommands cutoff => (table.recoverStaleCommands cutoff).2
  | .deleteCommands sessionId => table.deleteCommands sessionId
  | .migratePending => table.migratePending

/-- What the calls share: the table and the commands with a token. -/
structure Queue where
  table : CommandTable
  /-- The commands some worker owns. -/
  tokens : Finset String

/-- Where a worker stands, a call that completes what has ended, or one that makes one statement. -/
inductive Position where
  /-- The worker looks for a command. -/
  | idle
  /-- It executes the command it claimed. -/
  | executing (command : CommandRecord)
  /-- It has stored how the command ended, or given up on that. -/
  | published (id : String)
  /-- The call looks whether the command has ended. -/
  | looking (id : String)
  /-- It has seen that, and has a completion to store. -/
  | finalizing (id : String)
  /-- The call has its statement to make. -/
  | calling (statement : Statement)
  /-- The call has made it. -/
  | gone

/-- What a step may do. -/
inductive Choice where
  | claim (sessions : List SessionRow) (workerId now : String)
  | persist (result : QueuedCommandResult) (now : String)
  | giveUp
  | unregister
  | look
  | call

/-- One step. -/
def step : Position → Choice → Queue → Option (Position × Queue)
  | .idle, .claim sessions workerId now, queue =>
    match queue.table.claimNextCommand sessions workerId now with
    | none => some (.idle, queue)
    | some (command, table) => some (.executing command, ⟨table, insert command.id queue.tokens⟩)
  | .executing command, .persist result now, queue =>
    some (.published command.id, { queue with table := result.persist queue.table command.id now })
  | .executing command, .giveUp, queue => some (.published command.id, queue)
  | .published id, .unregister, queue => some (.idle, { queue with tokens := queue.tokens.erase id })
  | .looking id, .look, queue => some (if queue.table.ended id then .finalizing id else .gone, queue)
  | .finalizing id, .persist result now, queue =>
    some (.gone, { queue with table := result.persist queue.table id now })
  | .calling statement, .call, queue =>
    some (.gone, { queue with table := statement.apply queue.tokens queue.table })
  | _, _, _ => none

/-- The calls of one daemon. -/
def queueSystem : System Choice Queue Position where
  starts
    | .idle | .looking _ => true
    | .calling statement => statement.beside
    | _ => false
  step := step

/-- One daemon: the statements of its start, and what its calls do until it stops. -/
structure Daemon where
  boot : List Statement
  events : List (Event Choice Position)

/-- The queue after a daemon has run on a table. -/
def Daemon.run (table : CommandTable) (daemon : Daemon) : Config Queue Position :=
  queueSystem.run (.idle ⟨daemon.boot.foldl (Statement.apply ∅) table, ∅⟩) daemon.events

/-- Where some daemons bring the queue, each starting on the table the one before it left. -/
def reachedFrom (config : Config Queue Position) (daemons : List Daemon) : Config Queue Position :=
  daemons.foldl (fun config daemon => daemon.run config.shared.table) config

/-- Where some daemons bring a new table; the last of them may still run. -/
def reached (daemons : List Daemon) : Config Queue Position :=
  reachedFrom (.idle ⟨⟨[], .nil, .nil⟩, ∅⟩) daemons

namespace CommandTable

variable {table after : CommandTable} {row later : CommandRow} {sessions : List SessionRow}
  {workerId now : String} {record : CommandRecord}
  {condition : CommandRow → Bool} {assignment : Assignment} {sessionId id : String}
  {free kept : String → Prop} {claims boots : Prop}

/-! ## One running command -/

/-- No session has two running commands. -/
def Exclusive (table : CommandTable) : Prop :=
  ∀ row ∈ table.rows, ∀ other ∈ table.rows, row.status = .running → other.status = .running →
    row.sessionId = other.sessionId → row = other

/-- The command waits in a session where nothing runs, and comes before everything else that waits
there. -/
def FirstOfSession (table : CommandTable) (row : CommandRow) : Prop :=
  row.status.isClaimable = true ∧ ∀ other ∈ table.rows, other.sessionId = row.sessionId →
    other.status ≠ .running ∧
      (other.status.isClaimable = true → other ≠ row → row.queueKey < other.queueKey)

/-- What a worker claims is the first of its session, and it runs from then on. -/
theorem claimNextCommand_first
    (h : table.claimNextCommand sessions workerId now = some (record, after)) :
    ∃ row ∈ table.rows, commandRecordFromRow ((Assignment.claim workerId now).assign row) = record ∧
      table.FirstOfSession row ∧
      after = table.update (fun other => other.id = row.id) (.claim workerId now) := by
  unfold claimNextCommand at h
  split at h
  · cases h
  · rename_i row hnext
    obtain ⟨hrow, hclaim, hleast⟩ := nextCommand_some hnext
    cases h
    have hparts := hclaim
    simp only [claimable, Bool.and_eq_true, Bool.not_eq_true'] at hparts
    refine ⟨row, hrow, rfl, ⟨hparts.1.1, ?_⟩, rfl⟩
    intro other hother hsession
    constructor
    · intro hruns
      have hidle := List.any_eq_false.mp hparts.2 other hother
      simp [hsession, hruns] at hidle
    · intro hwaits hne
      have hle : row.queueKey ≤ other.queueKey := by
        apply hleast other hother
        simp only [claimable, Bool.and_eq_true, Bool.not_eq_true', hsession, hwaits]
        exact ⟨⟨trivial, hparts.1.2⟩, hparts.2⟩
      apply lt_of_le_of_ne hle
      intro hkey
      exact hne (queueKey_injective hother hrow hkey.symm)

/-- The first of a session where nothing runs starts to run. -/
theorem Exclusive.claim (h : Exclusive table) (hrow : row ∈ table.rows)
    (hfirst : table.FirstOfSession row) :
    Exclusive (table.update (fun other => other.id = row.id) (.claim workerId now)) := by
  -- What runs now was claimed, or ran before and so belongs to another session.
  have hruns : ∀ started ∈ (table.update (fun other => other.id = row.id) (.claim workerId now)).rows,
      started.status = .running → started = (Assignment.claim workerId now).assign row ∨
        started ∈ table.rows ∧ started.sessionId ≠ row.sessionId := by
    intro started hstarted hstatus
    obtain ⟨before, hbefore, rfl⟩ := mem_update.mp hstarted
    by_cases hid : before.id = row.id
    · rw [if_pos (decide_eq_true hid), table.eq_of_id hbefore hrow hid]
      exact Or.inl rfl
    · rw [if_neg (by simpa using hid)] at hstatus ⊢
      exact Or.inr ⟨hbefore, fun hsession => (hfirst.2 before hbefore hsession).1 hstatus⟩
  intro first hmem second hsecond hfirstRuns hsecondRuns hsession
  rcases hruns first hmem hfirstRuns with rfl | ⟨hold, hapart⟩
  · rcases hruns second hsecond hsecondRuns with rfl | ⟨-, hapart⟩
    · rfl
    · exact absurd hsession.symm hapart
  · rcases hruns second hsecond hsecondRuns with rfl | ⟨hsecondOld, -⟩
    · exact absurd hsession hapart
    · exact h first hold second hsecondOld hfirstRuns hsecondRuns hsession

/-! ## What may become of a command -/

/-- A row stays, it ends, unless it runs and is not free, it is claimed, or a start puts it back into
the queue if it has not ended. -/
structure Fate (free : String → Prop) (claims boots : Prop) (row later : CommandRow) : Prop where
  id : later.id = row.id
  sessionId : later.sessionId = row.sessionId
  status : later = row ∨
    later.status.isTerminal = true ∧ (row.status = .running → free row.id) ∨
    later.status = .running ∧ row.status.isClaimable = true ∧ claims ∨
    later.status.isClaimable = true ∧ row.status.isTerminal = false ∧ boots

theorem Fate.refl (row : CommandRow) : Fate free claims boots row row := ⟨rfl, rfl, Or.inl rfl⟩

theorem Fate.not_claimable (h : Fate free claims boots row later) (hboots : ¬boots)
    (hwaits : row.status.isClaimable = false) : later.status.isClaimable = false := by
  rcases h.status with rfl | ⟨hends, -⟩ | ⟨hruns, -⟩ | ⟨-, -, hputs⟩
  · exact hwaits
  · exact CommandStatus.not_claimable_of_terminal hends
  · rw [hruns]
    rfl
  · exact absurd hputs hboots

/-- Every row had such a fate or is new and waits, and the rows of the kept sessions have one. -/
structure Follows (free : String → Prop) (claims boots : Prop) (kept : String → Prop)
    (table after : CommandTable) : Prop where
  back : ∀ later ∈ after.rows, later.status.isClaimable = true ∨
    ∃ row ∈ table.rows, Fate free claims boots row later
  forth : ∀ row ∈ table.rows, kept row.sessionId →
    ∃ later ∈ after.rows, Fate free claims boots row later

theorem Follows.refl (table : CommandTable) : Follows free claims boots kept table table :=
  ⟨fun row hrow => Or.inr ⟨row, hrow, .refl row⟩, fun row hrow _ => ⟨row, hrow, .refl row⟩⟩

theorem Follows.update (h : ∀ row ∈ table.rows, condition row = true →
    (assignment.assign row).status.isTerminal = true ∧ (row.status = .running → free row.id) ∨
    (assignment.assign row).status = .running ∧ row.status.isClaimable = true ∧ claims ∨
    (assignment.assign row).status.isClaimable = true ∧ row.status.isTerminal = false ∧ boots) :
    Follows free claims boots kept table (table.update condition assignment) := by
  have hfate : ∀ row ∈ table.rows,
      Fate free claims boots row (if condition row then assignment.assign row else row) := by
    intro row hrow
    split
    · next hcondition =>
      exact ⟨assignment.id row, assignment.sessionId row, Or.inr (h row hrow hcondition)⟩
    · exact .refl row
  constructor
  · intro later hlater
    obtain ⟨row, hrow, rfl⟩ := mem_update.mp hlater
    exact Or.inr ⟨row, hrow, hfate row hrow⟩
  · exact fun row hrow _ => ⟨_, mem_update.mpr ⟨row, hrow, rfl⟩, hfate row hrow⟩

theorem Follows.persist (result : QueuedCommandResult)
    (h : ∀ row ∈ table.rows, row.id = id → row.status = .running → free row.id) :
    Follows free claims boots kept table (result.persist table id now) :=
  .update fun row hrow hid => Or.inl ⟨result.terminal, h row hrow (of_decide_eq_true hid)⟩

/-- Where nothing is claimed nothing starts to run. -/
theorem Follows.exclusive (h : Follows free False boots kept table after)
    (hexclusive : table.Exclusive) : after.Exclusive := by
  have hran : ∀ later ∈ after.rows, later.status = .running → later ∈ table.rows := by
    intro later hlater hruns
    rcases h.back later hlater with hwaits | ⟨row, hrow, hfate⟩
    · simp [hruns, CommandStatus.isClaimable] at hwaits
    · rcases hfate.status with rfl | ⟨hends, -⟩ | ⟨-, -, hclaims⟩ | ⟨hwaits, -⟩
      · exact hrow
      · simp [hruns, CommandStatus.isTerminal] at hends
      · exact hclaims.elim
      · simp [hruns, CommandStatus.isClaimable] at hwaits
  exact fun row hrow other hother hruns hotherRuns =>
    hexclusive row (hran row hrow hruns) other (hran other hother hotherRuns) hruns hotherRuns

/-- The command of the session has ended. -/
def EndedIn (table : CommandTable) (sessionId id : String) : Prop :=
  ∃ row ∈ table.rows, row.id = id ∧ row.sessionId = sessionId ∧ row.status.isTerminal = true

theorem endedIn_of_ended (h : table.ended id = true) : ∃ sessionId, table.EndedIn sessionId id := by
  obtain ⟨row, hrow, hended⟩ := List.any_eq_true.mp h
  rw [Bool.and_eq_true, decide_eq_true_eq] at hended
  exact ⟨row.sessionId, row, hrow, hended.1, rfl, hended.2⟩

/-- What has ended stays so. -/
theorem Follows.endedIn (h : Follows free claims boots kept table after)
    (hended : table.EndedIn sessionId id) (hkept : kept sessionId) : after.EndedIn sessionId id := by
  obtain ⟨row, hrow, rfl, rfl, hended⟩ := hended
  obtain ⟨later, hlater, hfate⟩ := h.forth row hrow hkept
  refine ⟨later, hlater, hfate.id, hfate.sessionId, ?_⟩
  rcases hfate.status with rfl | ⟨hends, -⟩ | ⟨-, hwaits, -⟩ | ⟨-, hopen, -⟩
  · exact hended
  · exact hends
  · rw [CommandStatus.not_claimable_of_terminal hended] at hwaits
    cases hwaits
  · rw [hended] at hopen
    cases hopen

theorem enqueueCommand_cases (table : CommandTable) (id sessionId subcommand args logPath now : String) :
    (table.enqueueCommand id sessionId subcommand args logPath now).getD table = table ∨
    ∃ queued : CommandRow, queued.status = .queued ∧
      ((table.enqueueCommand id sessionId subcommand args logPath now).getD table).rows =
        table.rows ++ [queued] := by
  unfold enqueueCommand
  split
  · exact Or.inl rfl
  · exact Or.inr ⟨_, rfl, rfl⟩

end CommandTable

open CommandTable

theorem CommandStatus.ne_running_of_claimable {status : CommandStatus} (h : status.isClaimable = true) :
    status ≠ .running := by
  rintro rfl
  cases h

/-- What a statement may make of the rows: while workers run, the commands with a token stay, and only
a deletion takes rows away. -/
theorem Statement.follows (statement : Statement) (tokens : Finset String) (table : CommandTable) :
    Follows (fun id => statement.beside = true → id ∉ tokens) False (statement.beside = false)
      (fun sessionId => statement ≠ .deleteCommands sessionId) table (statement.apply tokens table) := by
  cases statement with
  | enqueueCommand id sessionId subcommand args logPath now =>
    simp only [Statement.apply]
    rcases table.enqueueCommand_cases id sessionId subcommand args logPath now with
      hsame | ⟨queued, hstatus, hrows⟩
    · rw [hsame]
      exact .refl table
    · refine ⟨fun later hlater => ?_, fun row hrow _ => ?_⟩
      · rw [hrows, List.mem_append, List.mem_singleton] at hlater
        rcases hlater with hbefore | rfl
        · exact Or.inr ⟨later, hbefore, .refl later⟩
        · exact Or.inl (by rw [hstatus]; rfl)
      · exact ⟨row, hrows ▸ List.mem_append_left _ hrow, .refl row⟩
  | cancelQueuedForSession | cancelIfQueued | failIfQueued =>
    apply Follows.update
    intro row _ hwaits
    have hclaimable := (Bool.and_eq_true_iff.mp hwaits).2
    exact Or.inl ⟨rfl, fun hruns => absurd hruns (CommandStatus.ne_running_of_claimable hclaimable)⟩
  | finalizeUnowned id result =>
    simp only [Statement.apply]
    split
    · exact .persist result fun _ _ _ _ hbeside => by cases hbeside
    · exact .refl table
  | cancelUnowned id sidecar finishedAt result =>
    simp only [Statement.apply]
    split
    · exact .refl table
    · next hfree =>
      have hcancels : ∀ row ∈ table.rows, (row.id = id && row.status = .running) = true →
          row.id ∉ tokens := by
        intro row _ hruns
        rw [of_decide_eq_true (Bool.and_eq_true_iff.mp hruns).1]
        exact hfree
      cases sidecar with
      | none => exact .update fun row hrow hruns => Or.inl ⟨rfl, fun _ _ => hcancels row hrow hruns⟩
      | some completion =>
        dsimp only
        split
        · apply Follows.update
          intro row hrow hfinalizes
          have hruns := (Bool.and_eq_true_iff.mp hfinalizes).1
          exact Or.inl ⟨completion.terminal, fun _ _ => hcancels row hrow hruns⟩
        · exact .update fun row hrow hruns => Or.inl ⟨rfl, fun _ _ => hcancels row hrow hruns⟩
  | finalizeRunningCommand id completion =>
    exact .update fun row _ _ => Or.inl ⟨completion.terminal, fun _ hbeside => by cases hbeside⟩
  | cancelUnfinished =>
    exact .update fun row _ _ => Or.inl ⟨rfl, fun _ hbeside => by cases hbeside⟩
  | recoverStaleCommands | migratePending =>
    apply Follows.update
    intro row _ hwas
    simp only [stale, Bool.and_eq_true, decide_eq_true_eq] at hwas
    exact Or.inr (Or.inr ⟨rfl, by simp [hwas, CommandStatus.isTerminal], rfl⟩)
  | deleteCommands sessionId =>
    refine ⟨fun row hrow => Or.inr ⟨row, List.mem_of_mem_filter hrow, .refl row⟩, ?_⟩
    intro row hrow hkept
    have hother : row.sessionId ≠ sessionId := fun hsame => hkept (by rw [hsame])
    exact ⟨row, List.mem_filter.mpr ⟨hrow, decide_eq_true hother⟩, .refl row⟩

/-! ## What every run keeps -/

/-- The position is that of the worker that owns the command. -/
def Position.Owns (id : String) : Position → Prop
  | .executing command => command.id = id
  | .published other => other = id
  | _ => False

/-- A worker's command stays as it was claimed until its end is stored, and does not wait while it is
owned; what a call completes has ended. -/
def Position.Backed (table : CommandTable) : Position → Prop
  | .executing command => ∃ row ∈ table.rows, commandRecordFromRow row = command ∧ row.status = .running
  | .published id => ∃ row ∈ table.rows, row.id = id ∧ row.status.isClaimable = false
  | .finalizing id => ∃ sessionId, table.EndedIn sessionId id
  | .calling statement => statement.beside = true
  | _ => True

/-- What holds at any time, while some commands have ended. -/
structure Owned (ended : String → String → Prop) (config : Config Queue Position) : Prop where
  exclusive : config.shared.table.Exclusive
  alone : ∀ id, config.Alone (Position.Owns id)
  registered : ∀ id, config.Some (Position.Owns id) → id ∈ config.shared.tokens
  backed : config.Every (Position.Backed config.shared.table)
  ended : ∀ sessionId id, ended sessionId id → config.shared.table.EndedIn sessionId id

namespace Owned

variable {config : Config Queue Position} {call : ℕ} {old position : Position} {queue : Queue}
  {ended : String → String → Prop} {free kept : String → Prop} {claims boots : Prop}

/-- A command that some worker owns does not wait. -/
theorem not_claimable (h : Owned ended config) {row : CommandRow} (hrow : row ∈ config.shared.table.rows)
    (howned : config.Some (Position.Owns row.id)) : row.status.isClaimable = false := by
  obtain ⟨owner, at_, hat, howns⟩ := howned
  have hbacked := h.backed owner at_ hat
  cases at_ with
  | executing command =>
    obtain ⟨found, hfound, rfl, hruns⟩ := hbacked
    rw [← eq_of_id hfound hrow howns, hruns]
    rfl
  | published id =>
    obtain ⟨found, hfound, hid, hwaits⟩ := hbacked
    rw [← eq_of_id hfound hrow (hid.trans howns), hwaits]
  | idle | looking | finalizing | calling | gone => cases howns

/-- What a step has to keep: it ends no running command of another worker. -/
theorem moved (h : Owned ended config) (hold : config.calls call = some old)
    (hfollows : Follows free claims boots kept config.shared.table queue.table)
    (hboots : ¬boots) (hkept : ∀ sessionId, kept sessionId)
    (hexclusive : queue.table.Exclusive)
    (hfree : ∀ id, free id → config.Some (Position.Owns id) → old.Owns id)
    (hcomes : ∀ id, position.Owns id → old.Owns id ∨ ¬config.Some (Position.Owns id))
    (htokens : ∀ id, (config.move call position queue).Some (Position.Owns id) → id ∈ queue.tokens)
    (hbacked : position.Backed queue.table) : Owned ended (config.move call position queue) := by
  have hended := fun sessionId id (hended : config.shared.table.EndedIn sessionId id) =>
    hfollows.endedIn hended (hkept sessionId)
  refine ⟨hexclusive, fun id => (h.alone id).moved hold (hcomes id), htokens, ?_,
    fun sessionId id hid => hended sessionId id (h.ended sessionId id hid)⟩
  intro other at_ hother
  rcases Config.calls_move hother with ⟨rfl, rfl⟩ | ⟨hne, hbefore⟩
  · exact hbacked
  have hwas := h.backed other at_ hbefore
  cases at_ with
  | executing command =>
    obtain ⟨row, hrow, rfl, hruns⟩ := hwas
    obtain ⟨later, hlater, hfate⟩ := hfollows.forth row hrow (hkept _)
    rcases hfate.status with rfl | ⟨-, hends⟩ | ⟨-, hwaits, -⟩ | ⟨-, -, hputs⟩
    · exact ⟨later, hlater, rfl, hruns⟩
    · have hmine := hfree row.id (hends hruns) ⟨other, _, hbefore, rfl⟩
      exact absurd (h.alone row.id other call _ old hbefore hold rfl hmine) hne
    · simp [hruns, CommandStatus.isClaimable] at hwaits
    · exact absurd hputs hboots
  | published id =>
    obtain ⟨row, hrow, rfl, hwaits⟩ := hwas
    obtain ⟨later, hlater, hfate⟩ := hfollows.forth row hrow (hkept _)
    exact ⟨later, hlater, hfate.id, hfate.not_claimable hboots hwaits⟩
  | finalizing id => exact hwas.imp fun sessionId => hended sessionId id
  | idle | looking | calling | gone => exact hwas

/-- A step that claims nothing: the call keeps its command, or lets go of it. -/
theorem followed (h : Owned ended config) (hold : config.calls call = some old)
    (hfollows : Follows free False boots kept config.shared.table queue.table)
    (hboots : ¬boots) (hkept : ∀ sessionId, kept sessionId)
    (hfree : ∀ id, free id → config.Some (Position.Owns id) → old.Owns id)
    (howns : ∀ id, position.Owns id → old.Owns id)
    (htokens : ∀ id, id ∈ config.shared.tokens → id ∈ queue.tokens ∨ old.Owns id ∧ ¬position.Owns id)
    (hbacked : position.Backed queue.table) : Owned ended (config.move call position queue) := by
  refine h.moved hold hfollows hboots hkept (hfollows.exclusive h.exclusive) hfree
    (fun id => Or.inl ∘ howns id) ?_ hbacked
  intro id hsome
  have hbefore : config.Some (Position.Owns id) := by
    rcases Config.Some.before' hsome with hmine | hbefore
    · exact ⟨call, old, hold, howns id hmine⟩
    · exact hbefore
  rcases htokens id (h.registered id hbefore) with hkept | ⟨hmine, hleft⟩
  · exact hkept
  · exact absurd hsome ((h.alone id).left hold hmine hleft)

theorem idle (h : table.Exclusive)
    (hended : ∀ sessionId id, ended sessionId id → table.EndedIn sessionId id) :
    Owned ended (.idle ⟨table, ∅⟩) where
  exclusive := h
  alone _ := Config.alone_idle
  registered _ hsome := absurd hsome Config.not_some_idle
  backed id position hposition := by cases hposition
  ended := hended

/-- A worker claims a command that nobody owns. -/
theorem claim (h : Owned ended config) (hold : config.calls call = some .idle)
    {sessions : List SessionRow} {workerId now : String} {record : CommandRecord} {after : CommandTable}
    (hclaim : config.shared.table.claimNextCommand sessions workerId now = some (record, after)) :
    Owned ended (config.move call (.executing record)
      ⟨after, insert record.id config.shared.tokens⟩) := by
  obtain ⟨row, hrow, rfl, hfirst, rfl⟩ := claimNextCommand_first hclaim
  have hfree : ¬config.Some (Position.Owns row.id) := by
    intro howned
    have hwaits := hfirst.1
    rw [h.not_claimable hrow howned] at hwaits
    cases hwaits
  have hfollows : Follows (fun _ => False) True False (fun _ => True) config.shared.table
      (config.shared.table.update (fun other => other.id = row.id) (.claim workerId now)) := by
    apply Follows.update
    intro other hother hid
    rw [eq_of_id hother hrow (of_decide_eq_true hid)]
    exact Or.inr (Or.inl ⟨rfl, hfirst.1, trivial⟩)
  refine h.moved hold hfollows not_false (fun _ => trivial) (h.exclusive.claim hrow hfirst)
    (fun _ => False.elim) ?_ ?_ ?_
  · rintro id rfl
    exact Or.inr hfree
  · intro id hsome
    rcases Config.Some.before' hsome with rfl | hbefore
    · exact Finset.mem_insert_self _ _
    · exact Finset.mem_insert_of_mem (h.registered id hbefore)
  · refine ⟨_, mem_update.mpr ⟨row, hrow, rfl⟩, ?_, ?_⟩
    · rw [if_pos (decide_eq_true rfl)]
    · rw [if_pos (decide_eq_true rfl)]
      rfl

/-- A worker stores how its command ended. -/
theorem persist (h : Owned ended config) {command : CommandRecord}
    (hold : config.calls call = some (.executing command)) (result : QueuedCommandResult) (now : String) :
    Owned ended (config.move call (.published command.id)
      { config.shared with table := result.persist config.shared.table command.id now }) := by
  obtain ⟨row, hrow, rfl, hruns⟩ := h.backed call _ hold
  have hfollows : Follows (row.id = ·) False False (fun _ => True) config.shared.table
      (result.persist config.shared.table row.id now) := .persist result fun _ _ hid _ => hid.symm
  refine h.followed hold hfollows not_false (fun _ => trivial) (fun _ hid _ => hid)
    (fun _ howns => howns) (fun _ => Or.inl) ?_
  obtain ⟨later, hlater, hfate⟩ := hfollows.forth row hrow trivial
  exact ⟨later, hlater, hfate.id, hfate.not_claimable not_false (by rw [hruns]; rfl)⟩

/-- A call completes what has ended. -/
theorem finalize (h : Owned ended config) {id : String}
    (hold : config.calls call = some (.finalizing id)) (result : QueuedCommandResult) (now : String) :
    Owned ended (config.move call .gone
      { config.shared with table := result.persist config.shared.table id now }) := by
  obtain ⟨_, row, hrow, hid, -, hended⟩ := h.backed call _ hold
  have hfollows : Follows (fun _ => False) False False (fun _ => True) config.shared.table
      (result.persist config.shared.table id now) := by
    apply Follows.persist
    intro other hother hsame hruns
    rw [eq_of_id hother hrow (hsame.trans hid.symm)] at hruns
    exact CommandStatus.ne_running_of_terminal hended hruns
  exact h.followed hold hfollows not_false (fun _ => trivial) (fun _ => False.elim)
    (fun _ => False.elim) (fun _ => Or.inl) trivial

/-- The table stays as it is. -/
theorem stayed (h : Owned ended config) (hold : config.calls call = some old)
    (howns : ∀ id, position.Owns id → old.Owns id)
    (htokens : ∀ id, id ∈ config.shared.tokens → id ∈ tokens ∨ old.Owns id ∧ ¬position.Owns id)
    (hbacked : position.Backed config.shared.table) :
    Owned ended (config.move call position { config.shared with tokens := tokens }) := by
  have hfollows : Follows (fun _ => False) False False (fun _ => True) config.shared.table
      config.shared.table := .refl _
  exact h.followed hold hfollows not_false (fun _ => trivial) (fun _ => False.elim) howns htokens
    hbacked

/-- Every step keeps it. -/
theorem preserves : queueSystem.Preserves (fun _ _ => True) (Owned ended) where
  start {config id position} h hnew hstarts := by
    have hnot : ∀ id, ¬position.Owns id := by
      intro id howns
      cases position with
      | executing | published => cases hstarts
      | idle | looking | finalizing | calling | gone => exact howns
    refine ⟨h.exclusive, fun id => (h.alone id).started (hnot id), fun id hsome => ?_, ?_, h.ended⟩
    · exact h.registered id ((Config.some_start_iff hnew (hnot id)).mp hsome)
    · apply h.backed.moved
      cases position with
      | idle | looking => trivial
      | calling statement => exact hstarts
      | executing | published | finalizing | gone => cases hstarts
  step {config call choice old position queue} h _ hold hstep := by
    simp only [queueSystem] at hstep
    unfold Api.step at hstep
    split at hstep
    -- A worker finds no command, or claims one.
    · split at hstep
      · cases hstep
        exact h.stayed hold (fun _ => False.elim) (fun _ => Or.inl) trivial
      · next hclaim =>
        cases hstep
        exact h.claim hold hclaim
    -- It stores how the command ended, or gives up on that; then it looks for another one.
    · cases hstep
      exact h.persist hold _ _
    · cases hstep
      obtain ⟨row, hrow, rfl, hruns⟩ := h.backed call _ hold
      exact h.stayed hold (fun _ howns => howns) (fun _ => Or.inl) ⟨row, hrow, rfl, by rw [hruns]; rfl⟩
    · next id =>
      cases hstep
      refine h.stayed hold (fun _ => False.elim) (fun other htoken => ?_) trivial
      by_cases hsame : other = id
      · exact Or.inr ⟨hsame.symm, fun howns => howns⟩
      · exact Or.inl (Finset.mem_erase.mpr ⟨hsame, htoken⟩)
    -- A call looks at a command, and completes it.
    · cases hstep
      split
      · next hfound => exact h.stayed hold (fun _ => False.elim) (fun _ => Or.inl) (endedIn_of_ended hfound)
      · exact h.stayed hold (fun _ => False.elim) (fun _ => Or.inl) trivial
    · cases hstep
      exact h.finalize hold _ _
    -- A call makes its statement.
    · next statement =>
      cases hstep
      have hbeside : statement.beside = true := h.backed call _ hold
      refine h.followed hold (statement.follows _ _) (by simp [hbeside]) ?_
        (fun id hfree howned => absurd (h.registered id howned) (hfree hbeside)) (fun _ => False.elim)
        (fun _ => Or.inl) trivial
      rintro sessionId rfl
      cases hbeside
    · cases hstep

theorem run (h : Owned ended config) (events : List (Event Choice Position)) :
    Owned ended (queueSystem.run config events) :=
  preserves.run h (System.meets_of_always (fun _ _ => trivial) _)

/-- The statements of a start let nothing run, and delete no other sessions. -/
theorem boot {boot : List Statement} (h : table.Exclusive)
    (hended : ∀ sessionId id, ended sessionId id → table.EndedIn sessionId id)
    (hkept : ∀ sessionId id, ended sessionId id → .deleteCommands sessionId ∉ boot) :
    Owned ended (.idle ⟨boot.foldl (Statement.apply ∅) table, ∅⟩) := by
  induction boot generalizing table with
  | nil => exact idle h hended
  | cons statement rest ih =>
    apply ih ((statement.follows ∅ table).exclusive h)
    · intro sessionId id hid
      apply (statement.follows ∅ table).endedIn (hended sessionId id hid)
      rintro rfl
      exact hkept sessionId id hid List.mem_cons_self
    · exact fun sessionId id hid hrest => hkept sessionId id hid (List.mem_cons_of_mem _ hrest)

theorem reachedFrom {daemons : List Daemon} (h : Owned ended config)
    (hkept : ∀ daemon ∈ daemons, ∀ sessionId id, ended sessionId id →
      .deleteCommands sessionId ∉ daemon.boot) : Owned ended (reachedFrom config daemons) := by
  induction daemons generalizing config with
  | nil => exact h
  | cons daemon rest ih =>
    obtain ⟨hfirst, hrest⟩ := List.forall_mem_cons.mp hkept
    exact ih ((boot h.exclusive h.ended hfirst).run daemon.events) hrest

end Owned

theorem owned_reached (daemons : List Daemon) : Owned (fun _ _ => False) (reached daemons) :=
  (Owned.idle (fun row hrow => by cases hrow) fun _ _ => False.elim).reachedFrom
    fun _ _ _ _ => False.elim

/-- However many daemons ran before, and whatever the last one has done so far: a session has at most
one running command, and a worker claims the first of what waits in a session where nothing runs. -/
theorem claims_exclusive_in_order (daemons : List Daemon) :
    (reached daemons).shared.table.Exclusive ∧
    ∀ (sessions : List SessionRow) (workerId now : String),
      ∀ claimed ∈ (reached daemons).shared.table.claimNextCommand sessions workerId now,
        ∃ row ∈ (reached daemons).shared.table.rows, row.id = claimed.1.id ∧
          (reached daemons).shared.table.FirstOfSession row := by
  refine ⟨(owned_reached daemons).exclusive, fun _ _ _ _ hclaim => ?_⟩
  obtain ⟨row, hrow, hrecord, hfirst, -⟩ := claimNextCommand_first hclaim
  exact ⟨row, hrow, hrecord ▸ rfl, hfirst⟩

/-- Two commands of a session, of which the second was queued with an earlier time, and a worker. -/
def twoQueued : Daemon where
  boot := []
  events := [.start 0 (.calling (.enqueueCommand "late" "s" "exec prompt" "[]" "/log" "2026-01-02")),
    .start 1 (.calling (.enqueueCommand "early" "s" "exec prompt" "[]" "/log" "2026-01-01")),
    .step 0 .call, .step 1 .call, .start 2 .idle]

theorem claims_exclusive_in_order_twoQueued :
    ∃ row ∈ (reached [twoQueued]).shared.table.rows, row.id = "early" ∧
      (reached [twoQueued]).shared.table.FirstOfSession row := by
  have hid : ((reached [twoQueued]).shared.table.claimNextCommand [⟨"s", .ready⟩] "w"
      "2026-01-03").map (fun claimed => claimed.1.id) = some "early" := by decide +kernel
  obtain ⟨claimed, hclaim, hearly⟩ := Option.map_eq_some_iff.mp hid
  obtain ⟨row, hrow, hrecord, hfirst⟩ :=
    (claims_exclusive_in_order [twoQueued]).2 _ _ _ claimed hclaim
  exact ⟨row, hrow, hrecord.trans hearly, hfirst⟩

/-- A worker that executes a command finds it as it claimed it, and no other worker owns it. -/
theorem executing_owns (daemons : List Daemon) (worker : ℕ) (command : CommandRecord)
    (h : (reached daemons).calls worker = some (.executing command)) :
    (∃ row ∈ (reached daemons).shared.table.rows,
      commandRecordFromRow row = command ∧ row.status = .running) ∧
    ∀ other position, (reached daemons).calls other = some position →
      position.Owns command.id → other = worker := by
  have howned := owned_reached daemons
  exact ⟨howned.backed worker _ h, fun other position hother howns =>
    howned.alone command.id other worker position _ hother h howns rfl⟩

/-- The worker has claimed the command with the earlier time. -/
def earlyClaimed : Daemon :=
  { twoQueued with
    events := twoQueued.events ++ [.step 2 (.claim [⟨"s", .ready⟩] "w" "2026-01-03")] }

theorem executing_owns_earlyClaimed :
    ∃ row ∈ (reached [earlyClaimed]).shared.table.rows,
      (commandRecordFromRow row).workerId = some "w" ∧ row.status = .running := by
  obtain ⟨row, hrow, hrecord, hruns⟩ := (executing_owns [earlyClaimed] 2 _ rfl).1
  exact ⟨row, hrow, hrecord ▸ rfl, hruns⟩

/-- What has ended is never executed again, however the daemon goes on and whatever the daemons after
it do, as long as their starts do not delete its session. -/
theorem ended_not_executed (daemons more : List Daemon) (events : List (Event Choice Position))
    {row : CommandRow} (hrow : row ∈ (reached daemons).shared.table.rows)
    (hended : row.status.isTerminal = true)
    (hkept : ∀ daemon ∈ more, .deleteCommands row.sessionId ∉ daemon.boot) :
    let config := reachedFrom (queueSystem.run (reached daemons) events) more
    config.shared.table.EndedIn row.sessionId row.id ∧
      ∀ worker command, config.calls worker = some (.executing command) → command.id ≠ row.id := by
  intro config
  have hreached := owned_reached daemons
  have howned : Owned (fun sessionId id => sessionId = row.sessionId ∧ id = row.id) config := by
    apply Owned.reachedFrom
    · apply Owned.run
      refine ⟨hreached.exclusive, hreached.alone, hreached.registered, hreached.backed, ?_⟩
      rintro _ _ ⟨rfl, rfl⟩
      exact ⟨row, hrow, rfl, rfl, hended⟩
    · rintro daemon hdaemon _ _ ⟨rfl, rfl⟩
      exact hkept daemon hdaemon
  have hstays := howned.ended row.sessionId row.id ⟨rfl, rfl⟩
  refine ⟨hstays, ?_⟩
  rintro worker command hexecuting hsame
  obtain ⟨claimed, hclaimed, rfl, hruns⟩ := howned.backed worker _ hexecuting
  obtain ⟨found, hfound, hid, -, hterminal⟩ := hstays
  rw [eq_of_id hfound hclaimed (hid.trans hsame.symm), hruns] at hterminal
  cases hterminal

/-- The worker has stored how the command ended. -/
def earlyFinished : Daemon :=
  { earlyClaimed with
    events := earlyClaimed.events ++ [.step 2 (.persist ⟨0, .done, "{}", .refl true⟩ "2026-01-04")] }

/-- The next daemon puts what runs back into the queue. -/
theorem ended_not_executed_earlyFinished :
    (reachedFrom (queueSystem.run (reached [earlyFinished]) [.step 2 .unregister])
      [⟨[.recoverStaleCommands "2026-01-05"], []⟩]).shared.table.EndedIn "s" "early" := by
  have hrow : ∃ row ∈ (reached [earlyFinished]).shared.table.rows, row.id = "early" ∧
      row.sessionId = "s" ∧ row.status.isTerminal = true := by decide +kernel
  obtain ⟨row, hrow, hid, hsession, hended⟩ := hrow
  have hstays := (ended_not_executed [earlyFinished] [⟨[.recoverStaleCommands "2026-01-05"], []⟩]
    [.step 2 .unregister] hrow hended (by simp)).1
  rwa [hid, hsession] at hstays

end Awman.Api
