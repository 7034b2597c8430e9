import Awman.Library.NewestRows
import Mathlib.Data.String.Basic
import Mathlib.Data.Prod.Lex
import Mathlib.Order.WithBot
import Mathlib.Algebra.Group.Int.Defs

/-!
# The table of queued commands

Every command has a row in the table, and a queue in the order of the time it was queued at, where no
time comes first, and of its row number.  A worker claims the first row whose session is ready and has
nothing running.  The statements that read or change the table keep row numbers and identifiers.
-/

namespace Awman.Api

open Awman.NewestRows

/-- The lifecycle of a command row. -/
inductive CommandStatus where
  /-- Waiting for a worker and for its session. -/
  | queued
  /-- The spelling of an old database. -/
  | pending
  /-- Claimed by a worker. -/
  | running
  /-- Finished well. -/
  | done
  | error
  | cancelled
deriving DecidableEq, Repr

/-- Whether the command has ended. -/
def CommandStatus.isTerminal : CommandStatus → Bool
  | .done | .error | .cancelled => true
  | .queued | .pending | .running => false

/-- Whether a worker may claim a row of this status. -/
def CommandStatus.isClaimable : CommandStatus → Bool
  | .queued | .pending => true
  | .running | .done | .error | .cancelled => false

theorem CommandStatus.not_claimable_of_terminal {status : CommandStatus} (h : status.isTerminal = true) :
    status.isClaimable = false := by
  cases status with
  | queued | pending | running => cases h
  | done | error | cancelled => rfl

/-- The status with the old spelling folded into the new one. -/
def CommandStatus.canonical : CommandStatus → CommandStatus
  | .pending => .queued
  | status => status

/-- A row of the table. -/
structure CommandRow where
  /-- The number of the row. -/
  rowid : ℤ
  /-- The identifier of the command. -/
  id : String
  sessionId : String
  subcommand : String
  /-- The arguments as JSON. -/
  args : String
  status : CommandStatus
  exitCode : Option ℤ := none
  /-- When a worker claimed it. -/
  startedAt : Option String := none
  finishedAt : Option String := none
  logPath : String := ""
  workerId : Option String := none
  queuedAt : Option String := none
  result : Option String := none
  /-- Which execution of the command this is. -/
  attempt : ℤ := 1
deriving DecidableEq, Repr

/-- What a reader of a row gets. -/
structure CommandRecord where
  id : String
  sessionId : String
  subcommand : String
  args : String
  status : CommandStatus
  exitCode : Option ℤ
  startedAt : Option String
  finishedAt : Option String
  logPath : String
  workerId : Option String
  queuedAt : Option String
  result : Option String
  attempt : ℕ
deriving DecidableEq, Repr

/-- Read a row; an attempt that is no 32-bit number is read as the first one. -/
def commandRecordFromRow (row : CommandRow) : CommandRecord where
  id := row.id
  sessionId := row.sessionId
  subcommand := row.subcommand
  args := row.args
  status := row.status.canonical
  exitCode := row.exitCode
  startedAt := row.startedAt
  finishedAt := row.finishedAt
  logPath := row.logPath
  workerId := row.workerId
  queuedAt := row.queuedAt
  result := row.result
  attempt := if 0 ≤ row.attempt ∧ row.attempt < 2 ^ 32 then row.attempt.toNat else 1

/-- A time in a column that sorts rows; no time comes first. -/
def timeKey : Option String → WithBot String
  | none => ⊥
  | some time => (time : WithBot String)

/-- The place of a row in the queue: the time it was queued at, and its number. -/
def CommandRow.queueKey (row : CommandRow) : WithBot String ×ₗ ℤ :=
  toLex (timeKey row.queuedAt, row.rowid)

/-- How far the setup of a session has come. -/
inductive SessionSetupStatus where
  | initializing
  | cloningRepository
  | settingUpBranch
  | mergingRefs
  | runningReady
  | ready
  | failed
deriving DecidableEq, Repr

/-- A session, as far as the queue reads it. -/
structure SessionRow where
  /-- The identifier of the session. -/
  id : String
  /-- How far its setup has come. -/
  setupStatus : SessionSetupStatus
deriving DecidableEq, Repr

/-- The rows of the commands; row numbers and identifiers are unique. -/
structure CommandTable where
  rows : List CommandRow
  /-- No two rows have one number. -/
  rowids : (rows.map CommandRow.rowid).Nodup
  /-- No two rows have one identifier. -/
  ids : (rows.map CommandRow.id).Nodup

namespace CommandTable

/-- What a statement sets in a row; it keeps the number, the identifier and the session. -/
structure Assignment where
  /-- The row after the statement. -/
  assign : CommandRow → CommandRow
  /-- The number is kept. -/
  rowid : ∀ row, (assign row).rowid = row.rowid
  /-- The identifier is kept. -/
  id : ∀ row, (assign row).id = row.id
  sessionId : ∀ row, (assign row).sessionId = row.sessionId

/-- Change the rows that meet a condition. -/
def update (table : CommandTable) (condition : CommandRow → Bool) (assignment : Assignment) :
    CommandTable where
  rows := table.rows.map fun row => if condition row then assignment.assign row else row
  rowids := by
    rw [List.map_map]
    have hkept : (CommandRow.rowid ∘ fun row =>
        if condition row then assignment.assign row else row) = CommandRow.rowid := by
      funext row
      simp only [Function.comp]
      split
      · exact assignment.rowid row
      · rfl
    rw [hkept]
    exact table.rowids
  ids := by
    rw [List.map_map]
    have hkept : (CommandRow.id ∘ fun row =>
        if condition row then assignment.assign row else row) = CommandRow.id := by
      funext row
      simp only [Function.comp]
      split
      · exact assignment.id row
      · rfl
    rw [hkept]
    exact table.ids

/-- The row is claimed. -/
def Assignment.claim (workerId now : String) : Assignment where
  assign row := { row with
    status := .running
    workerId := some workerId
    startedAt := some now }
  rowid _ := rfl
  id _ := rfl
  sessionId _ := rfl

/-- The command has ended; a time it ended at before is kept. -/
def Assignment.complete (status : CommandStatus) (exitCode : Option ℤ) (result : Option String)
    (now : String) : Assignment where
  assign row := { row with
    status := status
    exitCode := exitCode
    finishedAt := row.finishedAt <|> some now
    result := result }
  rowid _ := rfl
  id _ := rfl
  sessionId _ := rfl

variable (table : CommandTable)

/-- Whether a session has a running command. -/
def sessionBusy (sessionId : String) : Bool :=
  table.rows.any fun row => row.sessionId = sessionId && row.status = .running

/-- Whether a worker may claim the row: it waits, its session is ready, and nothing of it runs. -/
def claimable (sessions : List SessionRow) (row : CommandRow) : Bool :=
  row.status.isClaimable &&
    sessions.any (fun session => session.id = row.sessionId && session.setupStatus = .ready) &&
    !table.sessionBusy row.sessionId

/-- The first row that may be claimed. -/
def nextCommand (sessions : List SessionRow) : Option CommandRow :=
  ((table.rows.filter (table.claimable sessions)).insertionSort fun first second =>
    first.queueKey ≤ second.queueKey).head?

/-- Claim the first row that may be claimed. -/
def claimNextCommand (sessions : List SessionRow) (workerId now : String) :
    Option (CommandRecord × CommandTable) :=
  match table.nextCommand sessions with
  | none => none
  | some row =>
    some (commandRecordFromRow ((Assignment.claim workerId now).assign row),
      table.update (fun other => other.id = row.id) (.claim workerId now))

/-- Record how a command ended. -/
def completeCommand (id : String) (status : CommandStatus)
    (exitCode : Option ℤ) (result : Option String) (now : String) : CommandTable :=
  table.update (fun row => row.id = id) (.complete status exitCode result now)

/-- The number of the next row. -/
def nextRowid : ℤ :=
  (table.rows.map CommandRow.rowid).foldr max 0 + 1

theorem rowid_lt_nextRowid {table : CommandTable} {row : CommandRow} (hrow : row ∈ table.rows) :
    row.rowid < table.nextRowid := by
  have hle : ∀ (numbers : List ℤ), ∀ number ∈ numbers, number ≤ numbers.foldr max 0 := by
    intro numbers
    induction numbers with
    | nil => simp
    | cons first rest ih =>
      intro number hnumber
      rw [List.foldr_cons]
      rcases List.mem_cons.mp hnumber with rfl | hrest
      · exact le_max_left _ _
      · exact (ih number hrest).trans (le_max_right _ _)
  have hbound := hle _ _ (List.mem_map_of_mem (f := CommandRow.rowid) hrow)
  rw [nextRowid]
  omega

/-- Queue a command; an identifier that is there is refused. -/
def enqueueCommand (table : CommandTable) (id sessionId subcommand args logPath now : String) :
    Option CommandTable :=
  if hid : id ∈ table.rows.map CommandRow.id then
    none
  else
    some {
      rows := table.rows ++ [{
        rowid := table.nextRowid
        id := id
        sessionId := sessionId
        subcommand := subcommand
        args := args
        status := .queued
        logPath := logPath
        queuedAt := some now }]
      rowids := by
        rw [List.map_append, List.nodup_append]
        refine ⟨table.rowids, List.nodup_singleton _, ?_⟩
        intro number hnumber other hother heq
        obtain ⟨row, hrow, rfl⟩ := List.mem_map.mp hnumber
        have hless := rowid_lt_nextRowid hrow
        simp only [List.map_cons, List.map_nil, List.mem_singleton] at hother
        omega
      ids := by
        rw [List.map_append, List.nodup_append]
        refine ⟨table.ids, List.nodup_singleton _, ?_⟩
        intro first hfirst second hsecond heq
        simp only [List.map_cons, List.map_nil, List.mem_singleton] at hsecond
        rw [heq, hsecond] at hfirst
        exact hid hfirst }

/-- The rows of a session. -/
def sessionRows (table : CommandTable) (sessionId : String) : List CommandRow :=
  table.rows.filter fun row => row.sessionId = sessionId

/-- The newest rows of a session, the newest first. -/
def listCommandsForSession (table : CommandTable) (sessionId : String) (limit : ℕ) :
    List CommandRecord :=
  ((newestFirst CommandRow.queueKey (table.sessionRows sessionId)).take limit).map
    commandRecordFromRow

/-- How many commands of a session wait. -/
def countQueuedForSession (table : CommandTable) (sessionId : String) : ℕ :=
  table.rows.countP fun row => row.sessionId = sessionId && row.status.isClaimable

/-- A running command of a session. -/
def runningCommandForSession (table : CommandTable) (sessionId : String) : Option CommandRecord :=
  (table.rows.find? fun row => row.sessionId = sessionId && row.status = .running).map
    commandRecordFromRow

/-- Whether a row was queued before another: it has no time and the other has, its time is earlier, or
the times are the same and its number is smaller. -/
def queuedBefore (row target : CommandRow) : Bool :=
  (row.queuedAt.isNone && target.queuedAt.isSome) ||
    (match row.queuedAt, target.queuedAt with
      | some time, some limit => decide (time < limit)
      | _, _ => false) ||
    (row.queuedAt = target.queuedAt && decide (row.rowid < target.rowid))

/-- How many waiting commands of the session were queued before this one, if it waits. -/
def queuePositionForCommand (table : CommandTable) (commandId sessionId : String) : Option ℕ :=
  (table.rows.find? fun target => target.id = commandId && target.status.isClaimable).map
    fun target => table.rows.countP fun row =>
      row.sessionId = sessionId && row.status.isClaimable && queuedBefore row target

variable {table : CommandTable} {row other : CommandRow} {condition : CommandRow → Bool}
  {assignment : Assignment}

/-! ## Rows and their places -/

theorem eq_of_id (hrow : row ∈ table.rows) (hother : other ∈ table.rows) (hid : row.id = other.id) :
    row = other :=
  List.inj_on_of_nodup_map table.ids hrow hother hid

theorem mem_update :
    row ∈ (table.update condition assignment).rows ↔
      ∃ before ∈ table.rows,
        row = if condition before then assignment.assign before else before := by
  simp only [update, List.mem_map]
  constructor
  · rintro ⟨before, hbefore, heq⟩
    exact ⟨before, hbefore, heq.symm⟩
  · rintro ⟨before, hbefore, heq⟩
    exact ⟨before, hbefore, heq.symm⟩

theorem queueKey_injective (hrow : row ∈ table.rows) (hother : other ∈ table.rows)
    (hkey : row.queueKey = other.queueKey) : row = other := by
  have hpair := toLex_inj.mp hkey
  exact List.inj_on_of_nodup_map table.rowids hrow hother (Prod.mk.inj hpair).2

theorem queueKeys_nodup (table : CommandTable) (sessionId : String) :
    ((table.sessionRows sessionId).map CommandRow.queueKey).Nodup := by
  have hrows : table.rows.Nodup := table.rowids.of_map
  refine List.Nodup.map_on ?_ (hrows.filter _)
  intro row hrow other hother hkey
  exact queueKey_injective (List.mem_of_mem_filter hrow) (List.mem_of_mem_filter hother) hkey

theorem timeKey_inj {first second : Option String} : timeKey first = timeKey second ↔ first = second := by
  cases first with
  | none =>
    cases second with
    | none => simp
    | some limit => simp [timeKey]
  | some time =>
    cases second with
    | none | some => simp [timeKey]

/-- The comparison of the statement is the order of the queue. -/
theorem queuedBefore_iff : queuedBefore row other = true ↔ row.queueKey < other.queueKey := by
  have hkey : row.queueKey < other.queueKey ↔
      timeKey row.queuedAt < timeKey other.queuedAt ∨
        row.queuedAt = other.queuedAt ∧ row.rowid < other.rowid := by
    rw [CommandRow.queueKey, CommandRow.queueKey, Prod.Lex.toLex_lt_toLex]
    simp only [timeKey_inj]
  rw [hkey, queuedBefore, Bool.or_eq_true, Bool.and_eq_true, decide_eq_true_eq, decide_eq_true_eq]
  refine or_congr ?_ Iff.rfl
  cases row.queuedAt with
  | none =>
    cases other.queuedAt with
    | none => simp
    | some limit => simp [timeKey]
  | some time =>
    cases other.queuedAt with
    | none => simp [timeKey]
    | some limit =>
      simp only [timeKey, WithBot.coe_lt_coe, Option.isNone_some, Bool.false_and, Bool.false_or,
        decide_eq_true_eq]

/-- The row that is claimed may be claimed and comes before every other one that may. -/
theorem nextCommand_some {sessions : List SessionRow} (h : table.nextCommand sessions = some row) :
    row ∈ table.rows ∧ table.claimable sessions row = true ∧
      ∀ other ∈ table.rows, table.claimable sessions other = true →
        row.queueKey ≤ other.queueKey := by
  have htotal : Std.Total fun first second : CommandRow => first.queueKey ≤ second.queueKey :=
    ⟨fun first second => le_total first.queueKey second.queueKey⟩
  have htrans : IsTrans CommandRow fun first second => first.queueKey ≤ second.queueKey :=
    ⟨fun _ _ _ hfirst hsecond => hfirst.trans hsecond⟩
  have hsorted := List.pairwise_insertionSort
    (fun first second : CommandRow => first.queueKey ≤ second.queueKey)
    (table.rows.filter (table.claimable sessions))
  have hmem : ∀ other, other ∈ (table.rows.filter (table.claimable sessions)).insertionSort
      (fun first second => first.queueKey ≤ second.queueKey) ↔
        other ∈ table.rows ∧ table.claimable sessions other = true := by
    intro other
    rw [List.mem_insertionSort, List.mem_filter]
  unfold nextCommand at h
  generalize hlist : (table.rows.filter (table.claimable sessions)).insertionSort
    (fun first second => first.queueKey ≤ second.queueKey) = sorted at h hsorted hmem
  cases sorted with
  | nil => cases h
  | cons first rest =>
    obtain rfl : first = row := Option.some.inj h
    obtain ⟨hrow, hclaim⟩ := (hmem first).mp List.mem_cons_self
    refine ⟨hrow, hclaim, ?_⟩
    intro other hother hotherClaim
    rcases List.mem_cons.mp ((hmem other).mpr ⟨hother, hotherClaim⟩) with rfl | hrest
    · exact le_refl _
    · exact List.rel_of_pairwise_cons hsorted hrest

/-- Something is claimed as long as a row may be claimed. -/
theorem nextCommand_ne_none {sessions : List SessionRow} (hrow : row ∈ table.rows)
    (hclaim : table.claimable sessions row = true) : table.nextCommand sessions ≠ none := by
  intro hnone
  unfold nextCommand at hnone
  rw [List.head?_eq_none_iff] at hnone
  have hmem : row ∈ (table.rows.filter (table.claimable sessions)).insertionSort
      (fun first second => first.queueKey ≤ second.queueKey) := by
    rw [List.mem_insertionSort, List.mem_filter]
    exact ⟨hrow, hclaim⟩
  rw [hnone] at hmem
  cases hmem

end CommandTable

end Awman.Api
