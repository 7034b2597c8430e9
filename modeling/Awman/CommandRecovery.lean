import Awman.CommandTable
import Awman.Library.Checks
import Awman.Library.NameMaps
import Awman.Library.RelatedLists

/-!
# Recovering commands when the daemon starts

A daemon that stopped leaves rows in status running.  The next start deletes the sessions that were closed
for more than a day with their rows, and then three passes take them up: a row
whose completion sidecar was written gets that outcome, a row with a cancel request is cancelled, and a
row that was claimed before now is queued again.  Each pass reads and writes rows through statements with
conditions of their own.
-/

namespace Awman.Api

/-- The outcome of an execution, as it is written beside the log before the row is changed. -/
structure CommandCompletion where
  /-- The execution it is the outcome of. -/
  attempt : ℕ
  status : CommandStatus
  exitCode : ℤ
  resultJson : String
  finishedAt : String
  /-- The attempt is a 32-bit number. -/
  attempt_lt : attempt < 2 ^ 32
  /-- Only an outcome is written. -/
  terminal : status.isTerminal = true

/-- What publishing the end of a command writes into its row. -/
structure QueuedCommandResult where
  exitCode : ℤ
  status : CommandStatus
  resultJson : String
  terminal : status.isTerminal = true

/-- The sidecars that were written; one that is damaged cannot be read. -/
abbrev Sidecars : Type := NameMap (String × String) (Except String CommandCompletion)

/-- What a start of the daemon finds and is told. -/
structure Restart where
  /-- The sessions closed more than a day ago, which are deleted with their commands. -/
  purged : List String
  interruptedSetups : List String
  /-- The cancel requests: a command, and when it was asked for. -/
  cancellations : List (String × String)
  /-- The time of the start. -/
  now : String
  /-- The time before which a claim is stale. -/
  cutoff : String
  /-- Why the statements of the cancellation pass fail, if they do. -/
  cancellationFault : Option String
  /-- Why the statements of the stale recovery fail, if they do. -/
  requeueFault : Option String
  /-- Why the containers of a command cannot be stopped, if they cannot. -/
  stopFault : Option String
  /-- The commands of the runs, each with whether its setup failed. -/
  runs : List (String × Bool)
  /-- What publishing the end of a command writes into its row, if anything. -/
  republish : CommandRecord → Option QueuedCommandResult
  cancelledResultJson : String → String
  setupErrorResult : String
  completionPath : String → String → String

/-- What a start of the daemon changes. -/
structure Recovered where
  table : CommandTable
  sidecars : Sidecars

namespace CommandTable

/-- A setup failed, so the command never ran. -/
def Assignment.failSetup (now result : String) : Assignment where
  assign row := { row with
    status := .error
    exitCode := some 1
    finishedAt := some now
    result := some result }
  rowid _ := rfl
  id _ := rfl
  sessionId _ := rfl

/-- The outcome of a sidecar. -/
def Assignment.finalize (completion : CommandCompletion) : Assignment where
  assign row := { row with
    status := completion.status
    exitCode := some completion.exitCode
    finishedAt := some completion.finishedAt
    result := some completion.resultJson }
  rowid _ := rfl
  id _ := rfl
  sessionId _ := rfl

/-- The command was cancelled. -/
def Assignment.cancel (now result : String) : Assignment where
  assign row := { row with
    status := .cancelled
    exitCode := some 130
    finishedAt := some now
    result := some result }
  rowid _ := rfl
  id _ := rfl
  sessionId _ := rfl

/-- The command waits again, for its next execution. -/
def Assignment.requeue : Assignment where
  assign row := { row with
    status := .queued
    workerId := none
    startedAt := none
    attempt := row.attempt + 1 }
  rowid _ := rfl
  id _ := rfl
  sessionId _ := rfl

/-- The row of a command. -/
def row? (table : CommandTable) (id : String) : Option CommandRow :=
  table.rows.find? fun row => row.id = id

/-- Mark a command that waits as failed. -/
def failIfQueued (table : CommandTable) (id now result : String) : CommandTable :=
  table.update (fun row => row.id = id && row.status.isClaimable) (.failSetup now result)

/-- Whether a row is the running one that a sidecar belongs to. -/
def finalizes (id : String) (completion : CommandCompletion) (row : CommandRow) : Bool :=
  row.id = id && row.status = .running && row.attempt = completion.attempt

/-- Finalize a running row from its sidecar; report whether the row changed. -/
def finalizeRunningCommand (table : CommandTable) (id : String) (completion : CommandCompletion) :
    CommandTable × Bool :=
  (table.update (finalizes id completion) (.finalize completion),
    table.rows.any (finalizes id completion))

/-- Cancel one command that has not ended. -/
def cancelUnfinished (table : CommandTable) (id now result : String) : CommandTable :=
  table.update (fun row => row.id = id && !row.status.isTerminal) (.cancel now result)

/-- Whether a row runs since before the cutoff. -/
def stale (cutoff : String) (row : CommandRow) : Bool :=
  row.status = .running && row.startedAt.any fun time => time < cutoff

/-- Delete the commands of some sessions. -/
def deleteSessions (table : CommandTable) (sessions : List String) : CommandTable where
  rows := table.rows.filter fun row => row.sessionId ∉ sessions
  rowids := table.rowids.sublist (List.filter_sublist.map _)
  ids := table.ids.sublist (List.filter_sublist.map _)

/-- Queue the stale rows again; report which ones they were. -/
def recoverStaleCommands (table : CommandTable) (cutoff : String) : List String × CommandTable :=
  ((table.rows.filter (stale cutoff)).map CommandRow.id, table.update (stale cutoff) .requeue)

end CommandTable

namespace Restart

/-- Finish a command that has ended and has no worker: its row may get a result with more in it. -/
def finalizeUnownedCommand (restart : Restart) (table : CommandTable) (id : String) : CommandTable :=
  match table.row? id with
  | none => table
  | some row =>
    if row.status.isTerminal then
      match restart.republish (commandRecordFromRow row) with
      | none => table
      | some result =>
        table.completeCommand id result.status (some result.exitCode) (some result.resultJson)
          restart.now
    else
      table

/-- Finalize a running row from its sidecar; report whether the row has ended now.  A sidecar that
cannot be read is an error, and one of another attempt is removed. -/
def finalizeRunningFromSidecar (restart : Restart) (recovered : Recovered) (command : CommandRecord) :
    Except String Bool × Recovered :=
  match recovered.sidecars.lookup (command.sessionId, command.id) with
  | none => (.ok false, recovered)
  | some (.error error) =>
    (.error ("command " ++ command.id ++ ": completion sidecar " ++
      restart.completionPath command.sessionId command.id ++
      " is unreadable, so whether it finished is unknown; restore the file, or remove it to let the " ++
      "command run again: " ++ error), recovered)
  | some (.ok completion) =>
    if completion.attempt ≠ command.attempt then
      (.ok false, { recovered with
        sidecars := recovered.sidecars.erase (command.sessionId, command.id) })
    else
      let finalized := recovered.table.finalizeRunningCommand command.id completion
      if finalized.2 then
        (.ok true, {
          table := restart.finalizeUnownedCommand finalized.1 command.id
          sidecars := recovered.sidecars.erase (command.sessionId, command.id) })
      else
        (.ok false, { recovered with table := finalized.1 })

/-- Apply the sidecar of one command: the sidecar of a row that has ended is removed. -/
def applySidecar (restart : Restart) (recovered : Recovered) (command : CommandRecord) :
    Except String Bool × Recovered :=
  if command.status.isTerminal then
    match recovered.sidecars.lookup (command.sessionId, command.id) with
    | none => (.ok false, recovered)
    | some _ => (.ok false, { recovered with
        sidecars := recovered.sidecars.erase (command.sessionId, command.id) })
  else if command.status = .running then
    restart.finalizeRunningFromSidecar recovered command
  else
    (.ok false, recovered)

/-- Apply the sidecars of some commands in turn and collect what failed. -/
def applySidecars (restart : Restart) : List CommandRecord → Recovered → List String × Recovered
  | [], recovered => ([], recovered)
  | command :: rest, recovered =>
    let applied := restart.applySidecar recovered command
    let others := restart.applySidecars rest applied.2
    match applied.1 with
    | .ok _ => others
    | .error error => (error :: others.1, others.2)

/-- Apply the sidecars of all commands; what failed refuses the start. -/
def finalizeCompletedFromSidecars (restart : Restart) (recovered : Recovered) :
    Except String Recovered :=
  let commands := (NewestRows.newestFirst CommandRow.queueKey recovered.table.rows).map
    commandRecordFromRow
  match restart.applySidecars commands recovered with
  | ([], after) => .ok after
  | (failure :: failures, _) => .error ("; ".intercalate (failure :: failures))

/-- Cancel the commands that were asked to cancel and have not ended. -/
def finalizeInterruptedCancellations (restart : Restart) (table : CommandTable) : CommandTable :=
  let interrupted := restart.cancellations.filter fun request =>
    (table.row? request.1).any fun row => !row.status.isTerminal
  let cancelled := interrupted.foldl (fun table request => table.cancelUnfinished request.1 restart.now
    (restart.cancelledResultJson request.2)) table
  interrupted.foldl (fun table request => restart.finalizeUnownedCommand table request.1) cancelled

/-- Queue the stale rows again; if that fails the start goes on without. -/
def recoverStale (restart : Restart) (table : CommandTable) : CommandTable :=
  match restart.requeueFault with
  | some _ => table
  | none => (table.recoverStaleCommands restart.cutoff).2

/-- The run of a command whose setup was interrupted can never start. -/
def failInterruptedSetup (restart : Restart) (table : CommandTable) (id : String) : CommandTable :=
  restart.finalizeUnownedCommand (table.failIfQueued id restart.now restart.setupErrorResult) id

/-- Finish what a crash left of a run. -/
def reconcileRun (restart : Restart) (table : CommandTable) (run : String × Bool) : CommandTable :=
  restart.finalizeUnownedCommand
    (if run.2 then table.failIfQueued run.1 restart.now restart.setupErrorResult else table) run.1

/-- What the start of the daemon does to the rows, or why it is refused. -/
def bootstrap (restart : Restart) (recovered : Recovered) : Except String Recovered := do
  let kept := recovered.table.deleteSessions restart.purged
  let failed := restart.interruptedSetups.foldl restart.failInterruptedSetup kept
  let completed ← restart.finalizeCompletedFromSidecars { recovered with table := failed }
  match restart.cancellationFault with
  | some fault => .error fault
  | none =>
    let cancelled := restart.finalizeInterruptedCancellations completed.table
    let requeued := restart.recoverStale cancelled
    match restart.stopFault with
    | some fault => .error fault
    | none =>
      .ok { completed with table := restart.runs.foldl restart.reconcileRun requeued }

end Restart

/-! ## What a pass does to a row -/

/-- A row that runs is left alone; another one is left alone or has ended. -/
def Quiet (before after : CommandRow) : Prop :=
  after = before ∨
    before.status ≠ .running ∧ after.status.isTerminal = true ∧ after.id = before.id

/-- A running row that is covered has ended, and every other row is treated quietly. -/
inductive Finishes (covered : CommandRow → Prop) (before after : CommandRow) : Prop where
  | ended (hrunning : before.status = .running) (hcovered : covered before)
      (hended : after.status.isTerminal = true) (hid : after.id = before.id)
  /-- The row is treated quietly. -/
  | quiet (hquiet : Quiet before after) (huncovered : before.status = .running → ¬covered before)

/-- A readable sidecar of the row's own execution was written. -/
def HasSidecar (sidecars : Sidecars) (row : CommandRow) : Prop :=
  ∃ completion : CommandCompletion,
    sidecars.lookup (row.sessionId, row.id) = some (.ok completion) ∧
      (completion.attempt : ℤ) = row.attempt

/-- The command was asked to cancel. -/
def Restart.Requested (restart : Restart) (row : CommandRow) : Prop :=
  row.id ∈ restart.cancellations.map Prod.fst

/-- One of the passes takes the row up. -/
def Restart.Covered (restart : Restart) (sidecars : Sidecars) (row : CommandRow) : Prop :=
  HasSidecar sidecars row ∨ restart.Requested row ∨
    restart.requeueFault = none ∧ CommandTable.stale restart.cutoff row = true

/-- What became of a row that was running: it has ended as its sidecar or its cancel request has it, or
it waits again, unless its setup had failed. -/
inductive Restart.TakenUp (restart : Restart) (sidecars : Sidecars) (before after : CommandRow) : Prop where
  | completed (hsidecar : HasSidecar sidecars before) (hended : after.status.isTerminal = true)
      (hid : after.id = before.id)
  | cancelled (hrequested : restart.Requested before) (hended : after.status.isTerminal = true)
      (hid : after.id = before.id)
  /-- It was queued again. -/
  | requeued (hquiet : Quiet (CommandTable.Assignment.requeue.assign before) after)

/-- What the start makes of a row. -/
def Restart.Recovers (restart : Restart) (sidecars : Sidecars) (before after : CommandRow) : Prop :=
  if before.status = .running then
    restart.Covered sidecars before ∧ restart.TakenUp sidecars before after ∨
      ¬restart.Covered sidecars before ∧ after = before
  else
    after.status ≠ .running

theorem CommandStatus.ne_running_of_terminal {status : CommandStatus} (h : status.isTerminal = true) :
    status ≠ .running := by
  rintro rfl
  cases h

section Rows

variable {first second third before after row : CommandRow} {covered others : CommandRow → Prop}

theorem Quiet.refl (row : CommandRow) : Quiet row row := Or.inl rfl

section

variable (h : Quiet before after)
include h

/-- A quiet change leaves a running row alone. -/
theorem Quiet.eq_of_running (hrunning : before.status = .running) : after = before := by
  rcases h with heq | hended
  · exact heq
  · exact absurd hrunning hended.1

/-- It makes no row run, and none stop. -/
theorem Quiet.running_iff :
    after.status = .running ↔ before.status = .running := by
  rcases h with rfl | ⟨hstill, hended, -⟩
  · exact Iff.rfl
  · exact iff_of_false (CommandStatus.ne_running_of_terminal hended) hstill

/-- What has ended stays ended. -/
theorem Quiet.terminal (hended : before.status.isTerminal = true) : after.status.isTerminal = true := by
  rcases h with rfl | hquiet
  · exact hended
  · exact hquiet.2.1

theorem Quiet.id_eq : after.id = before.id := by
  rcases h with rfl | hquiet
  · rfl
  · exact hquiet.2.2

end

theorem Quiet.trans (hfirst : Quiet first second) (hsecond : Quiet second third) : Quiet first third := by
  rcases hfirst with rfl | ⟨hstill, hended, hid⟩
  · exact hsecond
  · exact Or.inr ⟨hstill, hsecond.terminal hended, hsecond.id_eq.trans hid⟩

/-- A quiet change finishes nothing. -/
theorem Finishes.of_quiet (h : Quiet before after) : Finishes (fun _ => False) before after :=
  .quiet h fun _ => not_false

/-- Two passes one after the other cover what either of them covers. -/
theorem Finishes.comp (hfirst : Finishes covered first second) (hsecond : Finishes others second third) :
    Finishes (fun row => covered row ∨ others row) first third := by
  cases hfirst with
  | ended hrunning hcovered hended hid =>
    cases hsecond with
    | ended hstill => exact absurd hstill (CommandStatus.ne_running_of_terminal hended)
    | quiet hquiet _ =>
      exact .ended hrunning (Or.inl hcovered) (hquiet.terminal hended) (hquiet.id_eq.trans hid)
  | quiet hquiet huncovered =>
    cases hsecond with
    | ended hrunning hothers hended hid =>
      have hbefore := hquiet.running_iff.mp hrunning
      have heq := hquiet.eq_of_running hbefore
      rw [heq] at hothers hid
      exact .ended hbefore (Or.inr hothers) hended hid
    | quiet hsecond hneither =>
      refine .quiet (hquiet.trans hsecond) ?_
      intro hrunning
      have heq := hquiet.eq_of_running hrunning
      rw [heq] at hneither
      exact not_or.mpr ⟨huncovered hrunning, hneither hrunning⟩

theorem Finishes.congr (h : Finishes covered before after)
    (hiff : before.status = .running → (covered before ↔ others before)) :
    Finishes others before after := by
  cases h with
  | ended hrunning hcovered hended hid => exact .ended hrunning ((hiff hrunning).mp hcovered) hended hid
  | quiet hquiet huncovered =>
    exact .quiet hquiet fun hrunning hother => huncovered hrunning ((hiff hrunning).mpr hother)

end Rows

/-! ## What a statement does to the table -/

/-- The rows of two tables correspond one by one. -/
abbrev RowWise (relation : CommandRow → CommandRow → Prop) (before after : CommandTable) : Prop :=
  List.Forall₂ relation before.rows after.rows

namespace RowWise

variable {first second third table : CommandTable} {relation following whole : CommandRow → CommandRow → Prop}

theorem refl (hrefl : ∀ row ∈ table.rows, relation row row) : RowWise relation table table :=
  List.forall₂_same.mpr hrefl

theorem update {condition : CommandRow → Bool} {assignment : CommandTable.Assignment}
    (hrow : ∀ row ∈ table.rows,
      relation row (if condition row then assignment.assign row else row)) :
    RowWise relation table (table.update condition assignment) :=
  List.forall₂_map_right_iff.mpr (List.forall₂_same.mpr hrow)

/-- A fold of quiet steps is quiet. -/
theorem foldl_quiet {α : Type} {step : CommandTable → α → CommandTable}
    (hstep : ∀ table item, RowWise Quiet table (step table item)) (items : List α)
    (table : CommandTable) :
    RowWise Quiet table (items.foldl step table) := by
  induction items generalizing table with
  | nil => exact refl fun row _ => Quiet.refl row
  | cons item rest ih =>
    rw [List.foldl_cons]
    exact RelatedLists.comp (hstep table item) (ih _) fun _ _ _ hfirst hsecond => hfirst.trans hsecond

end RowWise

/-! ## The passes -/

variable {restart : Restart} {table : CommandTable} {id : String}

theorem CommandTable.row?_eq_some {row : CommandRow} (h : table.row? id = some row) :
    row ∈ table.rows ∧ row.id = id := by
  have hid := List.find?_some h
  rw [decide_eq_true_eq] at hid
  exact ⟨List.mem_of_find?_eq_some h, hid⟩

theorem CommandTable.row?_of_mem {row : CommandRow} (hrow : row ∈ table.rows) :
    table.row? row.id = some row := by
  cases hfound : table.row? row.id with
  | none =>
    have hnone := List.find?_eq_none.mp hfound row hrow
    exact absurd (decide_eq_true rfl) hnone
  | some other =>
    obtain ⟨hother, hid⟩ := CommandTable.row?_eq_some hfound
    exact congrArg some (CommandTable.eq_of_id hother hrow hid)

/-- Only a waiting row is failed. -/
theorem failIfQueued_quiet (table : CommandTable) (id now result : String) :
    RowWise Quiet table (table.failIfQueued id now result) := by
  apply RowWise.update
  intro row _
  split
  case isTrue hcondition =>
      rw [Bool.and_eq_true] at hcondition
      refine Or.inr ⟨?_, rfl, rfl⟩
      intro hrunning
      rw [hrunning] at hcondition
      cases hcondition.2
  case isFalse => exact Quiet.refl row

section

variable (restart : Restart) (table : CommandTable)

/-- Finishing a command that has no worker changes at most its row, and that one only if it has ended. -/
theorem finalizeUnownedCommand_changes (id : String) :
    RowWise (fun before after => Quiet before after ∧ (before.id ≠ id → after = before)) table
      (restart.finalizeUnownedCommand table id) := by
  have hsame : RowWise (fun before after => Quiet before after ∧ (before.id ≠ id → after = before))
      table table := RowWise.refl fun row _ => ⟨Quiet.refl row, fun _ => rfl⟩
  unfold Restart.finalizeUnownedCommand
  cases hfound : table.row? id with
  | none => exact hsame
  | some row =>
    dsimp only
    split
    case isFalse => exact hsame
    case isTrue hended =>
        cases restart.republish (commandRecordFromRow row) with
        | none => exact hsame
        | some result =>
          apply RowWise.update
          intro other hother
          split
          case isTrue hid =>
              rw [decide_eq_true_eq] at hid
              obtain ⟨hrow, hrowId⟩ := CommandTable.row?_eq_some hfound
              have heq := CommandTable.eq_of_id hother hrow (hid.trans hrowId.symm)
              refine ⟨Or.inr ⟨?_, result.terminal, rfl⟩, fun hne => absurd hid hne⟩
              rw [heq]
              exact CommandStatus.ne_running_of_terminal hended
          case isFalse => exact ⟨Quiet.refl other, fun _ => rfl⟩

/-- Finalizing a command without an owner is quiet. -/
theorem finalizeUnownedCommand_quiet (id : String) :
    RowWise Quiet table (restart.finalizeUnownedCommand table id) :=
  (finalizeUnownedCommand_changes restart table id).imp fun _ _ hrow => hrow.1

theorem failInterruptedSetup_quiet (id : String) :
    RowWise Quiet table (restart.failInterruptedSetup table id) :=
  RelatedLists.comp (failIfQueued_quiet table id restart.now restart.setupErrorResult)
    (finalizeUnownedCommand_quiet restart _ id) fun _ _ _ hfirst hsecond => hfirst.trans hsecond

/-- A run of the queue is reconciled quietly. -/
theorem reconcileRun_quiet (run : String × Bool) :
    RowWise Quiet table (restart.reconcileRun table run) := by
  unfold Restart.reconcileRun
  split
  case isTrue =>
      exact RelatedLists.comp (failIfQueued_quiet table run.1 restart.now restart.setupErrorResult)
        (finalizeUnownedCommand_quiet restart _ run.1) fun _ _ _ hfirst hsecond => hfirst.trans hsecond
  case isFalse => exact finalizeUnownedCommand_quiet restart table run.1

end

/-! ### The sidecars -/

theorem canonical_eq_running {status : CommandStatus} :
    status.canonical = .running ↔ status = .running := by
  cases status <;> simp [CommandStatus.canonical]

theorem canonical_isTerminal (status : CommandStatus) :
    status.canonical.isTerminal = status.isTerminal := by
  cases status <;> rfl

/-- The execution that is read from a row is the row's own, if it is that of a sidecar. -/
theorem record_attempt {row : CommandRow} {completion : CommandCompletion}
    (h : (completion.attempt : ℤ) = row.attempt) :
    (commandRecordFromRow row).attempt = completion.attempt := by
  have hbound := completion.attempt_lt
  have hcondition : 0 ≤ row.attempt ∧ row.attempt < 2 ^ 32 := by
    constructor <;> omega
  have hread : (commandRecordFromRow row).attempt =
      if 0 ≤ row.attempt ∧ row.attempt < 2 ^ 32 then row.attempt.toNat else 1 := rfl
  rw [hread, if_pos hcondition]
  omega

variable {recovered : Recovered} {row : CommandRow}

/-- What one step of the sidecar pass does to a row, where the step is for the row with an identifier. -/
def AppliedTo (sidecars : Sidecars) (id : String) (before after : CommandRow) : Prop :=
  Finishes (fun row => row.id = id ∧ HasSidecar sidecars row) before after ∧
    (before.id ≠ id → after = before)

variable {sidecars : Sidecars}

/-- A running row takes what its sidecar says. -/
theorem finalizeRunningCommand_applied {completion : CommandCompletion} (hrow : row ∈ table.rows)
    (hlookup : sidecars.lookup (row.sessionId, row.id) = some (.ok completion)) :
    RowWise (AppliedTo sidecars row.id) table (table.finalizeRunningCommand row.id completion).1 := by
  apply RowWise.update
  intro other hother
  split
  case isTrue hcondition =>
      simp only [CommandTable.finalizes, Bool.and_eq_true, decide_eq_true_eq] at hcondition
      obtain ⟨⟨hid, hrunning⟩, hattempt⟩ := hcondition
      have heq := CommandTable.eq_of_id hother hrow hid
      refine ⟨.ended hrunning ⟨hid, completion, ?_, hattempt.symm⟩ completion.terminal rfl, ?_⟩
      · rw [heq]
        exact hlookup
      · exact fun hne => absurd hid hne
  case isFalse hcondition =>
      refine ⟨.quiet (Quiet.refl other) ?_, fun _ => rfl⟩
      rintro hrunning ⟨hid, written, hwritten, hattempt⟩
      have heq := CommandTable.eq_of_id hother hrow hid
      rw [heq, hlookup] at hwritten
      obtain rfl : completion = written := by simpa using hwritten
      apply hcondition
      simp only [CommandTable.finalizes, Bool.and_eq_true, decide_eq_true_eq]
      exact ⟨⟨hid, hrunning⟩, hattempt.symm⟩

theorem AppliedTo.then_quiet {first second third : CommandRow}
    (hfirst : AppliedTo sidecars id first second)
    (hsecond : Quiet second third ∧ (second.id ≠ id → third = second)) :
    AppliedTo sidecars id first third := by
  have hfinishes := hfirst.1.comp (Finishes.of_quiet hsecond.1)
  refine ⟨hfinishes.congr fun _ => or_iff_left not_false, ?_⟩
  intro hne
  have heq := hfirst.2 hne
  rw [heq] at hsecond
  exact hsecond.2 hne

/-- The pass over the sidecars changes at most the row of its command. -/
theorem applySidecar_applied (restart : Restart) (hrow : row ∈ recovered.table.rows) :
    RowWise (AppliedTo recovered.sidecars row.id) recovered.table
      (restart.applySidecar recovered (commandRecordFromRow row)).2.table := by
  -- where nothing is written the row must not be covered
  have hsame : (row.status = .running → ¬HasSidecar recovered.sidecars row) →
      RowWise (AppliedTo recovered.sidecars row.id) recovered.table recovered.table := by
    intro hnot
    apply RowWise.refl
    intro other hother
    refine ⟨.quiet (Quiet.refl other) ?_, fun _ => rfl⟩
    rintro hrunning ⟨hid, hsidecar⟩
    have heq := CommandTable.eq_of_id hother hrow hid
    rw [heq] at hrunning hsidecar
    exact hnot hrunning hsidecar
  have hstatus : (commandRecordFromRow row).status = row.status.canonical := rfl
  unfold Restart.applySidecar
  rw [hstatus, canonical_isTerminal]
  split
  case isTrue hended =>
      have hnot : row.status = .running → ¬HasSidecar recovered.sidecars row := fun hrunning =>
        absurd hrunning (CommandStatus.ne_running_of_terminal hended)
      split
      · exact hsame hnot
      · exact hsame hnot
  case isFalse =>
      split
      case isFalse hnot =>
          exact hsame fun hrunning => absurd (canonical_eq_running.mpr hrunning) hnot
      case isTrue hrunning =>
          have hsession : (commandRecordFromRow row).sessionId = row.sessionId := rfl
          have hid : (commandRecordFromRow row).id = row.id := rfl
          unfold Restart.finalizeRunningFromSidecar
          rw [hsession, hid]
          split
          next hlookup =>
              refine hsame fun _ hsidecar => ?_
              obtain ⟨completion, hcompletion, -⟩ := hsidecar
              rw [hlookup] at hcompletion
              cases hcompletion
          next error hlookup =>
              refine hsame fun _ hsidecar => ?_
              obtain ⟨completion, hcompletion, -⟩ := hsidecar
              rw [hlookup] at hcompletion
              cases hcompletion
          next completion hlookup =>
              split
              next hother =>
                  refine hsame fun _ hsidecar => ?_
                  obtain ⟨written, hwritten, hattempt⟩ := hsidecar
                  rw [hlookup] at hwritten
                  obtain rfl : completion = written := by simpa using hwritten
                  exact hother (record_attempt hattempt).symm
              next =>
                  have happlied := finalizeRunningCommand_applied hrow hlookup
                  dsimp only
                  split
                  · exact RelatedLists.comp happlied (finalizeUnownedCommand_changes restart _ row.id)
                      fun _ _ _ hfirst hsecond => hfirst.then_quiet hsecond
                  · exact happlied

/-- The pass over the sidecars removes at most the sidecar of its command. -/
theorem applySidecar_sidecars {command : CommandRecord} {sessionId other : String}
    (hother : other ≠ command.id) :
    (restart.applySidecar recovered command).2.sidecars.lookup (sessionId, other) =
      recovered.sidecars.lookup (sessionId, other) := by
  have herased : (recovered.sidecars.erase (command.sessionId, command.id)).lookup (sessionId, other) =
      recovered.sidecars.lookup (sessionId, other) := by
    apply AList.lookup_erase_ne
    intro heq
    exact hother (Prod.mk.inj heq).2
  unfold Restart.applySidecar Restart.finalizeRunningFromSidecar
  dsimp only
  repeat' split
  all_goals first
    | exact herased
    | rfl

theorem hasSidecar_applySidecar {command : CommandRecord} (hother : row.id ≠ command.id) :
    HasSidecar (restart.applySidecar recovered command).2.sidecars row ↔
      HasSidecar recovered.sidecars row := by
  unfold HasSidecar
  rw [applySidecar_sidecars hother]

/-- What a part of the sidecar pass does to a row, where the part is for the rows with some identifiers. -/
def AppliedAll (sidecars : Sidecars) (ids : List String) (before after : CommandRow) : Prop :=
  Finishes (fun row => row.id ∈ ids ∧ HasSidecar sidecars row) before after ∧
    (before.id ∉ ids → after = before)

theorem AppliedTo.cons {remaining : Sidecars} {ids : List String}
    {first second third : CommandRow} (hfirst : AppliedTo sidecars id first second)
    (hrest : AppliedAll remaining ids second third) (hid : id ∉ ids)
    (hremaining : ∀ row : CommandRow, row.id ≠ id →
      (HasSidecar remaining row ↔ HasSidecar sidecars row)) :
    AppliedAll sidecars (id :: ids) first third := by
  refine ⟨(hfirst.1.comp hrest.1).congr ?_, ?_⟩
  · intro _
    by_cases heq : first.id = id
    · have hnot : first.id ∉ ids := by rwa [heq]
      simp only [heq, true_and, List.mem_cons_self, hid, false_and, or_false]
    · simp only [heq, false_and, false_or, List.mem_cons, hremaining first heq]
  · intro hnot
    rw [List.mem_cons, not_or] at hnot
    have hsame := hfirst.2 hnot.1
    rw [hsame] at hrest
    exact hrest.2 hnot.2

/-- The sidecars are applied one after another. -/
theorem applySidecars_cons (command : CommandRecord) (rest : List CommandRecord) :
    (restart.applySidecars (command :: rest) recovered).2 =
      (restart.applySidecars rest (restart.applySidecar recovered command).2).2 := by
  rw [Restart.applySidecars]
  split <;> rfl

/-- The pass over the sidecars of some rows finishes exactly those that are running and have one. -/
theorem applySidecars_applied (restart : Restart) (rows : List CommandRow) (recovered : Recovered)
    (hrows : ∀ row ∈ rows, row ∈ recovered.table.rows) (hids : (rows.map CommandRow.id).Nodup) :
    RowWise (AppliedAll recovered.sidecars (rows.map CommandRow.id)) recovered.table
      (restart.applySidecars (rows.map commandRecordFromRow) recovered).2.table := by
  induction rows generalizing recovered with
  | nil =>
    apply RowWise.refl
    intro row _
    refine ⟨.quiet (Quiet.refl row) ?_, fun _ => rfl⟩
    rintro _ ⟨hmem, -⟩
    cases hmem
  | cons row rest ih =>
    have hfirst := applySidecar_applied restart (hrows row List.mem_cons_self)
    rw [List.map_cons, List.nodup_cons] at hids
    have hkept : ∀ other ∈ rest,
        other ∈ (restart.applySidecar recovered (commandRecordFromRow row)).2.table.rows := by
      intro other hother
      have hne : other.id ≠ row.id := by
        intro heq
        exact hids.1 (heq ▸ List.mem_map_of_mem hother)
      obtain ⟨after, hafter, happlied⟩ :=
        RelatedLists.exists_result hfirst other (hrows other (List.mem_cons_of_mem _ hother))
      rw [happlied.2 hne] at hafter
      exact hafter
    have hrest := ih _ hkept hids.2
    rw [List.map_cons, List.map_cons, applySidecars_cons]
    apply RelatedLists.comp hfirst hrest
    intro before between after hstep htail
    exact hstep.cons htail hids.1 fun other hother => hasSidecar_applySidecar hother

/-- When all sidecars could be read, the pass has finished exactly the running rows that have one. -/
theorem finalizeCompletedFromSidecars_finishes {after : Recovered}
    (h : restart.finalizeCompletedFromSidecars recovered = .ok after) :
    RowWise (Finishes (HasSidecar recovered.sidecars)) recovered.table after.table := by
  have hperm := NewestRows.newestFirst_perm CommandRow.queueKey recovered.table.rows
  have happlied := applySidecars_applied restart
    (NewestRows.newestFirst CommandRow.queueKey recovered.table.rows) recovered
    (fun row hrow => hperm.mem_iff.mp hrow)
    ((hperm.map CommandRow.id).nodup_iff.mpr recovered.table.ids)
  have hafter : (restart.applySidecars ((NewestRows.newestFirst CommandRow.queueKey
      recovered.table.rows).map commandRecordFromRow) recovered).2 = after := by
    unfold Restart.finalizeCompletedFromSidecars at h
    dsimp only at h
    split at h
    next heq =>
        rw [heq]
        exact Except.ok.inj h
    next => cases h
  rw [hafter] at happlied
  apply RelatedLists.imp_of_mem happlied
  intro row hrow after hall
  refine hall.1.congr fun _ => and_iff_right ?_
  exact List.mem_map_of_mem (hperm.mem_iff.mpr hrow)

/-! ### Cancel requests and stale rows -/

theorem cancelUnfinished_finishes (table : CommandTable) (id now result : String) :
    RowWise (Finishes fun row => row.id = id) table (table.cancelUnfinished id now result) := by
  apply RowWise.update
  intro row _
  split
  case isTrue hcondition =>
      simp only [Bool.and_eq_true, decide_eq_true_eq] at hcondition
      by_cases hrunning : row.status = .running
      · exact .ended hrunning hcondition.1 rfl rfl
      · exact .quiet (Or.inr ⟨hrunning, rfl, rfl⟩) fun hstill => absurd hstill hrunning
  case isFalse hcondition =>
      refine .quiet (Quiet.refl row) ?_
      intro hrunning hid
      apply hcondition
      simp only [hid, hrunning, CommandStatus.isTerminal, decide_true, Bool.not_false, Bool.and_self]

theorem foldl_cancelUnfinished_finishes (now : String) (result : String → String)
    (requests : List (String × String)) (table : CommandTable) :
    RowWise (Finishes fun row => row.id ∈ requests.map Prod.fst) table
      (requests.foldl (fun table request =>
        table.cancelUnfinished request.1 now (result request.2)) table) := by
  induction requests generalizing table with
  | nil =>
    apply RowWise.refl
    intro row _
    exact .quiet (Quiet.refl row) fun _ hmem => by cases hmem
  | cons request rest ih =>
    rw [List.foldl_cons]
    apply RelatedLists.comp (cancelUnfinished_finishes table request.1 now (result request.2)) (ih _)
    intro before between after hfirst hrest
    refine (hfirst.comp hrest).congr fun _ => ?_
    rw [List.map_cons, List.mem_cons]

/-- The requested cancellations finish their rows. -/
theorem finalizeInterruptedCancellations_finishes (restart : Restart) (table : CommandTable) :
    RowWise (Finishes restart.Requested) table (restart.finalizeInterruptedCancellations table) := by
  unfold Restart.finalizeInterruptedCancellations
  generalize hinterrupted : (restart.cancellations.filter fun request =>
    (table.row? request.1).any fun row => !row.status.isTerminal) = interrupted
  have hcancelled := foldl_cancelUnfinished_finishes restart.now restart.cancelledResultJson
    interrupted table
  have hrequested : RowWise (Finishes restart.Requested) table
      (interrupted.foldl (fun table request => table.cancelUnfinished request.1 restart.now
        (restart.cancelledResultJson request.2)) table) := by
    apply RelatedLists.imp_of_mem hcancelled
    intro row hrow after hfinishes
    refine hfinishes.congr fun hrunning => ?_
    rw [Restart.Requested, ← hinterrupted, List.mem_map, List.mem_map]
    constructor
    · rintro ⟨request, hrequest, hid⟩
      exact ⟨request, List.mem_of_mem_filter hrequest, hid⟩
    · rintro ⟨request, hrequest, hid⟩
      refine ⟨request, List.mem_filter.mpr ⟨hrequest, ?_⟩, hid⟩
      rw [hid, CommandTable.row?_of_mem hrow, Option.any_some, hrunning]
      rfl
  have hpublished := RowWise.foldl_quiet
    (fun table (request : String × String) => finalizeUnownedCommand_quiet restart table request.1)
    interrupted (interrupted.foldl (fun table request => table.cancelUnfinished request.1 restart.now
        (restart.cancelledResultJson request.2)) table)
  apply RelatedLists.comp hrequested hpublished
  intro before between after hfirst hquiet
  exact (hfirst.comp (Finishes.of_quiet hquiet)).congr fun _ => or_iff_left not_false

/-- Stale rows are queued again, if that does not fail. -/
theorem recoverStale_requeues (restart : Restart) (table : CommandTable) :
    RowWise (fun before after => after =
        if restart.requeueFault = none ∧ CommandTable.stale restart.cutoff before = true then
          CommandTable.Assignment.requeue.assign before
        else before) table (restart.recoverStale table) := by
  unfold Restart.recoverStale
  split
  next fault hfault =>
      refine RowWise.refl fun row _ => ?_
      rw [hfault, if_neg]
      rintro ⟨hnone, -⟩
      cases hnone
  next hnone =>
      refine RowWise.update fun row _ => ?_
      rw [hnone]
      simp only [true_and]

/-! ## The start of the daemon -/

theorem stale_running {cutoff : String} (h : CommandTable.stale cutoff row = true) :
    row.status = .running := by
  simp only [CommandTable.stale, Bool.and_eq_true, decide_eq_true_eq] at h
  exact h.1

theorem Restart.TakenUp.ne_running {before after : CommandRow}
    (h : restart.TakenUp sidecars before after) : after.status ≠ .running := by
  cases h with
  | completed _ hended _ | cancelled _ hended _ => exact CommandStatus.ne_running_of_terminal hended
  | requeued hquiet =>
    intro hrunning
    have hqueued := hquiet.running_iff.mp hrunning
    cases hqueued

/-- The three passes over one row, from the first to the last. -/
theorem recovers_of_passes {before finished waiting after : CommandRow}
    (hfinished : Finishes (fun row => HasSidecar sidecars row ∨ restart.Requested row) before finished)
    (hwaiting : waiting =
      if restart.requeueFault = none ∧ CommandTable.stale restart.cutoff finished = true then
        CommandTable.Assignment.requeue.assign finished
      else finished)
    (hafter : Quiet waiting after) : restart.Recovers sidecars before after := by
  have hleft : finished.status ≠ .running → waiting = finished := by
    intro hstill
    rw [hwaiting, if_neg]
    rintro ⟨-, hstale⟩
    exact hstill (stale_running hstale)
  unfold Restart.Recovers
  split
  case isTrue hrunning =>
      cases hfinished with
      | ended _ hcovered hended hid =>
        have heq := hleft (CommandStatus.ne_running_of_terminal hended)
        rw [heq] at hafter
        have hlast := hafter.terminal hended
        have hlastId := hafter.id_eq.trans hid
        left
        rcases hcovered with hsidecar | hrequested
        · exact ⟨Or.inl hsidecar, .completed hsidecar hlast hlastId⟩
        · exact ⟨Or.inr (Or.inl hrequested), .cancelled hrequested hlast hlastId⟩
      | quiet hquiet huncovered =>
        have hsame := hquiet.eq_of_running hrunning
        rw [hsame] at hwaiting
        by_cases hstale : restart.requeueFault = none ∧
            CommandTable.stale restart.cutoff before = true
        · rw [if_pos hstale] at hwaiting
          rw [hwaiting] at hafter
          exact Or.inl ⟨Or.inr (Or.inr hstale), .requeued hafter⟩
        · rw [if_neg hstale] at hwaiting
          rw [hwaiting] at hafter
          refine Or.inr ⟨?_, hafter.eq_of_running hrunning⟩
          rintro (hsidecar | hrequested | hagain)
          · exact huncovered hrunning (Or.inl hsidecar)
          · exact huncovered hrunning (Or.inr hrequested)
          · exact hstale hagain
  case isFalse hstill =>
      have hnot : finished.status ≠ .running := by
        cases hfinished with
        | ended hrunning => exact absurd hrunning hstill
        | quiet hquiet => exact fun hrunning => hstill (hquiet.running_iff.mp hrunning)
      rw [hleft hnot] at hafter
      exact fun hrunning => hnot (hafter.running_iff.mp hrunning)

/-- A start that is not refused treats every row of a session that stays as the passes do. -/
theorem bootstrap_recovers {after : Recovered} (h : restart.bootstrap recovered = .ok after) :
    RowWise (restart.Recovers recovered.sidecars) (recovered.table.deleteSessions restart.purged)
      after.table := by
  obtain ⟨completed, hcompleted, h⟩ := Checks.bind_eq_ok.mp h
  cases hcancellation : restart.cancellationFault with
  | some fault => simp [hcancellation] at h
  | none =>
    simp only [hcancellation] at h
    cases hstop : restart.stopFault with
    | some fault => simp [hstop] at h
    | none =>
      simp only [hstop] at h
      have hsetups := RowWise.foldl_quiet (failInterruptedSetup_quiet restart)
        restart.interruptedSetups (recovered.table.deleteSessions restart.purged)
      have hsidecars := finalizeCompletedFromSidecars_finishes hcompleted
      have hcancelled := finalizeInterruptedCancellations_finishes restart completed.table
      have hfinished : RowWise (Finishes (HasSidecar recovered.sidecars))
          (recovered.table.deleteSessions restart.purged) completed.table :=
        RelatedLists.comp hsetups hsidecars fun _ _ _ hquiet hfinishes =>
          ((Finishes.of_quiet hquiet).comp hfinishes).congr fun _ => or_iff_right not_false
      have hboth : RowWise
          (Finishes fun row => HasSidecar recovered.sidecars row ∨ restart.Requested row)
          (recovered.table.deleteSessions restart.purged)
          (restart.finalizeInterruptedCancellations completed.table) :=
        RelatedLists.comp hfinished hcancelled fun _ _ _ hfirst hsecond => hfirst.comp hsecond
      have hrequeued : RowWise (fun before waiting => ∃ finished,
            Finishes (fun row => HasSidecar recovered.sidecars row ∨ restart.Requested row) before
              finished ∧
            waiting = if restart.requeueFault = none ∧
                CommandTable.stale restart.cutoff finished = true then
              CommandTable.Assignment.requeue.assign finished
            else finished) (recovered.table.deleteSessions restart.purged)
          (restart.recoverStale (restart.finalizeInterruptedCancellations completed.table)) :=
        RelatedLists.comp hboth (recoverStale_requeues restart _)
          fun _ finished _ hfirst hsecond => ⟨finished, hfirst, hsecond⟩
      have hruns := RowWise.foldl_quiet (reconcileRun_quiet restart) restart.runs
        (restart.recoverStale (restart.finalizeInterruptedCancellations completed.table))
      rw [← Except.ok.inj h]
      apply RelatedLists.comp hrequeued hruns
      rintro before waiting after ⟨finished, hfirst, hwaiting⟩ hafter
      exact recovers_of_passes hfirst hwaiting hafter

/-- A start at eight without a fault, and with one cancel request. -/
def morningRestart : Restart where
  purged := ["closed"]
  interruptedSetups := []
  cancellations := [("cancelled", "2026-05-01T07:59:00+00:00")]
  now := "2026-05-01T08:00:00+00:00"
  cutoff := "2026-05-01T08:00:00+00:00"
  cancellationFault := none
  requeueFault := none
  stopFault := none
  runs := []
  republish _ := none
  cancelledResultJson at_ := at_
  setupErrorResult := "setup failed"
  completionPath session id := session ++ "/" ++ id

/-- A running row, claimed at some time. -/
def runningRow (rowid : ℤ) (id : String) (startedAt : Option String) : CommandRow where
  rowid := rowid
  id := id
  sessionId := "s1"
  subcommand := "exec"
  args := "[]"
  status := .running
  startedAt := startedAt
  workerId := some "worker-0"
  queuedAt := some "2026-05-01T06:00:00+00:00"

/-- A crash left a command that has its sidecar, one that was asked to cancel and one that just ran. -/
def crashedMorning : Recovered where
  table := {
    rows := [runningRow 1 "finished" none, runningRow 2 "cancelled" none,
      runningRow 3 "working" (some "2026-05-01T07:00:00+00:00")]
    rowids := by decide
    ids := by decide }
  sidecars := (∅ : Sidecars).insert ("s1", "finished") (.ok {
    attempt := 1
    status := .done
    exitCode := 0
    resultJson := "null"
    finishedAt := "2026-05-01T07:58:00+00:00"
    attempt_lt := by decide
    terminal := rfl })

/-- The clock was set back an hour after a command was claimed: nothing takes it up. -/
def clockSetBack : Recovered where
  table := {
    rows := [runningRow 1 "working" (some "2026-05-01T08:59:00+00:00")]
    rowids := by decide
    ids := by decide }
  sidecars := ∅

end Awman.Api
