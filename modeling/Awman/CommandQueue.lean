import Awman.CommandTable

/-!
# Positions in a session's queue

The position of a waiting command is counted over all rows of its session by one query, and read off the
waiting ones among the session's 100 newest rows by the queue view.  The first is always the number of
the session's commands that are claimed before it.  The second is the same as long as no waiting command
has 100 newer rows.
-/

namespace Awman.Api

open Awman.NewestRows

/-- What the view of a queue reads beside the rows. -/
structure QueueReads (Args Labels : Type) where
  /-- The arguments of a row, as they are shown. -/
  storedArgsView : CommandRecord → Args
  labelsFor : String → Labels

/-- A command that waits or runs, as it is shown. -/
structure QueueCommandView (Args Labels : Type) where
  commandId : String
  subcommand : String
  args : Args
  timestamp : Option String
  position : Option ℕ
  startedAt : Option String
  workerId : Option String
  labels : Labels

/-- A command that has ended, as it is shown. -/
structure CompletedCommandView (Labels : Type) where
  commandId : String
  subcommand : String
  status : CommandStatus
  exitCode : Option ℤ
  finishedAt : Option String
  labels : Labels

/-- The queue of a session, as it is shown. -/
structure SessionQueueView (Args Labels : Type) where
  queueDepth : ℕ
  running : Option (QueueCommandView Args Labels)
  queued : List (QueueCommandView Args Labels)
  recentCompleted : List (CompletedCommandView Labels)

variable {Args Labels : Type}

/-- Show a command that waits or runs. -/
def decodeQueueCommand (reads : QueueReads Args Labels) (record : CommandRecord)
    (position : Option ℕ) : QueueCommandView Args Labels where
  commandId := record.id
  subcommand := record.subcommand
  args := reads.storedArgsView record
  timestamp := record.queuedAt
  position := position
  startedAt := record.startedAt
  workerId := record.workerId
  labels := reads.labelsFor record.id

/-- Show a command that has ended. -/
def decodeCompletedCommand (reads : QueueReads Args Labels) (record : CommandRecord) :
    CompletedCommandView Labels where
  commandId := record.id
  subcommand := record.subcommand
  status := record.status
  exitCode := record.exitCode
  finishedAt := record.finishedAt
  labels := reads.labelsFor record.id

/-- Show the queue of a session, if there is such a session. -/
def queueView (reads : QueueReads Args Labels) (sessions : List SessionRow) (table : CommandTable)
    (sessionId : String) : Option (SessionQueueView Args Labels) :=
  if sessions.any fun session => session.id = sessionId then
    let recent := table.listCommandsForSession sessionId 100
    let queued := (recent.filter fun record => record.status.isClaimable).reverse
    let completed := (recent.filter fun record => record.status.isTerminal).insertionSort
      fun first second => timeKey second.finishedAt ≤ timeKey first.finishedAt
    some {
      queueDepth := table.countQueuedForSession sessionId
      running := (table.runningCommandForSession sessionId).map (decodeQueueCommand reads · none)
      queued := queued.zipIdx.map fun entry => decodeQueueCommand reads entry.1 (some entry.2)
      recentCompleted := (completed.take 10).map (decodeCompletedCommand reads) }
  else
    none

/-- The position the view of a session's queue shows for a command. -/
def shownPosition (reads : QueueReads Args Labels) (sessions : List SessionRow) (table : CommandTable)
    (sessionId commandId : String) : Option ℕ :=
  (queueView reads sessions table sessionId).bind fun view =>
    (view.queued.find? fun command => command.commandId = commandId).bind QueueCommandView.position

/-- The command is claimed after so many claims of its session, while workers claim and complete
commands and further ones are queued behind it. -/
inductive ClaimedAfter (target : CommandRow) : CommandTable → ℕ → Prop where
  | now {table after : CommandTable} {sessions : List SessionRow} {workerId now : String}
      {record : CommandRecord} (hclaim : table.claimNextCommand sessions workerId now =
        some (record, after)) (hid : record.id = target.id) : ClaimedAfter target table 0
  | claim {table after : CommandTable} {sessions : List SessionRow} {workerId now : String}
      {record : CommandRecord} {claims : ℕ} (hclaim : table.claimNextCommand sessions workerId now =
        some (record, after)) (hid : record.id ≠ target.id) (hrest : ClaimedAfter target after claims) :
      ClaimedAfter target table (if record.sessionId = target.sessionId then claims + 1 else claims)
  | complete {table : CommandTable} {row : CommandRow} {status : CommandStatus} {exitCode : Option ℤ}
      {result : Option String} {now : String} {claims : ℕ} (hrow : row ∈ table.rows)
      (hrunning : row.status = .running) (hterminal : status.isTerminal = true)
      (hrest : ClaimedAfter target (table.completeCommand row.id status exitCode result now) claims) :
      ClaimedAfter target table claims
  /-- A command is queued at a time that is not before that of the command. -/
  | enqueue {table after : CommandTable} {id sessionId subcommand args logPath now : String} {claims : ℕ}
      (henqueue : table.enqueueCommand id sessionId subcommand args logPath now = some after)
      (hlater : timeKey target.queuedAt ≤ timeKey (some now))
      (hrest : ClaimedAfter target after claims) : ClaimedAfter target table claims

namespace CommandTable

/-- Whether a row waits in a session before the given one. -/
def waitsBefore (target row : CommandRow) : Bool :=
  row.sessionId = target.sessionId && row.status.isClaimable && decide (row.queueKey < target.queueKey)

/-- How many commands of its session wait before a command. -/
def ahead (table : CommandTable) (target : CommandRow) : ℕ :=
  table.rows.countP (waitsBefore target)

/-- The command waits where it was queued. -/
structure Waiting (table : CommandTable) (target row : CommandRow) : Prop where
  mem : row ∈ table.rows
  id : row.id = target.id
  sessionId : row.sessionId = target.sessionId
  /-- It has the place of the command. -/
  queueKey : row.queueKey = target.queueKey
  claimable : row.status.isClaimable = true

variable {table after : CommandTable} {target row other : CommandRow} {sessions : List SessionRow}
  {record : CommandRecord} {workerId now : String}

/-! ## The position by counting -/

theorem queuePosition_eq (hrow : row ∈ table.rows) (hwaits : row.status.isClaimable = true) :
    table.queuePositionForCommand row.id row.sessionId = some (table.ahead row) := by
  have hfound : table.rows.find? (fun target => target.id = row.id && target.status.isClaimable) =
      some row := by
    cases hsearch : table.rows.find? fun target => target.id = row.id && target.status.isClaimable with
    | none =>
      have hnot := List.find?_eq_none.mp hsearch row hrow
      simp [hwaits] at hnot
    | some found =>
      have hmem := List.mem_of_find?_eq_some hsearch
      have hfound := List.find?_some hsearch
      rw [Bool.and_eq_true, decide_eq_true_eq] at hfound
      rw [eq_of_id hmem hrow hfound.1]
  rw [queuePositionForCommand, hfound, Option.map_some, ahead]
  congr 1
  refine List.countP_congr fun other _ => ?_
  simp only [waitsBefore, Bool.and_eq_true, decide_eq_true_eq, queuedBefore_iff]

theorem ahead_eq_older (row : CommandRow) :
    table.ahead row = older CommandRow.queueKey (fun other => other.status.isClaimable)
      (table.sessionRows row.sessionId) row := by
  rw [ahead, older, sessionRows, List.countP_filter]
  refine List.countP_congr fun other _ => ?_
  simp only [waitsBefore, Bool.and_eq_true, decide_eq_true_eq]
  tauto

/-! ## Claims -/

theorem waitsBefore_of_status (h : row.status.isClaimable = false) : waitsBefore target row = false := by
  simp [waitsBefore, h]

theorem waitsBefore_of_key (h : target.queueKey ≤ row.queueKey) : waitsBefore target row = false := by
  simp [waitsBefore, h]

/-- What is claimed is the first of the waiting rows of its session, which has nothing running. -/
theorem claimNextCommand_some (h : table.claimNextCommand sessions workerId now = some (record, after)) :
    ∃ row ∈ table.rows, row.status.isClaimable = true ∧ record.id = row.id ∧
      record.sessionId = row.sessionId ∧
      after = table.update (fun other => other.id = row.id) (.claim workerId now) ∧
      ∀ other ∈ table.rows, other.sessionId = row.sessionId → other.status.isClaimable = true →
        row.queueKey ≤ other.queueKey := by
  unfold claimNextCommand at h
  split at h
  · cases h
  · rename_i row hnext
    obtain ⟨hrow, hclaim, hleast⟩ := nextCommand_some hnext
    obtain ⟨hrecord, hafter⟩ := Prod.mk.inj (Option.some.inj h)
    have hparts := hclaim
    simp only [claimable, Bool.and_eq_true] at hparts
    refine ⟨row, hrow, hparts.1.1, by rw [← hrecord]; rfl, by rw [← hrecord]; rfl, hafter.symm, ?_⟩
    intro other hother hsession hwaits
    apply hleast other hother
    simp only [claimable, Bool.and_eq_true, hsession, hwaits]
    exact ⟨⟨trivial, hparts.1.2⟩, hparts.2⟩

/-- What a statement about one row changes in a count. -/
theorem countP_update (assignment : Assignment) (hrow : row ∈ table.rows) (test : CommandRow → Bool) :
    (table.update (fun other => other.id = row.id) assignment).rows.countP test +
        (if test row then 1 else 0) =
      table.rows.countP test + if test (assignment.assign row) then 1 else 0 := by
  have hnodup : table.rows.Nodup := table.ids.of_map
  have hids : ∀ other ∈ table.rows, other.id = row.id → other = row :=
    fun other hother hid => eq_of_id hother hrow hid
  rw [update, List.countP_map]
  obtain ⟨front, back, hsplit⟩ := List.append_of_mem hrow
  rw [hsplit] at hnodup hids ⊢
  have hfresh := (List.nodup_cons.mp (List.nodup_middle.mp hnodup)).1
  have hkept : ∀ part : List CommandRow, part ⊆ front ++ back →
      part.countP (test ∘ fun other =>
        if decide (other.id = row.id) = true then assignment.assign other else other) =
      part.countP test := by
    intro part hpart
    refine List.countP_congr fun other hmem => ?_
    have hother := hpart hmem
    have hne : other.id ≠ row.id := by
      intro hid
      have hmember : other ∈ front ++ row :: back := by
        rw [List.mem_append, List.mem_cons]
        exact (List.mem_append.mp hother).imp_right Or.inr
      exact hfresh (hids other hmember hid ▸ hother)
    simp [hne]
  rw [List.countP_append, List.countP_append, List.countP_cons, List.countP_cons,
    hkept front (List.subset_append_left _ _), hkept back (List.subset_append_right _ _)]
  simp only [Function.comp, decide_true, if_true]
  omega

/-- Ending a running command leaves the rows that wait. -/
theorem ahead_completeCommand {status : CommandStatus} {exitCode : Option ℤ} {result : Option String}
    (hrow : row ∈ table.rows) (hrunning : row.status = .running) (hterminal : status.isTerminal = true) :
    (table.completeCommand row.id status exitCode result now).ahead target = table.ahead target := by
  have hbefore : waitsBefore target row = false := waitsBefore_of_status (by rw [hrunning]; rfl)
  have hended : waitsBefore target ((Assignment.complete status exitCode result now).assign row) =
      false := waitsBefore_of_status (CommandStatus.not_claimable_of_terminal hterminal)
  have hcount := countP_update (.complete status exitCode result now) hrow
    (waitsBefore target)
  rw [hbefore, hended] at hcount
  exact hcount

/-- A command queued behind another one does not wait before it. -/
theorem ahead_enqueueCommand {id sessionId subcommand args logPath : String} (hrow : row ∈ table.rows)
    (hkey : row.queueKey = target.queueKey) (hlater : timeKey target.queuedAt ≤ timeKey (some now))
    (h : table.enqueueCommand id sessionId subcommand args logPath now = some after) :
    after.ahead target = table.ahead target ∧ ∀ other ∈ table.rows, other ∈ after.rows := by
  unfold enqueueCommand at h
  split at h
  · cases h
  · rw [← Option.some.inj h]
    refine ⟨?_, fun other hother => List.mem_append_left _ hother⟩
    have hrowid : target.rowid < table.nextRowid := by
      have hsame := (Prod.mk.inj (toLex_inj.mp hkey)).2
      have hless := rowid_lt_nextRowid hrow
      omega
    rw [ahead, List.countP_append, ahead, List.countP_singleton]
    have hbehind : target.queueKey ≤
        (toLex (timeKey (some now), table.nextRowid) : WithBot String ×ₗ ℤ) := by
      rw [CommandRow.queueKey, Prod.Lex.toLex_le_toLex]
      exact hlater.lt_or_eq.imp_right fun heq => ⟨heq, hrowid.le⟩
    rw [waitsBefore_of_key hbehind]
    rfl

/-- Claiming a row leaves one row fewer before those it waits before. -/
theorem ahead_claim (target : CommandRow) (workerId now : String) (hrow : row ∈ table.rows) :
    (table.update (fun other => other.id = row.id) (.claim workerId now)).ahead target +
      (if waitsBefore target row then 1 else 0) = table.ahead target := by
  have hclaimed : waitsBefore target ((Assignment.claim workerId now).assign row) = false :=
    waitsBefore_of_status rfl
  have hcount := countP_update (.claim workerId now) hrow (waitsBefore target)
  rw [hclaimed] at hcount
  exact hcount

/-- The row of a waiting command is kept when another row is changed. -/
theorem Waiting.update {condition : CommandRow → Bool} {assignment : Assignment}
    (h : Waiting table target row) (hout : condition row = false) :
    Waiting (table.update condition assignment) target row := by
  refine ⟨mem_update.mpr ⟨row, h.mem, by simp [hout]⟩, h.id, h.sessionId, h.queueKey, h.claimable⟩

/-- The number of claims of its session before a command is claimed is the number of commands that wait
before it. -/
theorem claims_eq_ahead {claims : ℕ} (h : ClaimedAfter target table claims) :
    ∀ {row : CommandRow}, Waiting table target row → claims = table.ahead target := by
  induction h with
  | @now table after sessions workerId now record hclaim hid =>
    intro row hwaiting
    obtain ⟨claimed, hmem, -, hrecord, -, -, hleast⟩ := claimNextCommand_some hclaim
    have hsame : claimed = row :=
      eq_of_id hmem hwaiting.mem (hrecord.symm.trans (hid.trans hwaiting.id.symm))
    refine (List.countP_eq_zero.mpr fun other hother hbefore => ?_).symm
    simp only [waitsBefore, Bool.and_eq_true, decide_eq_true_eq] at hbefore
    have hle := hleast other hother (by rw [hbefore.1.1, hsame, hwaiting.sessionId]) hbefore.1.2
    rw [hsame, hwaiting.queueKey] at hle
    exact absurd hbefore.2 (not_lt.mpr hle)
  | @claim table after sessions workerId now record claims hclaim hid _ ih =>
    intro row hwaiting
    obtain ⟨claimed, hmem, hwaits, hrecord, hsession, rfl, hleast⟩ := claimNextCommand_some hclaim
    have hdifferent : row.id ≠ claimed.id := by
      intro heq
      exact hid (hrecord.trans (heq.symm.trans hwaiting.id))
    have hrest := ih (hwaiting.update (by simp [hdifferent]))
    have hcount := ahead_claim target workerId now hmem
    rw [hrest, ← hcount, hsession]
    by_cases hown : claimed.sessionId = target.sessionId
    · have hle := hleast row hwaiting.mem (hwaiting.sessionId.trans hown.symm) hwaiting.claimable
      have hne : claimed.queueKey ≠ target.queueKey := by
        intro heq
        have hrows := queueKey_injective hmem hwaiting.mem (heq.trans hwaiting.queueKey.symm)
        exact hdifferent (hrows ▸ rfl)
      have hless : claimed.queueKey < target.queueKey :=
        lt_of_le_of_ne (hwaiting.queueKey ▸ hle) hne
      have hbefore : waitsBefore target claimed = true := by
        simp [waitsBefore, hown, hwaits, hless]
      rw [if_pos hown, if_pos hbefore]
    · have hbefore : waitsBefore target claimed = false := by simp [waitsBefore, hown]
      rw [if_neg hown, hbefore]
      rfl
  | @complete table ended status exitCode result now claims hmem hrunning hterminal _ ih =>
    intro row hwaiting
    have hne : row.id ≠ ended.id := by
      intro heq
      have hsame := eq_of_id hwaiting.mem hmem heq
      have hclaim := hwaiting.claimable
      rw [hsame, hrunning] at hclaim
      cases hclaim
    rw [ih (hwaiting.update (by simp [hne])), ahead_completeCommand hmem hrunning hterminal]
  | @enqueue table after id sessionId subcommand args logPath now claims henqueue hlater _ ih =>
    intro row hwaiting
    obtain ⟨hcount, hkept⟩ := ahead_enqueueCommand hwaiting.mem hwaiting.queueKey hlater henqueue
    rw [ih ⟨hkept row hwaiting.mem, hwaiting.id, hwaiting.sessionId, hwaiting.queueKey,
      hwaiting.claimable⟩, hcount]

/-- Whether a row waits in a session. -/
def waitsIn (sessionId : String) (row : CommandRow) : Bool :=
  row.sessionId = sessionId && row.status.isClaimable

/-- Whether a row runs in a session. -/
def runsIn (sessionId : String) (row : CommandRow) : Bool :=
  row.sessionId = sessionId && row.status = .running

/-- What is left to do in a session: a waiting command is claimed and ended, a running one ended. -/
def work (table : CommandTable) (sessionId : String) : ℕ :=
  2 * table.rows.countP (waitsIn sessionId) + table.rows.countP (runsIn sessionId)

/-- Ending a running command leaves less to do. -/
theorem work_completeCommand (target : CommandRow) (hrow : row ∈ table.rows)
    (hruns : runsIn target.sessionId row = true) :
    (table.completeCommand row.id .done none none "").work target.sessionId <
      table.work target.sessionId := by
  have hstatus : row.status = .running := of_decide_eq_true (Bool.and_eq_true_iff.mp hruns).2
  have hwaits : waitsIn target.sessionId row = false := by simp [waitsIn, hstatus, CommandStatus.isClaimable]
  have hwaitsAfter : waitsIn target.sessionId
      ((Assignment.complete .done none none "").assign row) = false := by
    simp [waitsIn, Assignment.complete, CommandStatus.isClaimable]
  have hrunsAfter : runsIn target.sessionId
      ((Assignment.complete .done none none "").assign row) = false := by
    simp [runsIn, Assignment.complete]
  have hwaiting := countP_update (.complete .done none none "") hrow
    (waitsIn target.sessionId)
  have hrunning := countP_update (.complete .done none none "") hrow
    (runsIn target.sessionId)
  rw [hwaits, hwaitsAfter] at hwaiting
  rw [hruns, hrunsAfter] at hrunning
  simp only [Bool.false_eq_true, if_false, if_true] at hwaiting hrunning
  rw [work, work, completeCommand]
  omega

/-- Claiming a command leaves less to do. -/
theorem work_claim (target : CommandRow) (workerId now : String) (hrow : row ∈ table.rows)
    (hwaits : waitsIn target.sessionId row = true) :
    (table.update (fun other => other.id = row.id) (.claim workerId now)).work target.sessionId <
      table.work target.sessionId := by
  have hclaim := (Bool.and_eq_true_iff.mp hwaits).2
  have hruns : runsIn target.sessionId row = false := by
    have hne : row.status ≠ .running := by
      intro heq
      rw [heq] at hclaim
      cases hclaim
    simp [runsIn, hne]
  have hwaitsAfter : waitsIn target.sessionId ((Assignment.claim workerId now).assign row) = false := by
    simp [waitsIn, Assignment.claim, CommandStatus.isClaimable]
  have hrunsAfter : runsIn target.sessionId ((Assignment.claim workerId now).assign row) = true := by
    have hsession : row.sessionId = target.sessionId :=
      of_decide_eq_true (Bool.and_eq_true_iff.mp hwaits).1
    simp [runsIn, Assignment.claim, hsession]
  have hwaiting := countP_update (.claim workerId now) hrow (waitsIn target.sessionId)
  have hrunning := countP_update (.claim workerId now) hrow (runsIn target.sessionId)
  rw [hwaits, hwaitsAfter] at hwaiting
  rw [hruns, hrunsAfter] at hrunning
  simp only [Bool.false_eq_true, if_false, if_true] at hwaiting hrunning
  rw [work, work]
  omega

/-- A waiting command is claimed once the commands of its session are claimed and ended in turn. -/
theorem Waiting.exists_claimedAfter (h : Waiting table target row) :
    ∃ claims, ClaimedAfter target table claims := by
  generalize hwork : table.work target.sessionId = left
  induction left using Nat.strong_induction_on generalizing table with
  | _ left ih =>
    cases hbusy : table.sessionBusy target.sessionId with
    | true =>
      obtain ⟨busy, hmem, hruns⟩ := List.any_eq_true.mp hbusy
      have hstatus : busy.status = .running := of_decide_eq_true (Bool.and_eq_true_iff.mp hruns).2
      have hne : row.id ≠ busy.id := by
        intro heq
        have hclaim := h.claimable
        rw [eq_of_id h.mem hmem heq, hstatus] at hclaim
        cases hclaim
      have hless := work_completeCommand target hmem hruns
      have hwaiting : Waiting (table.completeCommand busy.id .done none none "") target row :=
        h.update (decide_eq_false hne)
      obtain ⟨claims, hclaims⟩ := ih _ (hwork ▸ hless) hwaiting rfl
      exact ⟨claims, .complete hmem hstatus rfl hclaims⟩
    | false =>
      have hready : table.claimable [⟨target.sessionId, .ready⟩] row = true := by
        simp [CommandTable.claimable, h.claimable, h.sessionId, hbusy]
      obtain ⟨claimed, hnext⟩ := Option.ne_none_iff_exists'.mp (nextCommand_ne_none h.mem hready)
      obtain ⟨hmem, hclaim, -⟩ := nextCommand_some hnext
      have hstep : table.claimNextCommand [⟨target.sessionId, .ready⟩] "" "" =
          some (commandRecordFromRow ((Assignment.claim "" "").assign claimed),
            table.update (fun other => other.id = claimed.id) (.claim "" "")) := by
        rw [claimNextCommand, hnext]
      by_cases hid : claimed.id = target.id
      · exact ⟨0, .now hstep hid⟩
      · have hne : row.id ≠ claimed.id := fun heq => hid (heq.symm.trans h.id)
        have hwaits : waitsIn target.sessionId claimed = true := by
          simp only [CommandTable.claimable, List.any_cons, List.any_nil, Bool.or_false, Bool.and_eq_true,
            decide_eq_true_eq, and_true] at hclaim
          simp [waitsIn, hclaim.1.1, hclaim.1.2]
        have hless := work_claim target "" "" hmem hwaits
        have hwaiting : Waiting (table.update (fun other => other.id = claimed.id) (.claim "" ""))
            target row := h.update (decide_eq_false hne)
        obtain ⟨claims, hclaims⟩ := ih _ (hwork ▸ hless) hwaiting rfl
        exact ⟨_, .claim hstep hid hclaims⟩

/-- A command is claimed after as many claims of its session as commands wait before it. -/
theorem claimedAfter_iff (hrow : row ∈ table.rows) (hwaits : row.status.isClaimable = true) {claims : ℕ} :
    ClaimedAfter row table claims ↔ claims = table.ahead row := by
  have hwaiting : Waiting table row row := ⟨hrow, rfl, rfl, rfl, hwaits⟩
  constructor
  · intro h
    exact claims_eq_ahead h hwaiting
  · rintro rfl
    obtain ⟨claims, hclaims⟩ := hwaiting.exists_claimedAfter
    rw [← claims_eq_ahead hclaims hwaiting]
    exact hclaims

/-! ## The view -/

/-- The waiting rows that the view lists, in its order. -/
def shownRows (table : CommandTable) (sessionId : String) : List CommandRow :=
  listed CommandRow.queueKey (fun row => row.status.isClaimable) 100 (table.sessionRows sessionId)

theorem queued_records (table : CommandTable) (sessionId : String) :
    ((table.listCommandsForSession sessionId 100).filter
        fun record => record.status.isClaimable).reverse =
      (table.shownRows sessionId).map commandRecordFromRow := by
  have hkind : (fun record : CommandRecord => record.status.isClaimable) ∘ commandRecordFromRow =
      fun row => row.status.isClaimable := by
    funext row
    rw [Function.comp, commandRecordFromRow]
    cases row.status <;> rfl
  rw [listCommandsForSession, List.filter_map, hkind, shownRows, listed, List.map_reverse]

/-- A command is shown at its place among the rows that are shown. -/
theorem find_shown {Args Labels : Type} (reads : QueueReads Args Labels) {rows : List CommandRow}
    (place : ℕ) (hrows : rows ⊆ table.rows) (hnodup : rows.Nodup) (hrow : row ∈ table.rows) (first : ℕ) :
    ((((rows.map commandRecordFromRow).zipIdx first).map
        fun entry => decodeQueueCommand reads entry.1 (some entry.2)).find?
          fun command => command.commandId = row.id).bind QueueCommandView.position = some place ↔
      ∃ index, rows[index]? = some row ∧ place = first + index := by
  induction rows generalizing first with
  | nil => simp
  | cons head rest ih =>
    obtain ⟨hhead, hrest⟩ := List.cons_subset.mp hrows
    obtain ⟨hfresh, hnodupRest⟩ := List.nodup_cons.mp hnodup
    rw [List.map_cons, List.zipIdx_cons, List.map_cons, List.find?_cons]
    by_cases hid : head.id = row.id
    · obtain rfl := eq_of_id hhead hrow hid
      have hmatch : decide ((decodeQueueCommand reads (commandRecordFromRow head)
          (some first)).commandId = head.id) = true := decide_eq_true rfl
      rw [hmatch]
      simp only [Option.bind_some, decodeQueueCommand, Option.some.injEq]
      constructor
      · rintro rfl
        exact ⟨0, rfl, rfl⟩
      · rintro ⟨index, hindex, rfl⟩
        cases index with
        | zero => rfl
        | succ index => exact absurd (List.mem_of_getElem? (List.getElem?_cons_succ ▸ hindex)) hfresh
    · have hmatch : decide ((decodeQueueCommand reads (commandRecordFromRow head)
          (some first)).commandId = row.id) = false := decide_eq_false hid
      rw [hmatch]
      rw [ih hrest hnodupRest (first + 1)]
      constructor
      · rintro ⟨index, hindex, rfl⟩
        exact ⟨index + 1, by rw [List.getElem?_cons_succ]; exact hindex, by omega⟩
      · rintro ⟨index, hindex, rfl⟩
        cases index with
        | zero =>
          rw [List.getElem?_cons_zero] at hindex
          exact absurd (Option.some.inj hindex ▸ rfl) hid
        | succ index =>
          rw [List.getElem?_cons_succ] at hindex
          exact ⟨index, hindex, by omega⟩

theorem shownPosition_eq {Args Labels : Type} (reads : QueueReads Args Labels) {place : ℕ}
    (hsession : sessions.any (fun session => session.id = row.sessionId) = true)
    (hrow : row ∈ table.rows) :
    shownPosition reads sessions table row.sessionId row.id = some place ↔
      (table.shownRows row.sessionId)[place]? = some row := by
  have hkeys := table.queueKeys_nodup row.sessionId
  have hsubset : table.shownRows row.sessionId ⊆ table.rows := by
    intro other hother
    exact List.mem_of_mem_filter ((mem_listed _ hkeys).mp hother).1
  have hnodup : (table.shownRows row.sessionId).Nodup :=
    (listed_pairwise hkeys).imp fun hless heq => (heq ▸ hless).false
  have hfound := find_shown reads place hsubset hnodup hrow 0
  rw [shownPosition, queueView, if_pos hsession, Option.bind_some]
  simp only [queued_records]
  rw [hfound]
  constructor
  · rintro ⟨index, hindex, rfl⟩
    rw [Nat.zero_add]
    exact hindex
  · intro hplace
    exact ⟨place, hplace, (Nat.zero_add place).symm⟩

end CommandTable

open CommandTable

/-- The view shows the number of claims before a command is claimed if and only if no waiting command of
the session has 100 newer rows. -/
theorem shown_agrees_iff {Args Labels : Type} (reads : QueueReads Args Labels)
    {sessions : List SessionRow} {table : CommandTable} {row : CommandRow} (hrow : row ∈ table.rows)
    (hwaits : row.status.isClaimable = true)
    (hsession : sessions.any (fun session => session.id = row.sessionId) = true) :
    (∃ position, shownPosition reads sessions table row.sessionId row.id = some position ∧
        table.queuePositionForCommand row.id row.sessionId = some position ∧
        ∀ claims, ClaimedAfter row table claims ↔ claims = position) ↔
      ∀ other ∈ table.sessionRows row.sessionId, other.status.isClaimable = true →
        newer CommandRow.queueKey (table.sessionRows row.sessionId) other < 100 := by
  have hcounted := queuePosition_eq hrow hwaits
  have hmem : row ∈ table.sessionRows row.sessionId :=
    List.mem_filter.mpr ⟨hrow, decide_eq_true rfl⟩
  have hplaces := place_eq_older_iff 100 (fun other => other.status.isClaimable)
    (table.queueKeys_nodup row.sessionId) hmem hwaits
  rw [← ahead_eq_older] at hplaces
  rw [← hplaces]
  constructor
  · rintro ⟨position, hshown, hposition, -⟩
    rw [hcounted] at hposition
    exact ⟨position, (shownPosition_eq reads hsession hrow).mp hshown, (Option.some.inj hposition).symm⟩
  · rintro ⟨place, hplace, rfl⟩
    exact ⟨_, (shownPosition_eq reads hsession hrow).mpr hplace, hcounted,
      fun claims => claimedAfter_iff hrow hwaits⟩

/-- The position by counting is the number of claims of its session before a waiting command is claimed.
The view shows that position if and only if no waiting command of the session has 100 newer rows. -/
theorem queue_positions_agree {Args Labels : Type} (reads : QueueReads Args Labels)
    (sessions : List SessionRow) (table : CommandTable) (row : CommandRow) (hrow : row ∈ table.rows)
    (hwaits : row.status.isClaimable = true)
    (hsession : sessions.any (fun session => session.id = row.sessionId) = true) :
    ((∃ position, shownPosition reads sessions table row.sessionId row.id = some position ∧
        table.queuePositionForCommand row.id row.sessionId = some position ∧
        ∀ claims, ClaimedAfter row table claims ↔ claims = position) ↔
      ∀ other ∈ table.sessionRows row.sessionId, other.status.isClaimable = true →
        newer CommandRow.queueKey (table.sessionRows row.sessionId) other < 100) ∧
    ∃ position, table.queuePositionForCommand row.id row.sessionId = some position ∧
      ∀ claims, ClaimedAfter row table claims ↔ claims = position :=
  ⟨shown_agrees_iff reads hrow hwaits hsession, table.ahead row, queuePosition_eq hrow hwaits,
    fun _ => claimedAfter_iff hrow hwaits⟩

/-- A command that waits. -/
def waitingRow (number : ℕ) : CommandRow where
  rowid := number
  id := String.ofList (List.replicate number 'c')
  sessionId := "s"
  subcommand := "exec prompt"
  args := "[]"
  status := .queued
  queuedAt := some "2026-01-01T00:00:00+00:00"

/-- So many commands that wait in one session. -/
def waitingTable (count : ℕ) : CommandTable where
  rows := (List.range count).map waitingRow
  rowids := by
    rw [List.map_map]
    refine List.nodup_range.map fun first second heq => ?_
    exact Int.ofNat.inj heq
  ids := by
    rw [List.map_map]
    refine List.nodup_range.map fun first second heq => ?_
    have hlists := congrArg (fun text : String => text.toList.length) heq
    simpa [waitingRow] using hlists

theorem queue_positions_agree_sample :
    ∃ position, shownPosition (⟨fun _ => (), fun _ => ()⟩ : QueueReads Unit Unit) [⟨"s", .ready⟩]
        (waitingTable 3) "s" "cc" = some position ∧
      (waitingTable 3).queuePositionForCommand "cc" "s" = some position ∧
      ∀ claims, ClaimedAfter (waitingRow 2) (waitingTable 3) claims ↔ claims = position :=
  (queue_positions_agree ⟨fun _ => (), fun _ => ()⟩ [⟨"s", .ready⟩] (waitingTable 3) (waitingRow 2)
    (by decide +kernel) rfl (by decide +kernel)).1.mpr (by decide +kernel)

/-- With 101 commands waiting the oldest one is not shown, and the others are shown one place too far
ahead. -/
theorem crowded_queue :
    ¬∃ position, shownPosition (⟨fun _ => (), fun _ => ()⟩ : QueueReads Unit Unit) [⟨"s", .ready⟩]
        (waitingTable 101) "s" (waitingRow 100).id = some position ∧
      (waitingTable 101).queuePositionForCommand (waitingRow 100).id "s" = some position ∧
      ∀ claims, ClaimedAfter (waitingRow 100) (waitingTable 101) claims ↔ claims = position := by
  have hrow : waitingRow 100 ∈ (waitingTable 101).rows :=
    List.mem_map_of_mem (List.mem_range.mpr (by omega))
  intro hagrees
  have hall := (shown_agrees_iff (⟨fun _ => (), fun _ => ()⟩ : QueueReads Unit Unit) hrow rfl
    (by decide +kernel : [(⟨"s", .ready⟩ : SessionRow)].any
      (fun session => session.id = (waitingRow 100).sessionId) = true)).mp hagrees
  have hfirst := hall (waitingRow 0) (by decide +kernel) rfl
  have hnewer : newer CommandRow.queueKey ((waitingTable 101).sessionRows (waitingRow 100).sessionId)
      (waitingRow 0) = 100 := by decide +kernel
  omega

end Awman.Api
