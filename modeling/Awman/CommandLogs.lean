import Awman.Library.CheckedSums
import Awman.Library.LineRecords
import Awman.Library.TextCuts
import Awman.Library.Utf8Text
import Awman.NumberTexts

/-!
# Terminal events of a command log

The events of a command are logged as one record a line, for one attempt after another.  A command
that ended without a worker gets its terminal events from a repair, which looks for what is missing
in whatever the log holds and appends it.
-/

namespace Awman.CommandLog

open Awman.CheckedSums Awman.LineRecords

/-- How a command ended. -/
inductive CommandStatusKind where
  | done
  | paused
  | aborted
  | error
  | cancelled
  deriving DecidableEq

/-- The spelling on the wire. -/
def CommandStatusKind.display : CommandStatusKind → String
  | .done => "done"
  | .paused => "paused"
  | .aborted => "aborted"
  | .error => "error"
  | .cancelled => "cancelled"

/-- The phase of an event's producer. -/
inductive EventSourcePhase where
  | leader
  | setup
  | main
  | teardown
  | merge
  | push
  deriving DecidableEq

/-- The step that produced an event. -/
structure EventSource where
  phase : EventSourcePhase
  stepName : Option String
  /-- Its position in the workflow. -/
  stepIndex : Option Nat
  container : Option String
  stepAttempt : Option Nat

/-- What an event says; `ρ` is the result of a command. -/
inductive EventPayload (ρ : Type) where
  | commandStatus (status : CommandStatusKind) (exitCode : Option Int) (error : Option String)
      (result : Option ρ)
  | done
  | other (type : String) (plainText : Option String)

/-- An event of a command. -/
structure ExecutionEvent (ρ : Type) where
  timestamp : Int
  /-- Which execution of the command it belongs to. -/
  attempt : Nat
  /-- Its position in the attempt. -/
  sequence : Nat
  source : Option EventSource
  payload : EventPayload ρ

variable {ρ : Type}

/-- The payload tells how the command ended. -/
def EventPayload.isStatus : EventPayload ρ → Bool
  | .commandStatus _ _ _ _ => true
  | _ => false

/-- The payload ends the stream. -/
def EventPayload.isDone : EventPayload ρ → Bool
  | .done => true
  | _ => false

/-- The text for readers, if there is one. -/
def EventPayload.toPlainText : EventPayload ρ → Option String
  | .commandStatus status exitCode _ _ =>
    let name := status.display
    match exitCode with
    | some code => some s!"[status] {name} (exit code {code})"
    | none => some s!"[status] {name}"
  | .done => none
  | .other _ plainText => plainText

/-- How events are written as JSON and read back. -/
structure EventJson (ρ : Type) where
  fromSlice : List UInt8 → Option (ExecutionEvent ρ)
  toWriter : ExecutionEvent ρ → List UInt8
  /-- No event is read from nothing. -/
  fromSlice_nil : fromSlice [] = none
  /-- Control characters are written as escapes. -/
  newline_notMem : ∀ event, 0x0A ∉ toWriter event
  read_eq : ∀ event read, fromSlice (toWriter event) = some read →
    read.attempt = event.attempt ∧ read.sequence = event.sequence ∧
      read.payload.isStatus = event.payload.isStatus ∧ read.payload.isDone = event.payload.isDone
  done_read : ∀ event, event.payload = .done → (fromSlice (toWriter event)).isSome = true

/-- The log files of a command. -/
structure CommandLogs where
  events : List UInt8
  /-- The plain text. -/
  output : List UInt8
  deriving DecidableEq

/-- What ends a line. -/
def newline : UInt8 := 0x0A

/-- What a look at the events of an attempt finds. -/
inductive Scan where
  | complete
  /-- It is not: the next sequence number, and whether it has its status. -/
  | incomplete (sequence : Nat) (hasStatus : Bool)

/-- Look for the end of an attempt, `none` when a number leaves its range. -/
def scan (attempt : Nat) : List (ExecutionEvent ρ) → Nat → Bool → Option Scan
  | [], sequence, hasStatus => some (.incomplete sequence hasStatus)
  | event :: rest, sequence, hasStatus =>
    if event.attempt = attempt then
      (checkedAdd event.sequence 1).bind fun next =>
        if event.payload.isDone then some .complete
        else scan attempt rest (max sequence next) (hasStatus || event.payload.isStatus)
    else scan attempt rest sequence hasStatus

/-- Append events with consecutive numbers, `none` when a number leaves its range. -/
def writeEvents (json : EventJson ρ) (now : Nat → Int) (attempt : Nat) :
    List (EventPayload ρ) → Nat → CommandLogs → Option CommandLogs
  | [], _, logs => some logs
  | payload :: rest, sequence, logs =>
    let event : ExecutionEvent ρ :=
      { timestamp := now sequence, attempt, sequence, source := none, payload }
    let text := match payload.toPlainText with
      | some line => (line.toList ++ ['\n']).flatMap String.utf8EncodeChar
      | none => []
    (checkedAdd sequence 1).bind fun next =>
      writeEvents json now attempt rest next
        { events := logs.events ++ (json.toWriter event ++ [newline])
          output := logs.output ++ text }

/-- Append the terminal events that an attempt lacks. -/
def appendTerminal (json : EventJson ρ) (now : Nat → Int) (attempt : Nat)
    (payload : EventPayload ρ) (logs : CommandLogs) : Option CommandLogs :=
  (scan attempt ((lines newline logs.events).filterMap json.fromSlice) 0 false).bind fun
    | .complete => some logs
    | .incomplete sequence hasStatus =>
      writeEvents json now attempt ((if hasStatus then [] else [payload]) ++ [.done]) sequence
        { logs with events := closed newline logs.events }

/-- The events that can be read, in their order. -/
def readEvents (json : EventJson ρ) (logs : CommandLogs) : List (ExecutionEvent ρ) :=
  records newline json.fromSlice logs.events

/-- The events of an attempt. -/
def ofAttempt (attempt : Nat) (events : List (ExecutionEvent ρ)) : List (ExecutionEvent ρ) :=
  events.filter (·.attempt == attempt)

/-- The events of an attempt have at most one status, nothing behind the end, and increasing
numbers. -/
structure Orderly (events : List (ExecutionEvent ρ)) : Prop where
  status : events.countP (·.payload.isStatus) ≤ 1
  done : ∀ front event back, events = front ++ event :: back → event.payload.isDone = true →
    back = []
  increasing : events.Pairwise fun earlier later => earlier.sequence < later.sequence

/-- The events of an attempt have at most one status, exactly one end, which is the last of them, and
increasing numbers. -/
structure Terminated (events : List (ExecutionEvent ρ)) : Prop where
  status : events.countP (·.payload.isStatus) ≤ 1
  done : ∃ front last, events = front ++ [last] ∧ last.payload.isDone = true ∧
    ∀ event ∈ front, event.payload.isDone = false
  increasing : events.Pairwise fun earlier later => earlier.sequence < later.sequence

section Scanning

variable {attempt sequence : Nat} {hasStatus : Bool} {events front back : List (ExecutionEvent ρ)}

theorem ofAttempt_own {event : ExecutionEvent ρ} (h : event.attempt = attempt)
    (rest : List (ExecutionEvent ρ)) :
    ofAttempt attempt (event :: rest) = event :: ofAttempt attempt rest := by
  rw [ofAttempt, List.filter_cons_of_pos (by simp [h])]
  rfl

theorem ofAttempt_other {event : ExecutionEvent ρ} (h : event.attempt ≠ attempt)
    (rest : List (ExecutionEvent ρ)) :
    ofAttempt attempt (event :: rest) = ofAttempt attempt rest := by
  rw [ofAttempt, List.filter_cons_of_neg (by simp [h])]
  rfl

/-- What a look at the events that found no end says about them. -/
theorem scan_incomplete {next : Nat} {found : Bool}
    (h : scan attempt events sequence hasStatus = some (.incomplete next found)) :
    (∀ event ∈ ofAttempt attempt events, event.payload.isDone = false ∧ event.sequence < next) ∧
      sequence ≤ next ∧
      found = (hasStatus || (ofAttempt attempt events).any (·.payload.isStatus)) := by
  induction events generalizing sequence hasStatus with
  | nil =>
    rw [scan, Option.some.injEq, Scan.incomplete.injEq] at h
    rw [← h.1, ← h.2]
    simp [ofAttempt]
  | cons event rest ih =>
    rw [scan] at h
    split at h
    · rename_i hown
      obtain ⟨above, habove, hrest⟩ := Option.bind_eq_some_iff.mp h
      have hnumber := (checkedAdd_eq_some.mp habove).2
      split at hrest
      · cases hrest
      · rename_i hopen
        obtain ⟨hevents, hle, hfound⟩ := ih hrest
        rw [ofAttempt_own hown]
        refine ⟨?_, by omega, ?_⟩
        · intro other hmem
          cases List.mem_cons.mp hmem with
          | inl heq =>
            rw [heq]
            exact ⟨by simpa using hopen, by omega⟩
          | inr hlater => exact hevents other hlater
        · rw [hfound, List.any_cons, Bool.or_assoc]
    · rename_i hother
      rw [ofAttempt_other hother]
      exact ih h

/-- An attempt that is found complete has its end. -/
theorem scan_complete (h : scan attempt events sequence hasStatus = some .complete) :
    ∃ event ∈ ofAttempt attempt events, event.payload.isDone = true := by
  induction events generalizing sequence hasStatus with
  | nil => cases h
  | cons event rest ih =>
    rw [scan] at h
    split at h
    · rename_i hown
      rw [ofAttempt_own hown]
      obtain ⟨above, -, hrest⟩ := Option.bind_eq_some_iff.mp h
      split at hrest
      · rename_i hdone
        exact ⟨event, List.mem_cons_self .., hdone⟩
      · obtain ⟨other, hmem, hdone⟩ := ih hrest
        exact ⟨other, List.mem_cons_of_mem _ hmem, hdone⟩
    · rename_i hother
      rw [ofAttempt_other hother]
      exact ih h

/-- A look goes on behind events without an end. -/
theorem scan_append {next : Nat} {found : Bool}
    (h : scan attempt front sequence hasStatus = some (.incomplete next found)) :
    scan attempt (front ++ back) sequence hasStatus = scan attempt back next found := by
  induction front generalizing sequence hasStatus with
  | nil =>
    rw [scan, Option.some.injEq, Scan.incomplete.injEq] at h
    rw [h.1, h.2, List.nil_append]
  | cons event rest ih =>
    rw [List.cons_append, scan]
    rw [scan] at h
    split at h
    · rename_i hown
      obtain ⟨above, habove, hrest⟩ := Option.bind_eq_some_iff.mp h
      rw [if_pos hown, habove, Option.bind_some]
      split at hrest
      · cases hrest
      · rename_i hopen
        rw [if_neg hopen]
        exact ih hrest
    · rename_i hother
      rw [if_neg hother]
      exact ih h

/-- A look succeeds where the numbers of the attempt have room, and leaves them room. -/
theorem scan_isSome {bound : Nat} (hbound : bound < 2 ^ 64) (hsequence : sequence ≤ bound)
    (hroom : ∀ event ∈ ofAttempt attempt events, event.sequence < bound) :
    scan attempt events sequence hasStatus = some .complete ∨
      ∃ next found, scan attempt events sequence hasStatus = some (.incomplete next found) ∧
        next ≤ bound := by
  induction events generalizing sequence hasStatus with
  | nil => exact Or.inr ⟨sequence, hasStatus, rfl, hsequence⟩
  | cons event rest ih =>
    rw [scan]
    split
    · rename_i hown
      rw [ofAttempt_own hown] at hroom
      have hhere := hroom event (List.mem_cons_self ..)
      have hnext : checkedAdd event.sequence 1 = some (event.sequence + 1) := if_pos (by omega)
      rw [hnext, Option.bind_some]
      split
      · exact Or.inl rfl
      · exact ih (by omega) fun other hmem => hroom other (List.mem_cons_of_mem _ hmem)
    · rename_i hother
      rw [ofAttempt_other hother] at hroom
      exact ih hsequence hroom

end Scanning

/-! ## What is appended -/

/-- The events that are written for some payloads. -/
def writtenEvents (now : Nat → Int) (attempt : Nat) :
    List (EventPayload ρ) → Nat → List (ExecutionEvent ρ)
  | [], _ => []
  | payload :: rest, sequence =>
    { timestamp := now sequence, attempt, sequence, source := none, payload } ::
      writtenEvents now attempt rest (sequence + 1)

/-- What is read of some events that are written. -/
def reread (json : EventJson ρ) (events : List (ExecutionEvent ρ)) : List (ExecutionEvent ρ) :=
  events.filterMap fun event => json.fromSlice (json.toWriter event)

section Writing

variable {json : EventJson ρ} {now : Nat → Int} {attempt sequence : Nat} {hasStatus : Bool}
  {payload : EventPayload ρ} {payloads : List (EventPayload ρ)} {logs after : CommandLogs}

theorem writeEvents_ok (h : writeEvents json now attempt payloads sequence logs = some after) :
    after.events = logs.events ++ (writtenEvents now attempt payloads sequence).flatMap
        (fun event => json.toWriter event ++ [newline]) ∧
      sequence + payloads.length < 2 ^ 64 ∨ payloads = [] ∧ after = logs := by
  induction payloads generalizing sequence logs with
  | nil =>
    rw [writeEvents, Option.some.injEq] at h
    exact Or.inr ⟨rfl, h.symm⟩
  | cons first rest ih =>
    rw [writeEvents] at h
    obtain ⟨next, hnext, hrest⟩ := Option.bind_eq_some_iff.mp h
    obtain ⟨hrange, hnumber⟩ := checkedAdd_eq_some.mp hnext
    rw [← hnumber] at hrest
    apply Or.inl
    cases ih hrest with
    | inl hmore =>
      rw [hmore.1, writtenEvents, List.flatMap_cons, List.length_cons]
      exact ⟨by simp, by omega⟩
    | inr hlast =>
      rw [hlast.1, hlast.2, writtenEvents, writtenEvents]
      exact ⟨by simp, by simpa using hrange⟩

theorem writeEvents_isSome (hroom : sequence + payloads.length < 2 ^ 64) :
    (writeEvents json now attempt payloads sequence logs).isSome = true := by
  induction payloads generalizing sequence logs with
  | nil => rfl
  | cons first rest ih =>
    rw [List.length_cons] at hroom
    have hnext : checkedAdd sequence 1 = some (sequence + 1) := if_pos (by omega)
    rw [writeEvents, hnext, Option.bind_some]
    exact ih (by omega)

/-- The events on the lines that are written are those that can be read again. -/
theorem records_written (events : List (ExecutionEvent ρ)) :
    records newline json.fromSlice
        (events.flatMap fun event => json.toWriter event ++ [newline]) = reread json events := by
  induction events with
  | nil => exact records_nil json.fromSlice_nil
  | cons first rest ih =>
    have hnewline : newline ∉ json.toWriter first := json.newline_notMem first
    rw [List.flatMap_cons, List.append_assoc, List.singleton_append, records_line hnewline, ih,
      reread, reread, List.filterMap_cons]
    cases json.fromSlice (json.toWriter first) <;> rfl

/-- The terminal events that an attempt lacks, as they are read again. -/
structure TerminalEvents (attempt sequence : Nat) (hasStatus : Bool)
    (appended : List (ExecutionEvent ρ)) : Prop where
  own : ∀ event ∈ appended, event.attempt = attempt ∧ sequence ≤ event.sequence ∧
    event.sequence + 1 < 2 ^ 64
  status : appended.countP (·.payload.isStatus) ≤ if hasStatus then 0 else 1
  done : ∃ front last, appended = front ++ [last] ∧ last.payload.isDone = true ∧
    ∀ event ∈ front, event.payload.isDone = false
  increasing : appended.Pairwise fun earlier later => earlier.sequence < later.sequence

theorem terminalEvents (hpayload : payload.isStatus = true)
    (hroom : sequence + ((if hasStatus then [] else [payload]) ++ [EventPayload.done]).length <
      2 ^ 64) :
    TerminalEvents attempt sequence hasStatus (reread json (writtenEvents now attempt
      ((if hasStatus then [] else [payload]) ++ [.done]) sequence)) := by
  have hdone : ∀ number, ∃ last, json.fromSlice (json.toWriter
      { timestamp := now number, attempt, sequence := number, source := none, payload := .done }) =
        some last ∧ last.attempt = attempt ∧ last.sequence = number ∧
        last.payload.isStatus = false ∧ last.payload.isDone = true := by
    intro number
    obtain ⟨last, hlast⟩ := Option.isSome_iff_exists.mp (json.done_read
      { timestamp := now number, attempt, sequence := number, source := none, payload := .done } rfl)
    exact ⟨last, hlast, json.read_eq _ _ hlast⟩
  cases hasStatus with
  | true =>
    obtain ⟨last, hlast, hattempt, hsequence, hstatus, hend⟩ := hdone sequence
    have happended : reread json (writtenEvents now attempt
        ((if true then [] else [payload]) ++ [.done]) sequence) = [last] := by
      simp [reread, writtenEvents, hlast]
    rw [happended]
    have hsmall : sequence + 1 < 2 ^ 64 := by simpa using hroom
    refine ⟨?_, by simp [hstatus], ⟨[], last, rfl, hend, by simp⟩, List.pairwise_singleton _ _⟩
    intro event hmem
    rw [List.mem_singleton.mp hmem]
    exact ⟨hattempt, by omega, by omega⟩
  | false =>
    obtain ⟨last, hlast, hattempt, hsequence, hstatus, hend⟩ := hdone (sequence + 1)
    have hsmall : sequence + 2 < 2 ^ 64 := by simpa using hroom
    have hnotDone : payload.isDone = false := by
      cases payload with
      | commandStatus | other => rfl
      | done => cases hpayload
    cases hfirst : json.fromSlice (json.toWriter
        { timestamp := now sequence, attempt, sequence, source := none, payload }) with
    | none =>
      have happended : reread json (writtenEvents now attempt
          ((if false then [] else [payload]) ++ [.done]) sequence) = [last] := by
        simp [reread, writtenEvents, hlast, hfirst]
      rw [happended]
      refine ⟨?_, by simp [hstatus], ⟨[], last, rfl, hend, by simp⟩, List.pairwise_singleton _ _⟩
      intro event hmem
      rw [List.mem_singleton.mp hmem]
      exact ⟨hattempt, by omega, by omega⟩
    | some first =>
      obtain ⟨hownAttempt, hownSequence, hownStatus, hownDone⟩ := json.read_eq _ _ hfirst
      dsimp only at hownAttempt hownSequence hownDone
      have happended : reread json (writtenEvents now attempt
          ((if false then [] else [payload]) ++ [.done]) sequence) = [first] ++ [last] := by
        simp [reread, writtenEvents, hlast, hfirst]
      rw [happended]
      refine ⟨?_, ?_, ⟨[first], last, rfl, hend, ?_⟩, ?_⟩
      · intro event hmem
        cases List.mem_append.mp hmem with
        | inl hin =>
          rw [List.mem_singleton.mp hin]
          exact ⟨hownAttempt, by omega, by omega⟩
        | inr hin =>
          rw [List.mem_singleton.mp hin]
          exact ⟨hattempt, by omega, by omega⟩
      · rw [List.countP_append, List.countP_singleton, List.countP_singleton, hstatus]
        simp only [Bool.false_eq_true, if_false]
        split <;> omega
      · intro event hmem
        rw [List.mem_singleton.mp hmem, hownDone]
        exact hnotDone
      · simp only [List.singleton_append, List.pairwise_cons, List.mem_singleton, forall_eq,
          List.not_mem_nil, false_implies, implies_true, List.Pairwise.nil, and_true]
        omega

end Writing

/-! ## The repaired log -/

/-- What a repair leaves: the log goes on behind what it held, with events of the attempt alone; the
attempt is terminated exactly when its events were orderly; and another repair changes nothing. -/
structure Repaired (json : EventJson ρ) (attempt : Nat) (before after : CommandLogs) : Prop where
  bytes : before.events <+: after.events
  events : ∃ added, readEvents json after = readEvents json before ++ added ∧
    ∀ event ∈ added, event.attempt = attempt
  terminated : Terminated (ofAttempt attempt (readEvents json after)) ↔
    Orderly (ofAttempt attempt (readEvents json before))
  again : ∀ now payload, appendTerminal json now attempt payload after = some after

section Repairing

variable {json : EventJson ρ} {now : Nat → Int} {attempt sequence : Nat} {hasStatus : Bool}
  {payload : EventPayload ρ} {logs after : CommandLogs} {events added : List (ExecutionEvent ρ)}

theorem scan_lines (logs : CommandLogs) :
    (lines newline logs.events).filterMap json.fromSlice = readEvents json logs :=
  filterMap_lines json.fromSlice_nil logs.events

/-- Events with their end among them are terminated exactly when they are orderly. -/
theorem terminated_iff_of_done (hdone : ∃ event ∈ events, event.payload.isDone = true) :
    Terminated events ↔ Orderly events := by
  constructor
  · intro terminated
    refine ⟨terminated.status, ?_, terminated.increasing⟩
    intro front event back hsplit hend
    obtain ⟨others, last, hlast, -, hothers⟩ := terminated.done
    cases back.eq_nil_or_concat with
    | inl hnil => exact hnil
    | inr hconcat =>
      obtain ⟨init, final, hback⟩ := hconcat
      have hmem : event ∈ others := by
        have hparts : others ++ [last] = (front ++ event :: init) ++ [final] := by
          rw [← hlast, hsplit, hback]
          simp
        rw [(List.append_inj' hparts rfl).1]
        simp
      rw [hothers event hmem] at hend
      cases hend
  · intro orderly
    obtain ⟨event, hmem, hend⟩ := hdone
    obtain ⟨front, back, hsplit⟩ := List.append_of_mem hmem
    have hback := orderly.done front event back hsplit hend
    rw [hback] at hsplit
    refine ⟨orderly.status, ⟨front, event, hsplit, hend, ?_⟩, orderly.increasing⟩
    intro other hother
    by_contra hotherEnd
    obtain ⟨first, rest, hfront⟩ := List.append_of_mem hother
    have hnil := orderly.done first other (rest ++ [event]) (by rw [hsplit, hfront]; simp)
      (by simpa using hotherEnd)
    exact absurd hnil (by simp)

/-- Events without an end are terminated by what they lack exactly when they are orderly. -/
theorem terminated_iff_of_added
    (hopen : ∀ event ∈ events, event.payload.isDone = false ∧ event.sequence < sequence)
    (hstatus : hasStatus = events.any (·.payload.isStatus))
    (terminal : TerminalEvents attempt sequence hasStatus added) :
    Terminated (events ++ added) ↔ Orderly events := by
  constructor
  · intro terminated
    have hcount := terminated.status
    rw [List.countP_append] at hcount
    refine ⟨by omega, ?_, (List.pairwise_append.mp terminated.increasing).1⟩
    intro front event back hsplit hend
    have hmem : event ∈ events := by
      rw [hsplit]
      simp
    rw [(hopen event hmem).1] at hend
    cases hend
  · intro orderly
    refine ⟨?_, ?_, ?_⟩
    · have hcount := terminal.status
      have hbefore := orderly.status
      rw [List.countP_append]
      cases hasStatus with
      | true =>
        rw [if_pos rfl] at hcount
        omega
      | false =>
        have hnone : events.countP (·.payload.isStatus) = 0 := by
          rw [List.countP_eq_zero]
          intro event hmem hkind
          have hany : events.any (·.payload.isStatus) = true :=
            List.any_eq_true.mpr ⟨event, hmem, hkind⟩
          rw [hany] at hstatus
          cases hstatus
        rw [if_neg (by decide)] at hcount
        omega
    · obtain ⟨front, last, happended, hend, hfront⟩ := terminal.done
      refine ⟨events ++ front, last, by rw [happended, List.append_assoc], hend, ?_⟩
      intro event hmem
      cases List.mem_append.mp hmem with
      | inl hbefore => exact (hopen event hbefore).1
      | inr hnew => exact hfront event hnew
    · refine List.pairwise_append.mpr ⟨orderly.increasing, terminal.increasing, ?_⟩
      intro event hbefore other hnew
      have hlow := (hopen event hbefore).2
      have hhigh := (terminal.own other hnew).2.1
      omega

/-- A look that meets the terminal events finds the attempt complete. -/
theorem scan_terminal (terminal : TerminalEvents attempt sequence hasStatus added) (start : Nat)
    (found : Bool) : scan attempt added start found = some .complete := by
  obtain ⟨front, last, happended, hend, hfront⟩ := terminal.done
  have hown := terminal.own
  rw [happended] at hown ⊢
  clear happended terminal
  induction front generalizing start found with
  | nil =>
    have hlast := hown last (List.mem_singleton_self _)
    have hnext : checkedAdd last.sequence 1 = some (last.sequence + 1) := if_pos hlast.2.2
    rw [List.nil_append, scan, if_pos hlast.1, hnext, Option.bind_some, if_pos hend]
  | cons first rest ih =>
    have hfirst := hown first (List.mem_cons_self ..)
    have hopen := hfront first (List.mem_cons_self ..)
    have hnext : checkedAdd first.sequence 1 = some (first.sequence + 1) := if_pos hfirst.2.2
    rw [List.cons_append, scan, if_pos hfirst.1, hnext, Option.bind_some, hopen,
      if_neg (by decide)]
    exact ih _ _ (fun event hmem => hfront event (List.mem_cons_of_mem _ hmem))
      fun event hmem => hown event (List.mem_cons_of_mem _ hmem)

theorem ofAttempt_append (front back : List (ExecutionEvent ρ)) :
    ofAttempt attempt (front ++ back) = ofAttempt attempt front ++ ofAttempt attempt back :=
  List.filter_append ..

/-- A repair that succeeds leaves a repaired log. -/
theorem repaired_of_appendTerminal (hpayload : payload.isStatus = true)
    (h : appendTerminal json now attempt payload logs = some after) :
    Repaired json attempt logs after := by
  unfold appendTerminal at h
  rw [scan_lines] at h
  obtain ⟨found, hscan, hafter⟩ := Option.bind_eq_some_iff.mp h
  cases found with
  | complete =>
    rw [← Option.some.inj hafter]
    refine ⟨List.prefix_refl _, ⟨[], by rw [List.append_nil], by simp⟩,
      terminated_iff_of_done (scan_complete hscan), ?_⟩
    intro otherNow otherPayload
    rw [appendTerminal, scan_lines, hscan]
    rfl
  | incomplete next found =>
    obtain ⟨hopen, -, hfound⟩ := scan_incomplete hscan
    rw [Bool.false_or] at hfound
    cases writeEvents_ok hafter with
    | inr hnone => exact absurd hnone.1 (by simp)
    | inl hwritten =>
      obtain ⟨hbytes, hroom⟩ := hwritten
      have terminal : TerminalEvents attempt next found (reread json (writtenEvents now attempt
          ((if found then [] else [payload]) ++ [.done]) next)) := terminalEvents hpayload hroom
      have hread : readEvents json after = readEvents json logs ++ reread json
          (writtenEvents now attempt ((if found then [] else [payload]) ++ [.done]) next) := by
        rw [readEvents, hbytes, records_closed_append json.fromSlice_nil, records_written]
        rfl
      have hown : ofAttempt attempt (reread json (writtenEvents now attempt
          ((if found then [] else [payload]) ++ [.done]) next)) = reread json
          (writtenEvents now attempt ((if found then [] else [payload]) ++ [.done]) next) := by
        rw [ofAttempt, List.filter_eq_self]
        intro event hmem
        simpa using (terminal.own event hmem).1
      refine ⟨?_, ⟨_, hread, fun event hmem => (terminal.own event hmem).1⟩, ?_, ?_⟩
      · rw [hbytes]
        exact (prefix_closed _).trans (List.prefix_append _ _)
      · rw [hread, ofAttempt_append, hown]
        exact terminated_iff_of_added hopen hfound terminal
      · intro otherNow otherPayload
        rw [appendTerminal, scan_lines, hread, scan_append hscan, scan_terminal terminal]
        rfl

/-- Where the numbers of the attempt leave room a repair succeeds, and a repair that succeeds leaves a
repaired log, whatever the log held. -/
theorem append_terminal_repairs (hpayload : payload.isStatus = true) :
    ((∀ event ∈ ofAttempt attempt (readEvents json logs), event.sequence + 3 < 2 ^ 64) →
      (appendTerminal json now attempt payload logs).isSome = true) ∧
    ∀ after, appendTerminal json now attempt payload logs = some after →
      Repaired json attempt logs after := by
  refine ⟨?_, fun after h => repaired_of_appendTerminal hpayload h⟩
  intro hroom
  unfold appendTerminal
  rw [scan_lines]
  have hbelow : ∀ event ∈ ofAttempt attempt (readEvents json logs), event.sequence < 2 ^ 64 - 3 :=
    fun event hmem => by
      have hsmall := hroom event hmem
      omega
  cases scan_isSome (by omega) (Nat.zero_le (2 ^ 64 - 3)) hbelow with
  | inl hcomplete =>
    rw [hcomplete]
    rfl
  | inr hincomplete =>
    obtain ⟨next, found, hscan, hnext⟩ := hincomplete
    rw [hscan, Option.bind_some]
    apply writeEvents_isSome
    cases found with
    | true =>
      simp only [if_true, List.nil_append, List.length_singleton]
      omega
    | false =>
      simp only [Bool.false_eq_true, if_false, List.singleton_append, List.length_cons,
        List.length_nil]
      omega

end Repairing

/-! ## The events of a short log as JSON -/

section Json

open Awman.Utf8Text Awman.RawArgs
open Awman.TextCuts (stripPrefix splitOnce)

/-- The payloads of a short log: one output line, the status of a success, and the end. -/
def payloadText : EventPayload Unit → List Char
  | .commandStatus _ _ _ _ =>
    ("\x7b\"type\":\"CommandStatus\",\"data\":\x7b\"status\":\"done\",\"exit_code\":0," ++
      "\"error\":null\x7d\x7d\x7d").toList
  | .done => "\x7b\"type\":\"Done\"\x7d\x7d".toList
  | .other _ _ => "\x7b\"type\":\"StdoutLine\",\"data\":\"\"\x7d\x7d".toList

/-- What stands before the number of the attempt. -/
def attemptMark : List Char := "\x7b\"timestamp\":\"1970-01-01T00:00:00Z\",\"attempt\":".toList

/-- What stands before the number of the event. -/
def sequenceMark : List Char := "\"sequence\":".toList

/-- What stands before the payload. -/
def payloadMark : List Char := "\"payload\":".toList

/-- An event as JSON. -/
def eventText (event : ExecutionEvent Unit) : List Char :=
  attemptMark ++ (Nat.toDigits 10 event.attempt ++ ',' :: (sequenceMark ++
    (Nat.toDigits 10 event.sequence ++ ',' :: (payloadMark ++ payloadText event.payload))))

/-- The payload of a text. -/
def textPayload (text : List Char) : Option (EventPayload Unit) :=
  [EventPayload.commandStatus .done (some 0) none none, .done, .other "StdoutLine" (some "")].find?
    fun payload => payloadText payload == text

/-- A number in digits and what follows it. -/
def textNumber (text : List Char) : Option (Nat × List Char) :=
  (splitOnce ',' text).bind fun parts =>
    if parts.1 ≠ [] ∧ parts.1.all Char.isDigit then some (Nat.ofDigitChars 10 parts.1 0, parts.2)
    else none

/-- The event of a text. -/
def textEvent (text : List Char) : Option (ExecutionEvent Unit) := do
  let (attempt, text) ← (stripPrefix attemptMark text).bind textNumber
  let (sequence, text) ← (stripPrefix sequenceMark text).bind textNumber
  let payload ← (stripPrefix payloadMark text).bind textPayload
  some { timestamp := 0, attempt, sequence, source := none, payload }

theorem textNumber_digits (number : Nat) (rest : List Char) :
    textNumber (Nat.toDigits 10 number ++ ',' :: rest) = some (number, rest) := by
  have hcomma : ',' ∉ Nat.toDigits 10 number := by
    intro hmem
    exact absurd (digits_range number ',' hmem) (by decide)
  have hall : (Nat.toDigits 10 number).all Char.isDigit = true := by
    rw [List.all_eq_true]
    intro character hmem
    exact Nat.isDigit_of_mem_toDigits (by omega) (by omega) hmem
  rw [textNumber, TextCuts.splitOnce_append hcomma, Option.bind_some]
  rw [if_pos ⟨Nat.toDigits_ne_nil, hall⟩, Nat.ofDigitChars_ten_toDigits]

theorem textPayload_payloadText (payload : EventPayload Unit) :
    ∃ read, textPayload (payloadText payload) = some read ∧
      read.isStatus = payload.isStatus ∧ read.isDone = payload.isDone := by
  cases payload with
  | commandStatus status exitCode error result =>
    exact ⟨.commandStatus .done (some 0) none none, rfl, rfl, rfl⟩
  | done => exact ⟨.done, rfl, rfl, rfl⟩
  | other type plainText => exact ⟨.other "StdoutLine" (some ""), rfl, rfl, rfl⟩

theorem textEvent_eventText (event : ExecutionEvent Unit) :
    ∃ read, textEvent (eventText event) = some read ∧ read.attempt = event.attempt ∧
      read.sequence = event.sequence ∧ read.payload.isStatus = event.payload.isStatus ∧
      read.payload.isDone = event.payload.isDone := by
  obtain ⟨payload, hpayload, hstatus, hdone⟩ := textPayload_payloadText event.payload
  refine ⟨⟨0, event.attempt, event.sequence, none, payload⟩, ?_, rfl, rfl, hstatus, hdone⟩
  simp only [textEvent, eventText, TextCuts.stripPrefix_append, Option.bind_some,
    textNumber_digits, hpayload, Option.bind_eq_bind]

/-- The characters of an event as JSON are ASCII characters, and none is a control character. -/
theorem eventText_range (event : ExecutionEvent Unit) :
    ∀ character ∈ eventText event, 32 ≤ character.toNat ∧ character.toNat < 0x80 := by
  have hdigits : ∀ number, ∀ character ∈ Nat.toDigits 10 number,
      32 ≤ character.toNat ∧ character.toNat < 0x80 := by
    intro number character hmem
    have hrange := digits_range number character hmem
    omega
  have hpayload : (payloadText event.payload).all
      (fun character => 32 ≤ character.toNat ∧ character.toNat < 0x80) = true := by
    cases event.payload with
    | commandStatus | done | other => rfl
  have hmarks : (attemptMark ++ (sequenceMark ++ payloadMark)).all
      (fun character => 32 ≤ character.toNat ∧ character.toNat < 0x80) = true := by
    decide
  have hmark : ∀ character ∈ attemptMark ++ (sequenceMark ++ payloadMark),
      32 ≤ character.toNat ∧ character.toNat < 0x80 := fun character hmem =>
    of_decide_eq_true (List.all_eq_true.mp hmarks character hmem)
  intro character hmem
  simp only [eventText, List.mem_append, List.mem_cons] at hmem
  rcases hmem with h | h | rfl | h | h | rfl | h | h
  · exact hmark character (by simp [h])
  · exact hdigits _ character h
  · decide
  · exact hmark character (by simp [h])
  · exact hdigits _ character h
  · decide
  · exact hmark character (by simp [h])
  · exact of_decide_eq_true (List.all_eq_true.mp hpayload character h)

/-- The JSON of the events of a short log. -/
def shortJson : EventJson Unit where
  fromSlice := fun bytes => textEvent (fromUtf8Lossy bytes)
  toWriter := fun event => asciiBytes (eventText event)
  fromSlice_nil := rfl
  newline_notMem := by
    intro event hmem
    obtain ⟨character, hcharacter, hbyte⟩ := List.mem_map.mp hmem
    have hrange := eventText_range event character hcharacter
    have hnumber := congrArg UInt8.toNat hbyte
    rw [toNat_ofNat_byte (by omega)] at hnumber
    have hten : (0x0A : UInt8).toNat = 10 := rfl
    omega
  read_eq := by
    intro event read hread
    have hascii : Ascii (eventText event) := fun character hmem =>
      (eventText_range event character hmem).2
    rw [(fromUtf8Lossy_eq_ascii hascii).mpr rfl] at hread
    obtain ⟨found, hfound, hequal⟩ := textEvent_eventText event
    rw [hfound, Option.some.injEq] at hread
    rw [← hread]
    exact hequal
  done_read := by
    intro event hdone
    have hascii : Ascii (eventText event) := fun character hmem =>
      (eventText_range event character hmem).2
    obtain ⟨found, hfound, -⟩ := textEvent_eventText event
    rw [(fromUtf8Lossy_eq_ascii hascii).mpr rfl, hfound]
    rfl

/-- The events of attempt 1 with these payloads, as a log. -/
def shortLog (payloads : List (EventPayload Unit)) : List UInt8 :=
  (writtenEvents (fun _ => 0) 1 payloads 0).flatMap fun event =>
    shortJson.toWriter event ++ [newline]

/-- The status of a success. -/
def succeeded : EventPayload Unit := .commandStatus .done (some 0) none none

/-- A log with an output line and the torn beginning of another one. -/
def tornLog : CommandLogs where
  events := shortLog [.other "StdoutLine" (some "")] ++ asciiBytes attemptMark
  output := [newline]

theorem append_terminal_repairs_tornLog :
    ∃ after, appendTerminal shortJson (fun _ => 0) 1 succeeded tornLog = some after ∧
      Repaired shortJson 1 tornLog after := by
  have hrepairs : ((∀ event ∈ ofAttempt 1 (readEvents shortJson tornLog),
        event.sequence + 3 < 2 ^ 64) →
      (appendTerminal shortJson (fun _ => 0) 1 succeeded tornLog).isSome = true) ∧
    ∀ after, appendTerminal shortJson (fun _ => 0) 1 succeeded tornLog = some after →
      Repaired shortJson 1 tornLog after := append_terminal_repairs rfl
  have hroom : (ofAttempt 1 (readEvents shortJson tornLog)).all
      (fun event => event.sequence + 3 < 2 ^ 64) = true := by
    decide +kernel
  have hsucceeds := hrepairs.1 fun event hmem =>
    of_decide_eq_true (List.all_eq_true.mp hroom event hmem)
  obtain ⟨after, hafter⟩ := Option.isSome_iff_exists.mp hsucceeds
  exact ⟨after, hafter, hrepairs.2 after hafter⟩

/-- A log with an output line behind the end of its attempt. -/
def lateLog : CommandLogs where
  events := shortLog [.done, .other "StdoutLine" (some "")]
  output := [newline]

/-- A line behind the end stays the last event of the attempt. -/
theorem lateLog_not_terminated :
    appendTerminal shortJson (fun _ => 0) 1 succeeded lateLog = some lateLog ∧
      ¬ Terminated (ofAttempt 1 (readEvents shortJson lateLog)) := by
  have hunchanged : appendTerminal shortJson (fun _ => 0) 1 succeeded lateLog = some lateLog := by
    decide +kernel
  have hlast : (ofAttempt 1 (readEvents shortJson lateLog)).getLast?.map
      (fun event => event.payload.isDone) = some false := by
    decide +kernel
  refine ⟨hunchanged, ?_⟩
  intro hterminated
  obtain ⟨front, last, hevents, hdone, -⟩ := hterminated.done
  rw [hevents, List.getLast?_concat, Option.map_some, hdone] at hlast
  cases hlast

end Json

end Awman.CommandLog
