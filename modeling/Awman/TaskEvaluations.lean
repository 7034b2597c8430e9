import Awman.Library.Interleaving
import Awman.TaskOperations

/-!
# Evaluations of tasks

A tick of the scheduler selects a due task, opens a run of it and dispatches the evaluation.  The
evaluation records the files of its workflow when that starts, and its outcome when it ends; a
failed one sets the backoff of the task, another one clears it.  Meanwhile tasks are created,
edited and removed.
-/

namespace Awman.Tasks

open Session Interleaving

/-- What an evaluation comes to. -/
inductive EvaluationOutcome where
  | notTriggered (reason : Option Text)
  | workflowExecuted (reason : Option Text) (workflowPath : Text) (workflowStatePath : Option Text)
      (exitCode : Option Int)
  | failed (error : Text) (reason : Option Text)

/-- The status and the detail of a run with this outcome, and whether it counts as a failure. -/
def classify (runLogDir : Text) : EvaluationOutcome → RunStatus × RunDetail × Bool
  | .notTriggered reason => (.notTriggered, { reason }, false)
  | .workflowExecuted reason workflowPath workflowStatePath exitCode =>
    let workflowFailed := exitCode.any (· ≠ 0)
    (if workflowFailed then .failed else .workflowExecuted,
      { workflowPath := some workflowPath, workflowStatePath
        error := (exitCode.filter (· ≠ 0)).map fun code =>
          s!"generated workflow exited with code {code}; see ".toList ++ runLogDir
        reason },
      workflowFailed)
  | .failed error reason => (.failed, { error := some error, reason }, true)

/-- The longest backoff, in seconds. -/
def maxBackoffSecs : Nat := 6 * 60 * 60

/-- The largest value of 64 bits without a sign. -/
def u64Max : Nat := 2 ^ 64 - 1

/-- The backoff of a task after failures in a row, in seconds. -/
def backoffSecs (intervalSecs attempt : Nat) : Nat :=
  let factor := if attempt < 64 then 2 ^ attempt else u64Max
  min (min (intervalSecs * factor) u64Max) maxBackoffSecs

/-- What the evaluator reports, or the administrator asks for. -/
inductive EvaluatorEvent where
  | workflowStarted (workflowPath statePath : Text)
  | outcome (outcome : EvaluationOutcome)
  /-- The run is canceled; a verdict that is there already keeps its reason. -/
  | canceled (reason : Option Text)

/-- What comes from outside in a step of the scheduler. -/
structure Tidings where
  /-- Which statements fail by themselves. -/
  faults : Faults
  now : Instant
  /-- SQLite's reckoning of the seconds between two moments. -/
  elapsed : Instant → Instant → Nat → Bool
  /-- Which of the due tasks is dispatched. -/
  pick : Nat
  /-- The identifier of a new run. -/
  runId : Text
  /-- The declared variables without a value. -/
  unmetEnv : List Text
  /-- What went wrong with the log directory or the configuration of the task. -/
  prepared : Except Text Unit
  runLogDir : Text
  /-- What happens to the evaluation. -/
  event : EvaluatorEvent
  /-- How many failures in a row this is. -/
  attempt : Nat

/-- Where a call stands. -/
inductive Call where
  /-- The gateway, or a daemon that starts, is to use the store. -/
  | operation (work : Operation)
  /-- A tick is to read the due tasks. -/
  | selecting
  | opening (task : Task)
  | opened (task : Task) (runId : Text)
  /-- The evaluation is under way. -/
  | evaluating (task : Task) (runId : Text)
  /-- The outcome is recorded; the backoff is to be set. -/
  | backingOff (task : Task) (runId : Text) (until_ : Option Instant)
  | finished

/-- What the gateway and a daemon that starts may do to the store. -/
def Operation.isOutside : Operation → Bool
  | .create _ | .writeColumns .. | .setStatus .. | .delete _ | .requestTrigger .. | .reconcile _ => true
  | .startRun .. | .finishRun .. | .setBackoff .. | .setWorkflowStatePath .. => false

namespace Call

/-- What the next step of a call does to the store. -/
def performs (tidings : Tidings) : Call → Option Operation
  | .operation work => some work
  | .selecting => none
  | .opening task => some (.startRun tidings.runId task.id none tidings.now tidings.unmetEnv)
  | .opened _ runId =>
    match tidings.prepared with
    | .ok _ => none
    | .error error => some (.finishRun runId .failed { error := some error } tidings.now)
  | .evaluating _ runId =>
    match tidings.event with
    | .workflowStarted workflowPath statePath =>
      some (.setWorkflowStatePath runId (some workflowPath) (some statePath))
    | .outcome outcome =>
      let (status, detail, _) := classify tidings.runLogDir outcome
      some (.finishRun runId status detail tidings.now)
    | .canceled reason => some (.finishRun runId .canceled { reason } tidings.now)
  | .backingOff task _ until_ => some (.setBackoff task.name until_ tidings.now)
  | .finished => none

/-- Where a call stands after its next step. -/
def advance (tidings : Tidings) (store : Store) : Call → Call
  | .operation _ => .finished
  | .selecting =>
    match (dueForEvaluation (tidings.faults 0) tidings.elapsed tidings.now).call store with
    | (.ok due, _) =>
      match due[tidings.pick]? with
      | some task => .opening task
      | none => .finished
    | (.error _, _) => .finished
  | .opening task =>
    match (startRunWithEnv tidings.faults tidings.runId task.id none tidings.now
        tidings.unmetEnv).call store with
    | (.ok runId, _) => .opened task runId
    | (.error _, _) => .finished
  | .opened task runId =>
    match tidings.prepared with
    | .ok _ => .evaluating task runId
    | .error _ => .finished
  | .evaluating task runId =>
    match tidings.event with
    | .workflowStarted _ _ => .evaluating task runId
    | .outcome outcome =>
      let (_, _, failed) := classify tidings.runLogDir outcome
      if failed then
        .backingOff task runId (some (tidings.now +
          backoffSecs task.intervalSecs tidings.attempt * 1000000000))
      else if task.backoffUntil.isSome then .backingOff task runId none
      else .finished
    | .canceled _ => .finished
  | .backingOff _ _ _ => .finished
  | .finished => .finished

/-- One use of the connection by a call. -/
def step (call : Call) (tidings : Tidings) (store : Store) : Option (Call × Store) :=
  match call with
  | .finished => none
  | call =>
    some (call.advance tidings store,
      ((call.performs tidings).map (·.after tidings.faults store)).getD store)

/-- The task whose run is in flight. -/
def inFlight : Call → Option Task
  | .opened task _ | .evaluating task _ | .backingOff task _ _ => some task
  | _ => none

end Call

/-- The scheduler, next to everything else that uses the store. -/
def squad : System Tidings Store Call where
  starts
    | .operation work => work.isOutside
    | .selecting => true
    | _ => false
  step := Call.step

/-! ## Which rows of the tasks an operation writes -/

namespace Operation

variable {store : Store} {faults : Faults} {work : Operation}

/-- The identifier and the name an operation may add to the tasks. -/
def Creates : Operation → Text → Text → Prop
  | .create task, id, name => task.id = id ∧ task.name = name
  | _, _, _ => False

/-- The tasks have the identifiers and names they had before, or new ones. -/
def KeepsNames (new : Text → Text → Prop) (store after : Store) : Prop :=
  ∀ row ∈ after.tasks, (∃ old ∈ store.tasks, old.id = row.id ∧ old.name = row.name) ∨
    new row.id row.name

instance (new : Text → Text → Prop) : IsPreorder Store (KeepsNames new) where
  refl _ row hrow := Or.inl ⟨row, hrow, rfl, rfl⟩
  trans _ _ _ hfirst hsecond row hrow := by
    rcases hsecond row hrow with ⟨old, hold, hid, hname⟩ | hnew
    · rcases hfirst old hold with ⟨before, hbefore, hidBefore, hnameBefore⟩ | hnew
      · exact Or.inl ⟨before, hbefore, hidBefore.trans hid, hnameBefore.trans hname⟩
      · rw [← hid, ← hname]
        exact Or.inr hnew
    · exact Or.inr hnew

/-- Names come with new tasks only. -/
theorem keepsNames (faults : Faults) (work : Operation) (store : Store) :
    KeepsNames work.Creates store (work.after faults store) := by
  refine keeps ?_ ?_
  · intro statement hexecutes store rows after happly row hrow
    cases statement with
    | insertTask task =>
      obtain ⟨hid, hname, rfl⟩ := Statement.apply_insertTask happly
      rcases List.mem_append.mp hrow with hold | hnew
      · exact Or.inl ⟨row, hold, rfl, rfl⟩
      · obtain rfl := List.mem_singleton.mp hnew
        cases hexecutes
        exact Or.inr ⟨rfl, rfl⟩
    | updateTasks key clause =>
      obtain rfl := Statement.apply_updateTasks happly
      obtain ⟨old, hold, rfl⟩ := Store.mem_setTasks hrow
      refine Or.inl ⟨old, hold, ?_⟩
      split <;> exact ⟨rfl, rfl⟩
    | deleteTask | deleteRuns => cases hexecutes
    | insertRun run =>
      obtain ⟨hid, htask, rfl⟩ := Statement.apply_insertRun happly
      exact Or.inl ⟨row, hrow, rfl, rfl⟩
    | updateRuns key clause =>
      obtain rfl := Statement.apply_updateRuns happly
      exact Or.inl ⟨row, hrow, rfl, rfl⟩
  · intro name hoperation store task hruns hnamed row hrow
    exact Or.inl ⟨row, (List.mem_filter.mp hrow).1, rfl, rfl⟩

/-- What an operation on runs leaves of the tasks. -/
def SameTasks (store after : Store) : Prop := after.tasks = store.tasks

instance : IsPreorder Store SameTasks where
  refl _ := rfl
  trans _ _ _ hfirst hsecond := hsecond.trans hfirst

/-- The operation is about the row of one run. -/
def isOfRun : Operation → Bool
  | .finishRun .. | .setWorkflowStatePath .. => true
  | _ => false

/-- Such an operation writes no task. -/
theorem tasks_after (h : work.isOfRun = true) (faults : Faults) (store : Store) :
    (work.after faults store).tasks = store.tasks := by
  have hsame : SameTasks store (work.after faults store) := by
    refine keeps ?_ ?_
    · intro statement hexecutes store rows after happly
      cases hexecutes with
      | finishRun | setWorkflowStatePath =>
        rw [Statement.apply_updateRuns happly]
        rfl
      | create | writeColumns | setStatus | requestTrigger | insertRun | runStarted | setBackoff
        | reconcile => cases h
    · rintro name rfl
      cases h
  exact hsame

/-- A backoff is set by the name of the task. -/
theorem after_setBackoff (faults : Faults) (name : Text) (until_ : Option Instant) (now : Instant)
    (store : Store) :
    (Operation.setBackoff name until_ now).after faults store =
      if faults 0 then store
      else store.setTasks (.name name) { backoffUntil := some until_, updatedAt := now } := by
  rw [Operation.after, Session.after, session, Tasks.setBackoff, call_discard, call_execute]
  by_cases hfault : faults 0 = true
  · rw [if_pos hfault, if_pos hfault]
  · rw [if_neg hfault, if_neg hfault]
    rfl

end Operation

/-! ## The rows that a run in flight writes -/

variable {store : Store} {config : Config Store Call} {tidings : Tidings} {call next : Call}
  {task : Task}

/-- The rows of a name are rows of an identifier. -/
def Store.Binds (store : Store) (name id : Text) : Prop :=
  ∀ row ∈ store.tasks, row.name = name → row.id = id

/-- What calls know of the tasks they are about. -/
structure NamesHold (config : Config Store Call) : Prop where
  /-- A task that was selected has its name, as long as it is there. -/
  opening : ∀ id task, config.calls id = some (.opening task) →
    ∀ row ∈ config.shared.tasks, row.id = task.id → row.name = task.name
  inFlight : ∀ id call task, config.calls id = some call → call.inFlight = some task →
    config.shared.Binds task.name task.id

/-- A new task has a new identifier, and not the name of a task whose run is in flight. -/
def FreshNames (config : Config Store Call) : Event Tidings Call → Prop
  | .start _ _ => True
  | .step id _ => ∀ new, config.calls id = some (.operation (.create new)) →
    ∀ other call, config.calls other = some call →
      (∀ task, call = .opening task → task.id ≠ new.id) ∧
        ∀ task, call.inFlight = some task → task.name ≠ new.name

theorem Call.step_eq {after : Store} (h : call.step tidings store = some (next, after)) :
    next = call.advance tidings store ∧
      after = ((call.performs tidings).map (·.after tidings.faults store)).getD store := by
  cases call <;> cases h <;> exact ⟨rfl, rfl⟩

/-- A run that opens is of a task that is there. -/
theorem startRunWithEnv_known {faults : Faults} {runId taskId answer : Text}
    {sessionId : Option Text} {startedAt : Instant} {unmetEnv : List Text} {after : Store}
    (h : (startRunWithEnv faults runId taskId sessionId startedAt unmetEnv).call store =
      (.ok answer, after)) : answer = runId ∧ taskId ∈ store.tasks.map Task.id := by
  by_cases hrefused : OpeningRefused faults runId taskId store
  · obtain ⟨error, hcall⟩ := startRunWithEnv_refused faults runId taskId sessionId startedAt unmetEnv
      store hrefused
    rw [hcall] at h
    cases h
  · obtain ⟨hid, htask, hcall⟩ := startRunWithEnv_inserted faults runId taskId sessionId startedAt
      unmetEnv store hrefused
    dsimp only at hcall
    rw [hcall] at h
    split at h
    · cases h
    · cases h
      exact ⟨rfl, htask⟩

namespace Call

/-- A task is selected from the table. -/
theorem advance_opening (h : call.advance tidings store = .opening task) :
    call = .selecting ∧ task ∈ store.tasks := by
  cases call with
  | selecting =>
    rw [advance, dueForEvaluation, call_query] at h
    by_cases hfault : tidings.faults 0 = true
    · rw [if_pos hfault] at h
      cases h
    · rw [if_neg hfault] at h
      dsimp only at h
      split at h
      · rename_i picked hpicked
        cases h
        have hmem := List.mem_of_getElem? hpicked
        rw [List.mem_insertionSort] at hmem
        exact ⟨rfl, (List.mem_filter.mp hmem).1⟩
      · cases h
  | operation | backingOff | finished => cases h
  | opening | opened =>
    rw [advance] at h
    split at h <;> cases h
  | evaluating =>
    rw [advance] at h
    split at h
    · cases h
    · split at h
      split at h
      · cases h
      · split at h <;> cases h
    · cases h

/-- A run is in flight from the moment its row opens, and as long as its call is not over. -/
theorem advance_inFlight (h : (call.advance tidings store).inFlight = some task) :
    call.inFlight = some task ∨ call = .opening task ∧ task.id ∈ store.tasks.map Task.id := by
  cases call with
  | operation | backingOff | finished => cases h
  | selecting =>
    rw [advance] at h
    split at h
    · split at h <;> cases h
    · cases h
  | opening selected =>
    rw [advance] at h
    split at h
    · rename_i runId after hcall
      obtain rfl : selected = task := Option.some.inj h
      exact Or.inr ⟨rfl, (startRunWithEnv_known hcall).2⟩
    · cases h
  | opened =>
    rw [advance] at h
    split at h
    · exact Or.inl h
    · cases h
  | evaluating =>
    rw [advance] at h
    split at h
    · exact Or.inl h
    · split at h
      split at h
      · exact Or.inl h
      · split at h
        · exact Or.inl h
        · cases h
    · cases h

/-- Only the gateway creates tasks. -/
theorem performs_create {new : Task} (h : call.performs tidings = some (.create new)) :
    call = .operation (.create new) := by
  cases call with
  | operation work => rw [Option.some.inj h]
  | selecting | opening | backingOff | finished => cases h
  | opened | evaluating =>
    rw [performs] at h
    split at h <;> cases h

/-- The names after a step are those before, and that of the task it creates. -/
theorem step_names {after : Store} (h : call.step tidings store = some (next, after)) {row : Task}
    (hrow : row ∈ after.tasks) :
    (∃ old ∈ store.tasks, old.id = row.id ∧ old.name = row.name) ∨
      ∃ new, call = .operation (.create new) ∧ new.id = row.id ∧ new.name = row.name := by
  obtain ⟨-, rfl⟩ := step_eq h
  cases hperforms : call.performs tidings with
  | none =>
    rw [hperforms] at hrow
    exact Or.inl ⟨row, hrow, rfl, rfl⟩
  | some work =>
    rw [hperforms] at hrow
    rcases Operation.keepsNames tidings.faults work store row hrow with hold | hnew
    · exact Or.inl hold
    · cases work with
      | create new => exact Or.inr ⟨new, performs_create hperforms, hnew⟩
      | writeColumns | setStatus | delete | requestTrigger | startRun | finishRun | setBackoff
        | setWorkflowStatePath | reconcile => cases hnew

end Call

/-- What calls know of the tasks stays true. -/
theorem namesHold_preserves : squad.Preserves FreshNames NamesHold where
  start := by
    intro config id position hinv hnew hstarts
    constructor
    · intro other task hcall row hrow hid
      rcases Config.calls_move hcall with ⟨-, rfl⟩ | ⟨-, hold⟩
      · cases hstarts
      · exact hinv.opening other task hold row hrow hid
    · intro other call task hcall hflight
      rcases Config.calls_move hcall with ⟨-, rfl⟩ | ⟨-, hold⟩
      · cases call with
        | operation | selecting => cases hflight
        | opening | opened | evaluating | backingOff | finished => cases hstarts
      · exact hinv.inFlight other call task hold hflight
  step := by
    intro config id tidings old position shared hinv hallowed hold hmove
    have hstep : old.step tidings config.shared = some (position, shared) := hmove
    have hadvance := (Call.step_eq hstep).1
    constructor
    · intro other task hcall row hrow hid
      rcases Config.calls_move hcall with ⟨-, hmoved⟩ | ⟨-, hstands⟩
      · obtain ⟨rfl, htask⟩ := Call.advance_opening (hadvance.symm.trans hmoved.symm)
        obtain ⟨-, rfl⟩ := Call.step_eq hstep
        rw [config.shared.task_eq hrow htask hid]
      · rcases Call.step_names hstep hrow with ⟨before, hbefore, hbeforeId, hbeforeName⟩ |
          ⟨new, rfl, hnewId, -⟩
        · exact hbeforeName ▸ hinv.opening other task hstands before hbefore (hbeforeId.trans hid)
        · have hfresh := (hallowed new hold other _ hstands).1 task rfl
          exact absurd (hid.symm.trans hnewId.symm) hfresh
    · intro other call task hcall hflight row hrow hname
      have hbefore : ∀ before ∈ config.shared.tasks, before.name = task.name →
          before.id = task.id := by
        rcases Config.calls_move hcall with ⟨-, rfl⟩ | ⟨-, hstands⟩
        · rw [hadvance] at hflight
          rcases Call.advance_inFlight hflight with hsame | ⟨rfl, hknown⟩
          · exact hinv.inFlight id old task hold hsame
          · obtain ⟨found, hfound, hid⟩ := List.mem_map.mp hknown
            intro before hmem hsame
            have hfoundName := hinv.opening id task hold found hfound hid
            rw [config.shared.task_eq_of_name hmem hfound (hsame.trans hfoundName.symm)]
            exact hid
        · exact hinv.inFlight other call task hstands hflight
      rcases Call.step_names hstep hrow with ⟨before, hmem, hbeforeId, hbeforeName⟩ |
        ⟨new, rfl, -, hnewName⟩
      · exact hbeforeId ▸ hbefore before hmem (hbeforeName.trans hname)
      · rcases Config.calls_move hcall with ⟨-, rfl⟩ | ⟨-, hstands⟩
        · rw [hadvance] at hflight
          cases hflight
        · have hfresh := (hallowed new hold other call hstands).2 task hflight
          exact absurd (hname.symm.trans hnewName.symm) hfresh

/-- A call with a run in flight writes no row of another task. -/
theorem Call.step_own {after : Store} (hbinds : store.Binds task.name task.id)
    (hflight : call.inFlight = some task) (h : call.step tidings store = some (next, after)) {row : Task}
    (hrow : row.id ≠ task.id) : row ∈ after.tasks ↔ row ∈ store.tasks := by
  obtain ⟨-, rfl⟩ := step_eq h
  cases hperforms : call.performs tidings with
  | none => exact Iff.rfl
  | some work =>
    rw [Option.map_some, Option.getD_some]
    cases call with
    | operation | selecting | opening | finished => cases hflight
    | opened | evaluating =>
      have hofRun : work.isOfRun = true := by
        rw [performs] at hperforms
        split at hperforms <;> cases hperforms <;> rfl
      rw [Operation.tasks_after hofRun]
    | backingOff backed runId until_ =>
      obtain rfl : backed = task := Option.some.inj hflight
      obtain rfl : Operation.setBackoff backed.name until_ tidings.now = work :=
        Option.some.inj hperforms
      rw [Operation.after_setBackoff]
      split
      · exact Iff.rfl
      · constructor
        · intro hmem
          obtain ⟨old, hold, rfl⟩ := Store.mem_setTasks hmem
          by_cases hkey : TaskKey.names (.name backed.name) old = true
          · rw [if_pos hkey] at hrow
            exact absurd (hbinds old hold (of_decide_eq_true hkey)) hrow
          · rw [if_neg hkey]
            exact hold
        · intro hmem
          have hkey : ¬TaskKey.names (.name backed.name) row = true := fun hkey =>
            hrow (hbinds row hmem (of_decide_eq_true hkey))
          have hkept := List.mem_map_of_mem (f := fun task =>
            if TaskKey.names (.name backed.name) task then
              TaskSet.apply { backoffUntil := some until_, updatedAt := tidings.now } task
            else task) hmem
          rw [if_neg hkey] at hkept
          exact hkept

/-- In a run in which no task is created under the name of a task whose run is in flight, what a call
with a run in flight does changes no row of another task. -/
theorem inFlight_own_task {events : List (Event Tidings Call)}
    (hmeets : squad.Meets FreshNames (Config.idle store) events) {count id : Nat}
    (hevent : events[count]? = some (.step id tidings))
    (hcall : (squad.run (Config.idle store) (events.take count)).calls id = some call)
    (hflight : call.inFlight = some task) {row : Task} (hrow : row.id ≠ task.id) :
    row ∈ (squad.run (Config.idle store) (events.take (count + 1))).shared.tasks ↔
      row ∈ (squad.run (Config.idle store) (events.take count)).shared.tasks := by
  have hidle : NamesHold (Config.idle store : Config Store Call) :=
    ⟨fun _ _ h => absurd h (by simp [Config.idle]), fun _ _ _ h => absurd h (by simp [Config.idle])⟩
  have hinv := namesHold_preserves.run hidle (hmeets.take count)
  rw [System.run_take_succ hevent]
  cases hstep : call.step tidings (squad.run (Config.idle store) (events.take count)).shared with
  | none =>
    rw [System.next_step_of_none hcall hstep]
  | some moved =>
    rw [System.next_step hcall hstep, Config.move_shared]
    exact Call.step_own (hinv.inFlight id call task hcall hflight) hflight hstep hrow

/-! ## A failed run of a sample task -/

/-- A step in which no statement fails and the evaluation ends with an error. -/
def failing : Tidings where
  faults _ := false
  now := 9
  elapsed _ _ _ := true
  pick := 0
  runId := ['r']
  unmetEnv := []
  prepared := .ok ()
  runLogDir := []
  event := .outcome (.failed ['e'] none)
  attempt := 1

/-- The tick that dispatches a task, with so many steps of its call. -/
def dispatched (steps : Nat) : List (Event Tidings Call) :=
  .start 0 .selecting :: List.replicate steps (.step 0 failing)

/-- The call is to create a task. -/
def Call.creates : Call → Bool
  | .operation (.create _) => true
  | _ => false

/-- A step in which no task is created needs no fresh name. -/
theorem freshNames_of_not_create {id : Nat} (hcall : config.calls id = some call)
    (hnot : call.creates = false) : FreshNames config (.step id tidings) := by
  intro new hnew
  rw [hcall] at hnew
  rw [Option.some.inj hnew] at hnot
  cases hnot

/-- Tables with two tasks. -/
def twoTasks : Store :=
  (oneTask (sampleTask ['x'] ['t'])).addTask (sampleTask ['y'] ['u']) (by decide) (by decide)

/-- The run of the first task is in flight, a third task is created, and the run fails. -/
def createdDuringRun : List (Event Tidings Call) :=
  dispatched 3 ++ [.start 1 (.operation (.create (sampleTask ['z'] ['v']))), .step 1 failing,
    .step 0 failing, .step 0 failing]

theorem inFlight_own_task_sample :
    (sampleTask ['y'] ['u'] ∈
        (squad.run (Config.idle twoTasks) (createdDuringRun.take (7 + 1))).shared.tasks ↔
      sampleTask ['y'] ['u'] ∈
        (squad.run (Config.idle twoTasks) (createdDuringRun.take 7)).shared.tasks) ∧
      (squad.run (Config.idle twoTasks) createdDuringRun).shared.tasks.map
        (fun row => (row.id, row.backoffUntil)) =
          [(['x'], some 120000000009), (['y'], none), (['z'], none)] := by
  have hcreated : FreshNames (squad.run (Config.idle twoTasks) (createdDuringRun.take 5))
      (.step 1 failing) := by
    intro new hnew other call hother
    cases hnew
    rcases other with _ | _ | other <;> cases hother
    · constructor
      · intro task hopening
        cases hopening
      · intro task hflight
        cases hflight
        decide
    · constructor
      · intro task hopening
        cases hopening
      · intro task hflight
        cases hflight
  have hmeets : squad.Meets FreshNames (Config.idle twoTasks) createdDuringRun :=
    ⟨trivial, freshNames_of_not_create rfl rfl, freshNames_of_not_create rfl rfl,
      freshNames_of_not_create rfl rfl, trivial, hcreated, freshNames_of_not_create rfl rfl,
      freshNames_of_not_create rfl rfl, trivial⟩
  have hevent : createdDuringRun[7]? = some (.step 0 failing) := rfl
  exact ⟨inFlight_own_task hmeets hevent rfl rfl (by decide), by decide⟩

/-- A task is removed while its run is in flight, and another one is created under its name: the
failure of the old run backs off the new task. -/
theorem other_task_backed_off :
    let events := dispatched 3 ++ [.start 1 (.operation (.delete ['t'])), .step 1 failing,
      .start 2 (.operation (.create (sampleTask ['y'] ['t']))), .step 2 failing, .step 0 failing]
    let before := squad.run (Config.idle (oneTask (sampleTask ['x'] ['t']))) events
    let after := squad.next before (.step 0 failing)
    ((before.calls 0).bind Call.inFlight).map (·.id) = some ['x'] ∧
      before.shared.tasks.map (fun row => (row.id, row.backoffUntil)) = [(['y'], none)] ∧
      after.shared.tasks.map (fun row => (row.id, row.backoffUntil)) =
        [(['y'], some 120000000009)] := by
  decide

end Awman.Tasks
