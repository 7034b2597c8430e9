import Awman.Library.ReadModifyWrite
import Awman.TaskEdits

/-!
# Runs of two edits of one task

Two edits of one task and any number of other operations take their steps in any order.  What the
other operations write is there at the end.  The two edits are both there if and only if, at some
moment, one had written and the other had not read yet, or the first one to write changed nothing.
-/

namespace Awman.Tasks

open Session Interleaving ReadModifyWrite

/-- Where a call stands. -/
inductive Position where
  | reading (name : Text) (request : TaskUpdate)
  | writing (name : Text) (columns : Columns)
  /-- It has written and is to read the row again. -/
  | written (name : Text)
  | answered (answer : Except StoreError (Option Task))
  /-- It gave up before it wrote. -/
  | failed (answer : Except StoreError (Option Task))
  /-- Another operation is to use the connection. -/
  | operation (operation : Operation)
  /-- That operation is over. -/
  | finished

/-- What comes from outside in a step: which statements fail, and the time. -/
structure Choice where
  /-- Which statements fail by themselves. -/
  faults : Faults
  now : Instant

/-- One use of the connection by a call. -/
def step : Position → Choice → Store → Option (Position × Store)
  | .reading name request, choice, store =>
    match (get (choice.faults 0) name).call store with
    | (.ok (some existing), after) =>
      match mergedColumns request existing.toColumns with
      | .ok columns => some (.writing name columns, after)
      | .error error => some (.failed (.error error), after)
    | (answer, after) => some (.failed answer, after)
  | .writing name columns, choice, store =>
    match (writeColumns (choice.faults 0) name columns choice.now).call store with
    | (.ok _, after) => some (.written name, after)
    | (.error error, after) => some (.failed (.error error), after)
  | .written name, choice, store =>
    match (get (choice.faults 0) name).call store with
    | (answer, after) => some (.answered answer, after)
  | .operation operation, choice, store => some (.finished, operation.after choice.faults store)
  | .answered _, _, _ => none
  | .failed _, _, _ => none
  | .finished, _, _ => none

/-- Calls next to the edits of a task: any operations but its removal and further edits of it. -/
def edits (name : Text) : System Choice Store Position where
  starts
    | .operation operation => operation.spares name
    | _ => false
  step := step

/-- The configuration in which two edits are about to start. -/
def together (first second : Nat) (name : Text) (request other : TaskUpdate) (store : Store) :
    Config Store Position :=
  ⟨store, fun id =>
    if id = first then some (.reading name request)
    else if id = second then some (.reading name other) else none⟩

/-- The configuration in which these two calls do nothing. -/
def without (first second : Nat) (store : Store) : Config Store Position :=
  ⟨store, fun id => if id = first ∨ id = second then some .finished else none⟩

/-- The edit has written. -/
def Position.hasWritten : Position → Bool
  | .written _ | .answered _ => true
  | _ => false

/-- The call has written. -/
def Wrote (config : Config Store Position) (id : Nat) : Prop :=
  ∃ position, config.calls id = some position ∧ position.hasWritten = true

/-- The call has not read. -/
def Unread (config : Config Store Position) (id : Nat) : Prop :=
  ∃ name request, config.calls id = some (.reading name request)

/-- One edit has written, and the other one has not; it has not read either, or the first one changed
none of the columns. -/
def ApartAt (columns : Columns) (config : Config Store Position) (done waiting : Nat)
    (request : TaskUpdate) : Prop :=
  Wrote config done ∧ ¬Wrote config waiting ∧
    (Unread config waiting ∨ request.merge columns = columns)

/-- Both requests are in the row of the task, which is otherwise the one that the other operations
leave by themselves. -/
def Merged (name : Text) (request other : TaskUpdate) (store alone : Store) : Prop :=
  ∃ last row, store.named name = some last ∧ alone.named name = some row ∧
    last = { row with
      toColumns := request.merge (other.merge row.toColumns), updatedAt := last.updatedAt }

/-! ## Single steps of an edit -/

variable {name : Text} {request other : TaskUpdate} {columns : Columns} {store after : Store}
  {position next : Position} {choice : Choice} {stage : Stage Columns} {task : Task}

/-- How far an edit at a position is. -/
inductive Stands (name : Text) (request : TaskUpdate) : Position → Stage Columns → Prop where
  | reading : Stands name request (.reading name request) .unread
  | writing (seen : Columns) : Stands name request (.writing name (request.merge seen)) (.read seen)
  | written : Stands name request (.written name) .wrote
  | answered (answer : Except StoreError (Option Task)) :
      Stands name request (.answered answer) .wrote
  | failed (answer : Except StoreError (Option Task)) :
      Stands name request (.failed answer) .failed

variable {id : Nat}

theorem Stands.wrote_iff {config : Config Store Position} (h : Stands name request position stage)
    (hcall : config.calls id = some position) :
    Wrote config id ↔ stage = .wrote := by
  have hposition : Wrote config id ↔ position.hasWritten = true := by
    constructor
    · rintro ⟨other, hother, hwritten⟩
      rw [hcall] at hother
      rw [Option.some.inj hother]
      exact hwritten
    · intro hwritten
      exact ⟨position, hcall, hwritten⟩
  rw [hposition]
  cases h <;> simp [Position.hasWritten]

theorem Stands.unread_iff {config : Config Store Position} (h : Stands name request position stage)
    (hcall : config.calls id = some position) :
    Unread config id ↔ stage = .unread := by
  rw [Unread, hcall]
  cases h <;> simp

/-- Writing the columns of a task changes nothing else. -/
theorem alike_writeColumns (name : Text) (columns written : Columns) (now : Instant) (store : Store) :
    Alike name columns
      (store.setTasks (.name name) { columns := some written, updatedAt := now }) store := by
  constructor
  · rw [Store.tasks_setTasks, List.map_map]
    refine List.map_congr_left fun task _ => ?_
    by_cases hname : task.name = name
    · have hkey : TaskKey.names (.name name) task = true := decide_eq_true hname
      rw [Function.comp, if_pos hkey, Task.blank_of_eq hname]
      exact if_pos hname
    · have hkey : TaskKey.names (.name name) task = false := decide_eq_false hname
      rw [Function.comp, hkey, if_neg (by simp)]
  · rfl

/-- What a step of an edit does to its stage and to the columns of the task. -/
theorem Stands.step (columns : Columns) (h : Stands name request position stage)
    (htask : store.named name = some task)
    (hstep : Tasks.step position choice store = some (next, after)) :
    Alike name columns after store ∧ ∃ reached row, Stands name request next reached ∧
      after.named name = some row ∧
      Moves request.merge stage task.toColumns reached row.toColumns := by
  cases h with
  | reading =>
    rw [Tasks.step, get, call_query] at hstep
    by_cases hfault : choice.faults 0 = true
    · rw [if_pos hfault] at hstep
      cases hstep
      exact ⟨.refl .., .failed, task, .failed _, htask, .failsUnread _⟩
    · rw [if_neg hfault, htask] at hstep
      dsimp only at hstep
      cases hmerged : mergedColumns request task.toColumns with
      | error error =>
        rw [hmerged] at hstep
        cases hstep
        exact ⟨.refl .., .failed, task, .failed _, htask, .failsUnread _⟩
      | ok merged =>
        have hsame : merged = request.merge task.toColumns := by
          rw [mergedColumns] at hmerged
          split at hmerged
          · cases hmerged
          · exact (Except.ok.inj hmerged).symm
        rw [hmerged, hsame] at hstep
        cases hstep
        exact ⟨.refl .., .read task.toColumns, task, .writing _, htask, .reads _⟩
  | writing seen =>
    rw [Tasks.step, writeColumns, call_discard, call_execute] at hstep
    by_cases hfault : choice.faults 0 = true
    · rw [if_pos hfault] at hstep
      cases hstep
      exact ⟨.refl .., .failed, task, .failed _, htask, .failsRead _ _⟩
    · rw [if_neg hfault] at hstep
      cases hstep
      exact ⟨alike_writeColumns .., .wrote, _, .written, named_setTasks htask, .writes _ _⟩
  | written =>
    rw [Tasks.step, get, call_query] at hstep
    have hafter : next = .answered (if choice.faults 0 then .error (.sqlite .fault)
        else .ok (store.named name)) ∧ after = store := by
      by_cases hfault : choice.faults 0 = true
      · rw [if_pos hfault] at hstep
        cases hstep
        exact ⟨by rw [if_pos hfault], rfl⟩
      · rw [if_neg hfault] at hstep
        cases hstep
        exact ⟨by rw [if_neg hfault], rfl⟩
    rw [hafter.1, hafter.2]
    exact ⟨.refl .., .wrote, task, .answered _, htask, .stays _ _⟩
  | answered | failed => cases hstep

/-! ## Runs of two edits -/

section Runs

variable {first second : Nat} {config alone : Config Store Position} {apart : Prop}
  {event : Event Choice Position}

/-- Two edits in the middle of a run, next to the run without them. -/
structure Together (first second : Nat) (name : Text) (request other : TaskUpdate)
    (columns : Columns) (config alone : Config Store Position) (apart : Prop) : Prop where
  /-- The edits make no difference but to their columns. -/
  alike : Alike name columns config.shared alone.shared
  /-- The other calls stand where they stand without the edits. -/
  same : ∀ id, id ≠ first → id ≠ second → config.calls id = alone.calls id
  spared : ∀ id position, id ≠ first → id ≠ second → config.calls id = some position →
    position = .finished ∨ ∃ operation, position = .operation operation ∧ operation.spares name = true
  /-- Without the edits nothing happens in their place. -/
  quietFirst : alone.calls first = some .finished
  quietSecond : alone.calls second = some .finished
  /-- Without the edits the columns stay. -/
  kept : ∃ row, alone.shared.named name = some row ∧ row.toColumns = columns
  /-- What the edits came to. -/
  course : ∃ position behind stage late row, config.calls first = some position ∧
    config.calls second = some behind ∧ Stands name request position stage ∧
    Stands name other behind late ∧ config.shared.named name = some row ∧
    Reaches request.merge other.merge columns stage late row.toColumns apart

namespace Together

theorem symm (h : Together first second name request other columns config alone apart) :
    Together second first name other request columns config alone apart where
  alike := h.alike
  same id hsecond hfirst := h.same id hfirst hsecond
  spared id position hsecond hfirst := h.spared id position hfirst hsecond
  quietFirst := h.quietSecond
  quietSecond := h.quietFirst
  kept := h.kept
  course := by
    obtain ⟨position, behind, stage, late, row, hfirst, hsecond, hstands, hlate, hrow, hreaches⟩ :=
      h.course
    exact ⟨behind, position, late, stage, row, hsecond, hfirst, hlate, hstands, hrow, hreaches.symm⟩

/-- The two edits are apart as far as their stages say. -/
theorem apart_iff {behind : Position} {late : Stage Columns} (hfirst : config.calls first = some position)
    (hsecond : config.calls second = some behind) (hstands : Stands name request position stage)
    (hlate : Stands name other behind late) :
    ApartAt columns config first second request ↔
      Apart request.merge columns stage late := by
  rw [ApartAt, Apart, hstands.wrote_iff hfirst, hlate.wrote_iff hsecond, hlate.unread_iff hsecond]

variable {now : Prop}

section

variable (h : Together first second name request other columns config alone apart)
include h

/-- A moment at which nothing happened. -/
theorem stays
    (hnow : now ↔ apart ∨ ApartAt columns config first second request ∨
      ApartAt columns config second first other) :
    Together first second name request other columns config alone now where
  alike := h.alike
  same := h.same
  spared := h.spared
  quietFirst := h.quietFirst
  quietSecond := h.quietSecond
  kept := h.kept
  course := by
    obtain ⟨position, behind, stage, late, row, hfirst, hsecond, hstands, hlate, hrow, hreaches⟩ :=
      h.course
    rw [apart_iff hfirst hsecond hstands hlate, apart_iff hsecond hfirst hlate hstands] at hnow
    exact ⟨position, behind, stage, late, row, hfirst, hsecond, hstands, hlate, hrow,
      .first hreaches (.stays _ _) hnow⟩

/-- An entry of the schedule about the first edit. -/
theorem ownEvent (hne : first ≠ second)
    (hevent : event.id = first)
    (hnow : now ↔ apart ∨ ApartAt columns ((edits name).next config event) first second request ∨
      ApartAt columns ((edits name).next config event) second first other) :
    Together first second name request other columns ((edits name).next config event)
      ((edits name).next alone event) now := by
  obtain ⟨position, behind, stage, late, row, hfirst, hsecond, hstands, hlate, hrow, hreaches⟩ :=
    h.course
  cases event with
  | start id new =>
    obtain rfl : id = first := hevent
    rw [System.next_start_of_some hfirst] at hnow ⊢
    rw [System.next_start_of_some h.quietFirst]
    exact h.stays hnow
  | step id choice =>
    obtain rfl : id = first := hevent
    rw [System.next_step_of_none h.quietFirst rfl]
    cases hstep : step position choice config.shared with
    | none =>
      rw [System.next_step_of_none hfirst hstep] at hnow ⊢
      exact h.stays hnow
    | some moved =>
      rw [System.next_step hfirst hstep] at hnow ⊢
      obtain ⟨halike, reached, last, hreached, hlast, hmoves⟩ := hstands.step columns hrow hstep
      have hstill : (config.move id moved.1 moved.2).calls second = some behind := by
        rw [Config.move_of_ne hne.symm]
        exact hsecond
      rw [apart_iff Config.move_self hstill hreached hlate,
        apart_iff hstill Config.move_self hlate hreached] at hnow
      constructor
      · exact halike.trans h.alike
      · intro other hother hlater
        rw [Config.move_of_ne hother]
        exact h.same other hother hlater
      · intro other position hother hlater hcall
        rw [Config.move_of_ne hother] at hcall
        exact h.spared other position hother hlater hcall
      · exact h.quietFirst
      · exact h.quietSecond
      · exact h.kept
      · exact ⟨moved.1, behind, reached, late, last, Config.move_self, hstill, hreached, hlate, hlast,
          .first hreaches hmoves hnow⟩

/-- Another call moves, and what it does to the tables spares the columns. -/
theorem moved {after twin : Store} {next : Position}
    (hfirst : id ≠ first) (hsecond : id ≠ second) (halike : Alike name columns after twin)
    (hkeeps : Operation.KeepsColumns name config.shared after)
    (hkept : Operation.KeepsColumns name alone.shared twin)
    (hnext : next = .finished ∨ ∃ operation, next = .operation operation ∧
      operation.spares name = true)
    (hnow : now ↔ apart ∨ ApartAt columns (config.move id next after) first second request ∨
      ApartAt columns (config.move id next after) second first other) :
    Together first second name request other columns (config.move id next after)
      (alone.move id next twin) now := by
  obtain ⟨position, behind, stage, late, row, hcall, hlater, hstands, hlate, hrow, hreaches⟩ :=
    h.course
  have hstill : (config.move id next after).calls first = some position := by
    rw [Config.move_of_ne hfirst.symm]
    exact hcall
  have hstillSecond : (config.move id next after).calls second = some behind := by
    rw [Config.move_of_ne hsecond.symm]
    exact hlater
  rw [apart_iff hstill hstillSecond hstands hlate, apart_iff hstillSecond hstill hlate hstands] at hnow
  constructor
  · exact halike
  · intro other hother hothers
    by_cases hsame : other = id
    · rw [hsame, Config.move_self, Config.move_self]
    · rw [Config.move_of_ne hsame, Config.move_of_ne hsame]
      exact h.same other hother hothers
  · intro other position hother hothers hposition
    rcases Config.calls_move hposition with ⟨-, rfl⟩ | ⟨-, hold⟩
    · exact hnext
    · exact h.spared other position hother hothers hold
  · rw [Config.move_of_ne hfirst.symm]
    exact h.quietFirst
  · rw [Config.move_of_ne hsecond.symm]
    exact h.quietSecond
  · obtain ⟨old, hold, hcolumns⟩ := h.kept
    obtain ⟨last, hlast, hsame⟩ := hkept old hold
    exact ⟨last, hlast, hsame.trans hcolumns⟩
  · obtain ⟨last, hlast, hsame⟩ := hkeeps row hrow
    refine ⟨position, behind, stage, late, last, hstill, hstillSecond, hstands, hlate, hlast, ?_⟩
    rw [hsame]
    exact .first hreaches (.stays _ _) hnow

/-- An entry of the schedule about another call. -/
theorem otherEvent
    (hfirst : event.id ≠ first) (hsecond : event.id ≠ second)
    (hnow : now ↔ apart ∨ ApartAt columns ((edits name).next config event) first second request ∨
      ApartAt columns ((edits name).next config event) second first other) :
    Together first second name request other columns ((edits name).next config event)
      ((edits name).next alone event) now := by
  cases event with
  | start id new =>
    have hsame : alone.calls id = config.calls id := (h.same id hfirst hsecond).symm
    cases hcall : config.calls id with
    | some position =>
      rw [System.next_start_of_some hcall] at hnow ⊢
      rw [System.next_start_of_some (hsame.trans hcall)]
      exact h.stays hnow
    | none =>
      cases hstarts : (edits name).starts new with
      | false =>
        rw [System.next_start_of_not hstarts] at hnow ⊢
        rw [System.next_start_of_not hstarts]
        exact h.stays hnow
      | true =>
        rw [System.next_start hcall hstarts] at hnow ⊢
        rw [System.next_start (hsame.trans hcall) hstarts]
        refine h.moved hfirst hsecond h.alike (refl_of _ _) (refl_of _ _) (Or.inr ?_) hnow
        cases new with
        | operation operation => exact ⟨operation, rfl, hstarts⟩
        | reading | writing | written | answered | failed | finished => cases hstarts
  | step id choice =>
    have hsame : alone.calls id = config.calls id := (h.same id hfirst hsecond).symm
    cases hcall : config.calls id with
    | none =>
      rw [System.next_step_of_idle hcall] at hnow ⊢
      rw [System.next_step_of_idle (hsame.trans hcall)]
      exact h.stays hnow
    | some position =>
      rcases h.spared id position hfirst hsecond hcall with rfl | ⟨operation, rfl, hspares⟩
      · rw [System.next_step_of_none hcall rfl] at hnow ⊢
        rw [System.next_step_of_none (hsame.trans hcall) rfl]
        exact h.stays hnow
      · have hstep : ∀ store : Store, (edits name).step (.operation operation) choice store =
            some (.finished, operation.after choice.faults store) := fun _ => rfl
        rw [System.next_step hcall (hstep _)] at hnow ⊢
        rw [System.next_step (hsame.trans hcall) (hstep _)]
        exact h.moved hfirst hsecond (Operation.blind hspares _ _ h.alike).2
          (Operation.keepsColumns hspares _) (Operation.keepsColumns hspares _) (Or.inl rfl) hnow

end

end Together

/-- At some moment of the schedule one edit had written and the other one had not, and it had not read
either, or the first one to write had changed none of the columns. -/
def ApartOnTheWay (first second : Nat) (name : Text) (request other : TaskUpdate)
    (columns : Columns) (config : Config Store Position) (events : List (Event Choice Position)) :
    Prop :=
  ∃ past, past <+: events ∧
    (ApartAt columns ((edits name).run config past) first second request ∨
      ApartAt columns ((edits name).run config past) second first other)

theorem apartOnTheWay_snoc {events : List (Event Choice Position)} :
    ApartOnTheWay first second name request other columns config (events ++ [event]) ↔
      ApartOnTheWay first second name request other columns config events ∨
      ApartAt columns ((edits name).next ((edits name).run config events) event) first second
        request ∨
      ApartAt columns ((edits name).next ((edits name).run config events) event) second first
        other := by
  have hlast : (edits name).run config (events ++ [event]) =
      (edits name).next ((edits name).run config events) event := System.run_append events [event]
  constructor
  · rintro ⟨past, hpast, hapart⟩
    rcases List.prefix_concat_iff.mp hpast with rfl | hearlier
    · rw [hlast] at hapart
      exact Or.inr hapart
    · exact Or.inl ⟨past, hearlier, hapart⟩
  · rintro (⟨past, hpast, hapart⟩ | hapart)
    · exact ⟨past, hpast.trans (List.prefix_append events [event]), hapart⟩
    · exact ⟨events ++ [event], List.prefix_refl _, by rw [hlast]; exact hapart⟩

/-- At every moment of a run the edits have come to what they can come to. -/
theorem together_run {row : Task} (hne : first ≠ second) (hrow : store.named name = some row)
    (events : List (Event Choice Position)) :
    Together first second name request other row.toColumns
      ((edits name).run (together first second name request other store) events)
      ((edits name).run (without first second store) events)
      (ApartOnTheWay first second name request other row.toColumns
        (together first second name request other store) events) := by
  induction events using List.reverseRecOn with
  | nil =>
    have hcallFirst : (together first second name request other store).calls first =
        some (.reading name request) := if_pos rfl
    have hcallSecond : (together first second name request other store).calls second =
        some (.reading name other) := (if_neg hne.symm).trans (if_pos rfl)
    have hnever : ApartOnTheWay first second name request other row.toColumns
        (together first second name request other store) [] ↔ False := by
      rw [iff_false]
      rintro ⟨past, hpast, hapart⟩
      obtain rfl := List.prefix_nil.mp hpast
      rcases hapart with ⟨hwrote, -⟩ | ⟨hwrote, -⟩
      · exact absurd ((Stands.reading.wrote_iff hcallFirst).mp hwrote) (by simp)
      · exact absurd ((Stands.reading.wrote_iff hcallSecond).mp hwrote) (by simp)
    constructor
    · exact .refl ..
    · intro id hfirst hsecond
      exact ((if_neg hfirst).trans (if_neg hsecond)).trans (if_neg (by simp [hfirst, hsecond])).symm
    · intro id position hfirst hsecond hcall
      have hnone : (together first second name request other store).calls id = none :=
        (if_neg hfirst).trans (if_neg hsecond)
      cases hnone.symm.trans hcall
    · exact if_pos (Or.inl rfl)
    · exact if_pos (Or.inr rfl)
    · exact ⟨row, hrow, rfl⟩
    · refine ⟨_, _, _, _, row, hcallFirst, hcallSecond, .reading, .reading, hrow, ?_⟩
      rw [propext hnever]
      exact .start
  | append_singleton events event ih =>
    rw [System.run_append, System.run_append]
    by_cases hfirst : event.id = first
    · exact ih.ownEvent hne hfirst apartOnTheWay_snoc
    · by_cases hsecond : event.id = second
      · exact (ih.symm.ownEvent hne.symm hsecond
          (apartOnTheWay_snoc.trans (or_congr_right or_comm))).symm
      · exact ih.otherEvent hfirst hsecond apartOnTheWay_snoc

end Runs

/-- What two requests without a common column do to the columns of a task. -/
theorem TaskUpdate.Disjoint.independent (h : request.Disjoint other) :
    Independent request.merge other.merge where
  comm := merge_comm h
  kept := merge_kept_iff h
  keptOther := merge_kept_iff h.symm

/-- Two edits that set different columns, in a run with any other operations, both end in the row of
the task, if and only if they were apart at some moment, or the first one to write changed
nothing. -/
theorem updates_merged_iff {first second : Nat} {row : Task} (hne : first ≠ second)
    (hrow : store.named name = some row) (hdisjoint : request.Disjoint other)
    (events : List (Event Choice Position))
    (hfirst : Wrote ((edits name).run (together first second name request other store) events) first)
    (hsecond : Wrote ((edits name).run (together first second name request other store) events)
      second) :
    Merged name request other
        ((edits name).run (together first second name request other store) events).shared
        ((edits name).run (without first second store) events).shared ↔
      ApartOnTheWay first second name request other row.toColumns
        (together first second name request other store) events := by
  have htogether : Together first second name request other row.toColumns
      ((edits name).run (together first second name request other store) events)
      ((edits name).run (without first second store) events)
      (ApartOnTheWay first second name request other row.toColumns
        (together first second name request other store) events) := together_run hne hrow events
  obtain ⟨position, behind, stage, late, last, hcall, hlater, hstands, hlate, hlast, hreaches⟩ :=
    htogether.course
  obtain ⟨row', hrow', hcolumns⟩ := htogether.kept
  obtain rfl := (hstands.wrote_iff hcall).mp hfirst
  obtain rfl := (hlate.wrote_iff hlater).mp hsecond
  rw [← hreaches.value_iff hdisjoint.independent, ← hcolumns]
  obtain ⟨alone, halone, hsame⟩ := htogether.alike.named hlast
  obtain rfl : alone = row' := Option.some.inj (halone.symm.trans hrow')
  constructor
  · rintro ⟨other, found, hother, hfound, hmerged⟩
    obtain rfl : last = other := Option.some.inj (hlast.symm.trans hother)
    obtain rfl : alone = found := Option.some.inj (hrow'.symm.trans hfound)
    rw [hmerged]
  · intro hmerged
    refine ⟨last, alone, hlast, hrow', ?_⟩
    rw [← hmerged]
    exact hsame

/-! ## Two edits of a sample task -/

/-- A request for another description. -/
def describe : TaskUpdate := { description := some ['e'] }

/-- A request for another model. -/
def remodel : TaskUpdate := { model := some (some ['m']) }

theorem describe_disjoint_remodel : describe.Disjoint remodel :=
  ⟨Or.inr rfl, Or.inl rfl, Or.inl rfl, Or.inl rfl, Or.inl rfl, Or.inl rfl⟩

/-- The steps that calls take in turn, with nothing failing. -/
def turns (ids : List Nat) : List (Event Choice Position) :=
  ids.map fun id => .step id ⟨fun _ => false, 9⟩

/-- The run of both requests over a task that nobody evaluated yet. -/
def sampleRun (ids : List Nat) : Config Store Position :=
  (edits ['t']).run (together 0 1 ['t'] describe remodel (oneTask (sampleTask ['x'] ['t']))) (turns ids)

theorem updates_merged_sample :
    Merged ['t'] describe remodel (sampleRun [0, 0, 1, 1]).shared
        ((edits ['t']).run (without 0 1 (oneTask (sampleTask ['x'] ['t']))) (turns [0, 0, 1, 1])).shared ↔
      ApartOnTheWay 0 1 ['t'] describe remodel (sampleTask ['x'] ['t']).toColumns
        (together 0 1 ['t'] describe remodel (oneTask (sampleTask ['x'] ['t'])))
        (turns [0, 0, 1, 1]) :=
  updates_merged_iff (by decide) rfl describe_disjoint_remodel (turns [0, 0, 1, 1]) ⟨_, rfl, rfl⟩
    ⟨_, rfl, rfl⟩

/-- Both edits read before either writes: the second one to write puts the old description back. -/
theorem description_lost :
    Wrote (sampleRun [0, 1, 0, 1]) 0 ∧ Wrote (sampleRun [0, 1, 0, 1]) 1 ∧
      ¬Merged ['t'] describe remodel (sampleRun [0, 1, 0, 1]).shared
        ((edits ['t']).run (without 0 1 (oneTask (sampleTask ['x'] ['t'])))
          (turns [0, 1, 0, 1])).shared := by
  refine ⟨⟨_, rfl, rfl⟩, ⟨_, rfl, rfl⟩, ?_⟩
  rintro ⟨last, row, hlast, -, hmerged⟩
  have hfound : ((sampleRun [0, 1, 0, 1]).shared.named ['t']).map (·.description) = some ['d'] := by
    decide
  rw [hlast, hmerged] at hfound
  cases hfound

end Awman.Tasks
