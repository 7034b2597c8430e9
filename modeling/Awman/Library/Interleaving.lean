import Mathlib.Logic.Function.Basic
import Mathlib.Tactic.Common

/-!
# Calls that run interleaved over a shared state

Any number of calls run at the same time.  A call is at a position of its program, and one step
moves it to another position and changes the shared state; a schedule says which call starts or
takes its next step.  What every step keeps holds after every schedule, and a rule about single
steps may look at where the other calls stand.
-/

namespace Awman.Interleaving

/-- A system of calls at positions `κ` over a shared state `σ`; `ι` is what a step may choose. -/
structure System (ι σ κ : Type) where
  starts : κ → Bool
  /-- One step of a call, `none` when it is over, has to wait or cannot choose so. -/
  step : κ → ι → σ → Option (κ × σ)

/-- The shared state and where each call stands. -/
structure Config (σ κ : Type) where
  shared : σ
  /-- Where each call stands that has started. -/
  calls : Nat → Option κ

/-- One entry of a schedule. -/
inductive Event (ι κ : Type) where
  | start (id : Nat) (position : κ)
  | step (id : Nat) (choice : ι)

variable {ι σ κ : Type}

/-- The call an entry is about. -/
def Event.id : Event ι κ → Nat
  | .start id _ => id
  | .step id _ => id

namespace Config

/-- The configuration in which no call has started. -/
def idle (shared : σ) : Config σ κ := ⟨shared, fun _ => none⟩

/-- A call moves to a position and leaves a shared state. -/
def move (config : Config σ κ) (id : Nat) (position : κ) (shared : σ) : Config σ κ :=
  ⟨shared, Function.update config.calls id (some position)⟩

/-- Some call stands at such a position. -/
def Some (config : Config σ κ) (stands : κ → Prop) : Prop :=
  ∃ id position, config.calls id = some position ∧ stands position

/-- Every call stands at such a position. -/
def Every (config : Config σ κ) (stands : κ → Prop) : Prop :=
  ∀ id position, config.calls id = some position → stands position

variable {config : Config σ κ} {id other : Nat} {old position : κ} {shared : σ}
  {stands others : κ → Prop}

@[simp] theorem move_shared : (config.move id position shared).shared = shared := rfl

@[simp] theorem move_self : (config.move id position shared).calls id = some position := by
  simp [move]

theorem move_of_ne (hother : other ≠ id) :
    (config.move id position shared).calls other = config.calls other := by
  simp [move, hother]

/-- Where a call stands after a move: it is the one that moved, or stands where it stood. -/
theorem calls_move (h : (config.move id position shared).calls other = some old) :
    other = id ∧ old = position ∨ other ≠ id ∧ config.calls other = some old := by
  by_cases hsame : other = id
  · rw [hsame, move_self] at h
    exact Or.inl ⟨hsame, (Option.some.inj h).symm⟩
  · rw [move_of_ne hsame] at h
    exact Or.inr ⟨hsame, h⟩

theorem not_some_idle : ¬(idle shared : Config σ κ).Some stands := by
  rintro ⟨id, position, hposition, -⟩
  cases hposition

/-- The call that moved stands at its new position. -/
theorem Some.moved (h : stands position) : (config.move id position shared).Some stands :=
  ⟨id, position, move_self, h⟩

/-- A call that stood at such a position still does, if the one that moved does. -/
theorem Some.stays (h : config.Some stands) (hold : config.calls id = some old)
    (hkept : stands old → stands position) : (config.move id position shared).Some stands := by
  obtain ⟨other, at_, hother, hstands⟩ := h
  by_cases hsame : other = id
  · have hfound : at_ = old := by
      rw [hsame, hold] at hother
      exact (Option.some.inj hother).symm
    exact Some.moved (hkept (hfound ▸ hstands))
  · exact ⟨other, at_, by rw [move_of_ne hsame]; exact hother, hstands⟩

/-- A call that stood at such a position still does when a new call starts. -/
theorem Some.started (h : config.Some stands) (hnew : config.calls id = none) :
    (config.move id position shared).Some stands := by
  obtain ⟨other, at_, hother, hstands⟩ := h
  have hne : other ≠ id := by
    rintro rfl
    rw [hnew] at hother
    cases hother
  exact ⟨other, at_, by rw [move_of_ne hne]; exact hother, hstands⟩

/-- Who stands at such a position after a move is the call that moved, or stood there before. -/
theorem Some.before (h : (config.move id position shared).Some stands) :
    stands position ∨ ∃ other, other ≠ id ∧ ∃ at_, config.calls other = some at_ ∧ stands at_ := by
  obtain ⟨other, at_, hother, hstands⟩ := h
  by_cases hsame : other = id
  · rw [hsame, move_self] at hother
    exact Or.inl (Option.some.inj hother ▸ hstands)
  · rw [move_of_ne hsame] at hother
    exact Or.inr ⟨other, hsame, at_, hother, hstands⟩

theorem Some.before' (h : (config.move id position shared).Some stands) :
    stands position ∨ config.Some stands := by
  rcases Some.before h with hmoved | ⟨other, -, at_, hother, hstands⟩
  · exact Or.inl hmoved
  · exact Or.inr ⟨other, at_, hother, hstands⟩

/-- Who stands at such a position after a call has moved on, if it does where it did before. -/
theorem some_enter_iff (hold : config.calls id = some old) (hkept : stands old → stands position) :
    (config.move id position shared).Some stands ↔ stands position ∨ config.Some stands := by
  constructor
  · exact Some.before'
  · rintro (hmoved | hbefore)
    · exact Some.moved hmoved
    · exact hbefore.stays hold hkept

/-- A move between two positions of which both or neither is such one changes nothing about who
stands there. -/
theorem some_move_iff (hold : config.calls id = some old) (hsame : stands position ↔ stands old) :
    (config.move id position shared).Some stands ↔ config.Some stands := by
  constructor
  · intro h
    rcases Some.before' h with hmoved | hbefore
    · exact ⟨id, old, hold, hsame.mp hmoved⟩
    · exact hbefore
  · intro h
    exact h.stays hold hsame.mpr

/-- A call that starts elsewhere changes nothing about who stands at such a position. -/
theorem some_start_iff (hnew : config.calls id = none) (hnot : ¬stands position) :
    (config.move id position shared).Some stands ↔ config.Some stands := by
  constructor
  · intro h
    exact (Some.before' h).resolve_left hnot
  · intro h
    exact h.started hnew

theorem Every.moved (h : config.Every stands) (hposition : stands position) :
    (config.move id position shared).Every stands := by
  intro other at_ hother
  by_cases hsame : other = id
  · rw [hsame, move_self] at hother
    exact Option.some.inj hother ▸ hposition
  · rw [move_of_ne hsame] at hother
    exact h other at_ hother

theorem Every.not_some (h : config.Every stands) (hnot : ∀ position, stands position →
    ¬others position) : ¬config.Some others :=
  fun ⟨id, position, hposition, hothers⟩ => hnot position (h id position hposition) hothers

end Config

namespace System

variable {system : System ι σ κ} {config : Config σ κ} {inv : Config σ κ → Prop}
  {allowed : Config σ κ → Event ι κ → Prop}

/-- One entry of a schedule.  What cannot happen changes nothing. -/
def next (system : System ι σ κ) (config : Config σ κ) : Event ι κ → Config σ κ
  | .start id position =>
    if (config.calls id).isNone && system.starts position then
      config.move id position config.shared
    else config
  | .step id choice =>
    match (config.calls id).bind fun position => system.step position choice config.shared with
    | some (position, shared) => config.move id position shared
    | none => config

/-- A whole schedule. -/
def run (system : System ι σ κ) (config : Config σ κ) (events : List (Event ι κ)) : Config σ κ :=
  events.foldl system.next config

theorem run_cons (event : Event ι κ) (events : List (Event ι κ)) :
    system.run config (event :: events) = system.run (system.next config event) events := rfl

theorem run_append (first second : List (Event ι κ)) :
    system.run config (first ++ second) = system.run (system.run config first) second :=
  List.foldl_append

theorem next_start {id : Nat} {position : κ} (hnew : config.calls id = none)
    (hstarts : system.starts position = true) :
    system.next config (.start id position) = config.move id position config.shared := by
  exact if_pos (by rw [hnew, hstarts]; rfl)

variable {choice : ι} {event : Event ι κ} {events : List (Event ι κ)}

theorem next_step {id : Nat} {old position : κ} {shared : σ} (hold : config.calls id = some old)
    (hstep : system.step old choice config.shared = some (position, shared)) :
    system.next config (.step id choice) = config.move id position shared := by
  rw [System.next, hold, Option.bind_some, hstep]

theorem next_start_of_some {id : Nat} {position old : κ} (hold : config.calls id = some old) :
    system.next config (.start id position) = config := by
  exact if_neg (by rw [hold]; simp)

theorem next_start_of_not {id : Nat} {position : κ} (hnot : system.starts position = false) :
    system.next config (.start id position) = config := by
  exact if_neg (by rw [hnot]; simp)

theorem next_step_of_none {id : Nat} {old : κ} (hold : config.calls id = some old)
    (hstep : system.step old choice config.shared = none) :
    system.next config (.step id choice) = config := by
  rw [System.next, hold, Option.bind_some, hstep]

theorem next_step_of_idle {id : Nat} (hnew : config.calls id = none) :
    system.next config (.step id choice) = config := by
  rw [System.next, hnew, Option.bind_none]

/-- What an entry of a schedule does: nothing, start a call, or move one. -/
theorem next_cases (system : System ι σ κ) (config : Config σ κ) (event : Event ι κ) :
    system.next config event = config ∨
    (∃ id position, event = .start id position ∧ config.calls id = none ∧
      system.starts position = true ∧
      system.next config event = config.move id position config.shared) ∨
    ∃ id choice old position shared, event = .step id choice ∧ config.calls id = some old ∧
      system.step old choice config.shared = some (position, shared) ∧
      system.next config event = config.move id position shared := by
  cases event with
  | start id position =>
    by_cases hstart : ((config.calls id).isNone && system.starts position) = true
    · have hmoved : system.next config (.start id position) =
          config.move id position config.shared := if_pos hstart
      rw [Bool.and_eq_true, Option.isNone_iff_eq_none] at hstart
      exact Or.inr (Or.inl ⟨id, position, rfl, hstart.1, hstart.2, hmoved⟩)
    · exact Or.inl (if_neg hstart)
  | step id choice =>
    cases hstep : (config.calls id).bind fun position =>
        system.step position choice config.shared with
    | none =>
      have hsame : system.next config (.step id choice) = config := by rw [System.next, hstep]
      exact Or.inl hsame
    | some moved =>
      obtain ⟨old, hold, hmove⟩ := Option.bind_eq_some_iff.mp hstep
      have hmoved : system.next config (.step id choice) = config.move id moved.1 moved.2 := by
        rw [System.next, hstep]
      exact Or.inr (Or.inr ⟨id, choice, old, moved.1, moved.2, rfl, hold, hmove, hmoved⟩)

theorem next_calls_of_ne {id : Nat} (hother : event.id ≠ id) :
    (system.next config event).calls id = config.calls id := by
  rcases system.next_cases config event with hsame | ⟨started, position, rfl, -, -, hmoved⟩ |
    ⟨moved, choice, old, position, shared, rfl, -, -, hmoved⟩
  · rw [hsame]
  · rw [hmoved]
    exact Config.move_of_ne hother.symm
  · rw [hmoved]
    exact Config.move_of_ne hother.symm

/-- A call that a schedule is not about stays where it is. -/
theorem run_calls_of_ne {id : Nat} (hother : ∀ event ∈ events, event.id ≠ id) :
    (system.run config events).calls id = config.calls id := by
  induction events generalizing config with
  | nil => rfl
  | cons event rest ih =>
    rw [run_cons, ih fun later hlater => hother later (List.mem_cons_of_mem event hlater)]
    exact next_calls_of_ne (hother event List.mem_cons_self)

/-- After a schedule, as before it, there are calls that have not started. -/
theorem run_unused {bound : Nat} (hbound : ∀ id, bound ≤ id → config.calls id = none) :
    ∃ id, (system.run config events).calls id = none := by
  have hids : ∃ most, bound ≤ most ∧ ∀ event ∈ events, event.id < most := by
    clear hbound
    induction events with
    | nil => exact ⟨bound, Nat.le_refl bound, fun event hevent => absurd hevent (by simp)⟩
    | cons event rest ih =>
      obtain ⟨most, hmost, hall⟩ := ih
      refine ⟨max most (event.id + 1), by omega, ?_⟩
      intro other hother
      rcases List.mem_cons.mp hother with rfl | hother
      · omega
      · have hless := hall other hother
        omega
  obtain ⟨most, hmost, hall⟩ := hids
  refine ⟨most, ?_⟩
  rw [run_calls_of_ne fun event hevent => Nat.ne_of_lt (hall event hevent)]
  exact hbound most hmost

/-- Every call of a schedule that starts with none stands at such a position, if those of its
entries do. -/
theorem every_run_idle {stands : κ → Bool} {shared : σ}
    (h : (events.all fun event =>
      ((system.run (Config.idle shared) events).calls event.id).all stands) = true) :
    (system.run (Config.idle shared) events).Every (stands · = true) := by
  intro id position hposition
  by_cases habout : ∃ event ∈ events, event.id = id
  · obtain ⟨event, hevent, rfl⟩ := habout
    have hall := List.all_eq_true.mp h event hevent
    simpa [hposition] using hall
  · rw [run_calls_of_ne fun event hevent heq => habout ⟨event, hevent, heq⟩] at hposition
    cases hposition

/-- Every entry of the schedule is allowed where it happens. -/
def Meets (system : System ι σ κ) (allowed : Config σ κ → Event ι κ → Prop) (config : Config σ κ) :
    List (Event ι κ) → Prop
  | [] => True
  | event :: rest => allowed config event ∧ Meets system allowed (system.next config event) rest

theorem meets_append {first second : List (Event ι κ)} :
    system.Meets allowed config (first ++ second) ↔
      system.Meets allowed config first ∧ system.Meets allowed (system.run config first) second := by
  induction first generalizing config with
  | nil => simp [Meets, run]
  | cons event rest ih => rw [List.cons_append, Meets, Meets, ih, run_cons, and_assoc]

/-- A schedule meets a rule if and only if each entry does where it happens. -/
theorem meets_iff :
    system.Meets allowed config events ↔ ∀ count event, events[count]? = some event →
      allowed (system.run config (events.take count)) event := by
  induction events generalizing config with
  | nil => simp [Meets]
  | cons first rest ih =>
    rw [Meets, ih]
    constructor
    · rintro ⟨hfirst, hrest⟩ count event hevent
      cases count with
      | zero =>
        cases hevent
        exact hfirst
      | succ count => exact hrest count event hevent
    · intro hall
      exact ⟨hall 0 first rfl, fun count event hevent => hall (count + 1) event hevent⟩

theorem Meets.take (h : system.Meets allowed config events) (count : Nat) :
    system.Meets allowed config (events.take count) := by
  rw [← List.take_append_drop count events, meets_append] at h
  exact h.1

theorem run_take_succ {count : Nat} (hevent : events[count]? = some event) :
    system.run config (events.take (count + 1)) =
      system.next (system.run config (events.take count)) event := by
  rw [List.take_add_one, hevent, run_append]
  rfl

/-- A schedule that may always do what it does meets the rule. -/
theorem meets_of_always (h : ∀ config event, allowed config event) (events : List (Event ι κ)) :
    system.Meets allowed config events := by
  induction events generalizing config with
  | nil => trivial
  | cons event rest ih => exact ⟨h config event, ih⟩

/-- What starting a call and each allowed step of a call keep, an entry of a schedule keeps. -/
structure Preserves (system : System ι σ κ) (allowed : Config σ κ → Event ι κ → Prop)
    (inv : Config σ κ → Prop) : Prop where
  start : ∀ {config id position}, inv config → config.calls id = none →
    system.starts position = true → inv (config.move id position config.shared)
  step : ∀ {config id choice old position shared}, inv config →
    allowed config (.step id choice) → config.calls id = some old →
    system.step old choice config.shared = some (position, shared) →
    inv (config.move id position shared)

theorem Preserves.next (hkeeps : system.Preserves allowed inv) (hinv : inv config)
    (hallowed : allowed config event) : inv (system.next config event) := by
  rcases system.next_cases config event with hsame | ⟨id, position, rfl, hnew, hstarts, hmoved⟩ |
    ⟨id, choice, old, position, shared, rfl, hold, hstep, hmoved⟩
  · rw [hsame]
    exact hinv
  · rw [hmoved]
    exact hkeeps.start hinv hnew hstarts
  · rw [hmoved]
    exact hkeeps.step hinv hallowed hold hstep

/-- What every allowed entry keeps holds after every schedule that meets the rule. -/
theorem Preserves.run (hkeeps : system.Preserves allowed inv) (hinv : inv config)
    (hmeets : system.Meets allowed config events) :
    inv (system.run config events) := by
  induction events generalizing config with
  | nil => exact hinv
  | cons event rest ih => exact ih (hkeeps.next hinv hmeets.1) hmeets.2

end System

end Awman.Interleaving
