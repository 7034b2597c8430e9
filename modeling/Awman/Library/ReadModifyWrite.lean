import Mathlib.Tactic.Common

/-!
# Two editors that read, modify and write back

Two editors change one value: each reads it, and later writes back what its edit makes of what it
read.  When the edits do not get in each other's way, the value ends with both of them if and only
if the second editor to write had not read before the first one wrote, or the first edit changed
nothing.
-/

namespace Awman.ReadModifyWrite

variable {V : Type}

/-- How far an editor is. -/
inductive Stage (V : Type) where
  | unread
  /-- It has read a value and not written. -/
  | read (seen : V)
  | wrote
  /-- It gave up before it wrote. -/
  | failed

/-- One move of an editor, with the value before and after. -/
inductive Moves (edit : V → V) : Stage V → V → Stage V → V → Prop where
  | stays (stage : Stage V) (value : V) : Moves edit stage value stage value
  | reads (value : V) : Moves edit .unread value (.read value) value
  | writes (seen value : V) : Moves edit (.read seen) value .wrote (edit seen)
  | failsUnread (value : V) : Moves edit .unread value .failed value
  | failsRead (seen value : V) : Moves edit (.read seen) value .failed value

/-- Two edits that commute, each of which restores what it does not change. -/
structure Independent (edit other : V → V) : Prop where
  /-- The order does not matter. -/
  comm : ∀ value, edit (other value) = other (edit value)
  /-- The second edit of the old value loses the first, unless that changed nothing. -/
  kept : ∀ value, other value = other (edit value) ↔ edit value = value
  /-- The same with the edits exchanged. -/
  keptOther : ∀ value, edit value = edit (other value) ↔ other value = value

theorem Independent.symm {edit other : V → V} (h : Independent edit other) :
    Independent other edit := ⟨fun value => (h.comm value).symm, h.keptOther, h.kept⟩

/-- One editor has written, and the other one has not; it has not read either, or there is nothing
to lose. -/
def Apart (edit : V → V) (start : V) (done waiting : Stage V) : Prop :=
  done = .wrote ∧ waiting ≠ .wrote ∧ (waiting = .unread ∨ edit start = start)

/-- The stages of both editors and the value that they can come to, and whether they were apart at
some moment on the way. -/
inductive Reaches (edit other : V → V) (start : V) : Stage V → Stage V → V → Prop → Prop where
  | start : Reaches edit other start .unread .unread start False
  | first {first second next : Stage V} {value changed : V} {before after : Prop}
      (hbefore : Reaches edit other start first second value before)
      (hmoves : Moves edit first value next changed)
      (hafter : after ↔ before ∨ Apart edit start next second ∨ Apart other start second next) :
      Reaches edit other start next second changed after
  | second {first second next : Stage V} {value changed : V} {before after : Prop}
      (hbefore : Reaches edit other start first second value before)
      (hmoves : Moves other second value next changed)
      (hafter : after ↔ before ∨ Apart edit start first next ∨ Apart other start next first) :
      Reaches edit other start first next changed after

variable {edit other : V → V} {start value : V} {first second : Stage V} {apart : Prop}

theorem Reaches.symm (h : Reaches edit other start first second value apart) :
    Reaches other edit start second first value apart := by
  induction h with
  | start => exact .start
  | first hbefore hmoves hafter ih => exact .second ih hmoves (hafter.trans (or_congr_right or_comm))
  | second hbefore hmoves hafter ih => exact .first ih hmoves (hafter.trans (or_congr_right or_comm))

/-- An editor that has written nothing and seen nothing but the value at the start. -/
def Fresh (start : V) (stage : Stage V) : Prop := stage = .unread ∨ stage = .read start

/-- One editor has written; what the other one has read tells whether they were apart. -/
def Half (edit : V → V) (start : V) (done waiting : Stage V) (value : V) (apart : Prop) : Prop :=
  done = .wrote ∧ value = edit start ∧
    (waiting = .unread ∧ apart ∨
      ∃ seen, waiting = .read seen ∧ (seen = start ∨ seen = edit start) ∧
        (seen = edit start ↔ apart))

/-- What holds of the stages and the value all the way. -/
inductive Holds (edit other : V → V) (start : V) (first second : Stage V) (value : V)
    (apart : Prop) : Prop where
  | neither (hfirst : Fresh start first) (hsecond : Fresh start second) (hvalue : value = start)
      (hapart : ¬apart)
  | onlyFirst (h : Half edit start first second value apart)
  | onlySecond (h : Half other start second first value apart)
  | both (hfirst : first = .wrote) (hsecond : second = .wrote)
      (hvalue : value = edit (other start) ↔ apart)
  | failed (h : first = .failed ∨ second = .failed)

theorem Holds.symm (hedits : Independent edit other)
    (h : Holds edit other start first second value apart) :
    Holds other edit start second first value apart := by
  cases h with
  | neither hfirst hsecond hvalue hapart => exact .neither hsecond hfirst hvalue hapart
  | onlyFirst h => exact .onlySecond h
  | onlySecond h => exact .onlyFirst h
  | both hfirst hsecond hvalue => exact .both hsecond hfirst (hedits.comm start ▸ hvalue)
  | failed h => exact .failed h.symm

variable {waiting : Stage V} {after : Prop}

theorem not_apart_of_fresh (h : Fresh start first) : ¬Apart edit start first waiting := by
  rintro ⟨hwrote, -⟩
  rcases h with hfirst | hfirst
  · rw [hfirst] at hwrote
    cases hwrote
  · rw [hfirst] at hwrote
    cases hwrote

/-- An editor that has not written is not apart from anything. -/
theorem not_apart {done : Stage V} (h : done ≠ .wrote) : ¬Apart edit start done waiting :=
  fun hapart => h hapart.1

theorem Half.waiting_ne {done : Stage V} (h : Half edit start done waiting value apart) :
    waiting ≠ .wrote := by
  rintro rfl
  rcases h.2.2 with ⟨hwaiting, -⟩ | ⟨seen, hwaiting, -⟩ <;> cases hwaiting

/-- The moments at which nothing new happens tell nothing new. -/
theorem Half.stays {done : Stage V} (h : Half edit start done waiting value apart)
    (hafter : after ↔ apart ∨ Apart edit start done waiting ∨ Apart other start waiting done) :
    Half edit start done waiting value after := by
  have hwaiting := h.waiting_ne
  rw [or_iff_left (not_apart hwaiting)] at hafter
  obtain ⟨hdone, hvalue, hunread | ⟨seen, hread, hseen, hiff⟩⟩ := h
  · exact ⟨hdone, hvalue, Or.inl ⟨hunread.1, hafter.mpr (Or.inl hunread.2)⟩⟩
  · refine ⟨hdone, hvalue, Or.inr ⟨seen, hread, hseen, ?_⟩⟩
    constructor
    · intro hsame
      exact hafter.mpr (Or.inl (hiff.mp hsame))
    · intro hnew
      rcases hafter.mp hnew with hold | ⟨-, -, hunread | hnothing⟩
      · exact hiff.mpr hold
      · rw [hread] at hunread
        cases hunread
      · rcases hseen with hsame | hsame
        · rw [hsame, hnothing]
        · exact hsame

/-- The first editor writes what it made of the value at the start. -/
theorem Half.wrote {second : Stage V} (hsecond : Fresh start second)
    (hafter : after ↔ Apart edit start .wrote second) :
    Half edit start .wrote second (edit start) after := by
  refine ⟨rfl, rfl, ?_⟩
  rcases hsecond with rfl | rfl
  · have hapart : Apart edit start .wrote .unread := ⟨rfl, by simp, Or.inl rfl⟩
    exact Or.inl ⟨rfl, hafter.mpr hapart⟩
  · refine Or.inr ⟨start, rfl, Or.inl rfl, ?_⟩
    rw [hafter]
    constructor
    · intro hsame
      exact ⟨rfl, by simp, Or.inr hsame.symm⟩
    · rintro ⟨-, -, hunread | hnothing⟩
      · cases hunread
      · exact hnothing.symm

/-- A move of the first editor keeps what holds. -/
theorem Holds.move (hedits : Independent edit other) {next : Stage V} {changed : V}
    (h : Holds edit other start first second value apart) (hmoves : Moves edit first value next changed)
    (hafter : after ↔ apart ∨ Apart edit start next second ∨ Apart other start second next) :
    Holds edit other start next second changed after := by
  cases h with
  | neither hfirst hsecond hvalue hapart =>
    rw [or_iff_right hapart, or_iff_left (not_apart_of_fresh hsecond)] at hafter
    have hstill : Fresh start next → changed = start →
        Holds edit other start next second changed after := fun hnext hchanged =>
      .neither hnext hsecond hchanged fun h => not_apart_of_fresh hnext (hafter.mp h)
    cases hmoves with
    | stays => exact hstill hfirst hvalue
    | reads => exact hstill (Or.inr (by rw [hvalue])) hvalue
    | writes seen =>
      have hseen : seen = start := by
        rcases hfirst with hfirst | hfirst
        · cases hfirst
        · exact Stage.read.inj hfirst
      rw [hseen]
      exact .onlyFirst (Half.wrote hsecond hafter)
    | failsUnread | failsRead => exact .failed (Or.inl rfl)
  | onlyFirst h =>
    obtain rfl : first = .wrote := h.1
    cases hmoves
    exact .onlyFirst (h.stays hafter)
  | onlySecond h =>
    cases hmoves with
    | stays => exact .onlySecond (h.stays (hafter.trans (or_congr_right or_comm)))
    | reads =>
      obtain ⟨hwrote, hvalue, ⟨-, hapart⟩ | ⟨seen, hread, -⟩⟩ := h
      · have htrue : after := hafter.mpr (Or.inl hapart)
        exact .onlySecond ⟨hwrote, hvalue, Or.inr
          ⟨value, rfl, Or.inr hvalue, iff_of_true hvalue htrue⟩⟩
      · cases hread
    | writes seen =>
      obtain ⟨hwrote, hvalue, ⟨hunread, -⟩ | ⟨read, hread, hseen, hiff⟩⟩ := h
      · cases hunread
      · obtain rfl : seen = read := Stage.read.inj hread
        have hnot : ¬(Apart edit start Stage.wrote second ∨ Apart other start second Stage.wrote) := by
          rintro (⟨-, hsecond, -⟩ | ⟨-, hfirst, -⟩)
          · exact hsecond hwrote
          · exact hfirst rfl
        rw [or_iff_left hnot] at hafter
        refine .both rfl hwrote ?_
        rw [hafter, ← hiff]
        rcases hseen with rfl | rfl
        · rw [hedits.keptOther, eq_comm]
        · exact iff_of_true rfl rfl
    | failsUnread | failsRead => exact .failed (Or.inl rfl)
  | both hfirst hsecond hvalue =>
    subst hfirst hsecond
    cases hmoves
    have hnot : ∀ edit : V → V, ¬Apart edit start Stage.wrote Stage.wrote :=
      fun _ hapart => hapart.2.1 rfl
    rw [or_iff_left (not_or.mpr ⟨hnot edit, hnot other⟩)] at hafter
    exact .both rfl rfl (hvalue.trans hafter.symm)
  | failed h =>
    rcases h with rfl | hsecond
    · cases hmoves
      exact .failed (Or.inl rfl)
    · exact .failed (Or.inr hsecond)

/-- What holds of everything the editors can come to. -/
theorem Reaches.holds (hedits : Independent edit other)
    (h : Reaches edit other start first second value apart) :
    Holds edit other start first second value apart := by
  induction h with
  | start => exact .neither (Or.inl rfl) (Or.inl rfl) rfl not_false
  | first hbefore hmoves hafter ih => exact ih.move hedits hmoves hafter
  | second hbefore hmoves hafter ih =>
    exact (((ih.symm hedits).move hedits.symm hmoves
      (hafter.trans (or_congr_right or_comm))).symm hedits.symm)

/-- Both edits are in the value at the end, if and only if the editors were apart at some moment. -/
theorem Reaches.value_iff (hedits : Independent edit other)
    (h : Reaches edit other start .wrote .wrote value apart) :
    value = edit (other start) ↔ apart := by
  cases h.holds hedits with
  | neither hfirst => rcases hfirst with hfirst | hfirst <;> cases hfirst
  | onlyFirst h | onlySecond h => rcases h.2.2 with ⟨hwaiting, -⟩ | ⟨seen, hwaiting, -⟩ <;> cases hwaiting
  | both hfirst hsecond hvalue => exact hvalue
  | failed h => rcases h with hfailed | hfailed <;> cases hfailed

end Awman.ReadModifyWrite
