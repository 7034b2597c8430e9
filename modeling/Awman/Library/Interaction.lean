import Mathlib.Order.Defs.Unbundled
import Mathlib.Tactic.Common

/-!
# Programs that read an environment's answers

A program reads one answer of its environment at a time, changes a state, and returns, fails, or is
left waiting when the answers run out.  Every finite list of answers gives one run, so a statement
about all lists is a statement about every point at which the program can be observed.  `Ensures`
states what holds when a program returns and what holds where it stops without returning.
-/

namespace Awman.Interaction

/-- Why a run stopped before it returned. -/
inductive Halt (ε : Type) where
  /-- The next answer has not arrived, or is not one the program can take. -/
  | waiting
  | failed (error : ε)
deriving DecidableEq, Repr

/-- The answers that are still to be read, and the state. -/
structure World (ι σ : Type) where
  /-- What the environment will answer. -/
  answers : List ι
  /-- What the program keeps. -/
  state : σ

/-- A program over answers `ι`, state `σ` and errors `ε`. -/
def Program (ι σ ε α : Type) : Type :=
  World ι σ → Except (Halt ε) α × World ι σ

variable {ι σ ε α β : Type}

instance : Monad (Program ι σ ε) where
  pure a := fun world => (.ok a, world)
  bind program next := fun world =>
    match program world with
    | (.ok a, after) => next a after
    | (.error halt, after) => (.error halt, after)

/-- Read the state. -/
def getState : Program ι σ ε σ :=
  fun world => (.ok world.state, world)

/-- Change the state. -/
def modifyState (change : σ → σ) : Program ι σ ε Unit :=
  fun world => (.ok (), { world with state := change world.state })

/-- Stop with an error. -/
def fail (error : ε) : Program ι σ ε α :=
  fun world => (.error (.failed error), world)

/-- Stop because the awaited answer is not there. -/
def wait : Program ι σ ε α :=
  fun world => (.error .waiting, world)

/-- Read the next answer if the program can take it. -/
def receive (accept : ι → Option α) : Program ι σ ε α :=
  fun world =>
    match world.answers with
    | [] => (.error .waiting, world)
    | answer :: rest =>
      match accept answer with
      | none => (.error .waiting, world)
      | some a => (.ok a, { world with answers := rest })

/-- Go on with a value, or stop with the error. -/
def ofExcept (result : Except ε α) : Program ι σ ε α :=
  match result with
  | .ok a => pure a
  | .error e => fail e

/-- Repeat a body until it gives a result, at most `bound` times. -/
def iterate (body : Program ι σ ε (Option β)) : Nat → Program ι σ ε β
  | 0 => wait
  | bound + 1 => do
      match ← body with
      | some result => pure result
      | none => iterate body bound

/-- Repeat a body until it gives a result.  One pass for each remaining answer and one more are
enough for a body that reads an answer whenever it goes on. -/
def loop (body : Program ι σ ε (Option β)) : Program ι σ ε β :=
  fun world => iterate body (world.answers.length + 1) world

/-- Run a program for each item in turn. -/
def forEach (items : List α) (body : α → Program ι σ ε Unit) : Program ι σ ε Unit :=
  match items with
  | [] => pure ()
  | item :: rest => do
      body item
      forEach rest body

/-- From `state`, whatever the environment answers, `program` returns only in states that meet
`post`, and stops without returning only in states that meet `halt`. -/
def Ensures (program : Program ι σ ε α) (state : σ) (post : α → σ → Prop)
    (halt : σ → Prop) : Prop :=
  ∀ answers,
    match program ⟨answers, state⟩ with
    | (.ok a, after) => post a after.state
    | (.error _, after) => halt after.state

namespace Ensures

variable {state : σ} {halt : σ → Prop} {post : α → σ → Prop}

/-- What a run that returned ensures. -/
theorem returned {program : Program ι σ ε α} {answers : List ι} {a : α}
    (h : Ensures program state post halt) (hresult : (program ⟨answers, state⟩).1 = .ok a) :
    post a (program ⟨answers, state⟩).2.state := by
  have hrun := h answers
  cases hprogram : program ⟨answers, state⟩ with
  | mk result after =>
    rw [hprogram] at hrun hresult
    obtain rfl : result = .ok a := hresult
    exact hrun

/-- What a run ensures of every state it can stop in. -/
theorem everywhere {program : Program ι σ ε α} (h : Ensures program state post halt)
    (hpost : ∀ a after, post a after → halt after) (answers : List ι) :
    halt (program ⟨answers, state⟩).2.state := by
  have hrun := h answers
  cases hprogram : program ⟨answers, state⟩ with
  | mk result after =>
    rw [hprogram] at hrun
    cases result with
    | error stop => exact hrun
    | ok a => exact hpost a after.state hrun

theorem pure {a : α} (h : post a state) :
    Ensures (Pure.pure a : Program ι σ ε α) state post halt :=
  fun _ => h

section

variable {program : Program ι σ ε α}

theorem bind {next : α → Program ι σ ε β} {post : β → σ → Prop}
    (h : Ensures program state (fun a after => Ensures (next a) after post halt) halt) :
    Ensures (program >>= next) state post halt := by
  intro answers
  have hrun := h answers
  change match (match program ⟨answers, state⟩ with
    | (.ok a, after) => next a after
    | (.error stop, after) => (.error stop, after)) with
    | (.ok a, after) => post a after.state
    | (.error _, after) => halt after.state
  cases hprogram : program ⟨answers, state⟩ with
  | mk result after =>
    rw [hprogram] at hrun
    cases result with
    | error stop => exact hrun
    | ok a => exact hrun after.answers

theorem mono {post' : α → σ → Prop} {halt' : σ → Prop} (h : Ensures program state post' halt')
    (hpost : ∀ a after, post' a after → post a after) (hhalt : ∀ after, halt' after → halt after) :
    Ensures program state post halt := by
  intro answers
  have hrun := h answers
  cases hprogram : program ⟨answers, state⟩ with
  | mk result after =>
    rw [hprogram] at hrun
    cases result with
    | error stop => exact hhalt _ hrun
    | ok a => exact hpost _ _ hrun

/-- Run a program whose specification is known, then the rest. -/
theorem seq {next : α → Program ι σ ε β} {middle : α → σ → Prop} {post : β → σ → Prop}
    (h : Ensures program state middle halt)
    (hnext : ∀ a after, middle a after → Ensures (next a) after post halt) :
    Ensures (program >>= next) state post halt :=
  bind (h.mono hnext fun _ hhalt => hhalt)

/-- Run a program and return its result in another form. -/
theorem map {wrap : α → β} {post : β → σ → Prop}
    (h : Ensures program state (fun a after => post (wrap a) after) halt) :
    Ensures (program >>= fun a => Pure.pure (wrap a)) state post halt :=
  h.seq fun _ _ hafter => pure hafter

/-- What holds of a result in another form holds of the result itself. -/
theorem unmap {wrap : α → β} {post : β → σ → Prop}
    (h : Ensures (program >>= fun a => Pure.pure (wrap a)) state post halt) :
    Ensures program state (fun a after => post (wrap a) after) halt := by
  intro answers
  have hrun := h answers
  change match (match program ⟨answers, state⟩ with
    | (.ok a, after) => (Pure.pure (wrap a) : Program ι σ ε β) after
    | (.error stop, after) => (.error stop, after)) with
    | (.ok b, after) => post b after.state
    | (.error _, after) => halt after.state at hrun
  cases hprogram : program ⟨answers, state⟩ with
  | mk result after =>
    rw [hprogram] at hrun
    cases result <;> exact hrun

end

theorem getState {post : σ → σ → Prop} (h : post state state) :
    Ensures (Interaction.getState : Program ι σ ε σ) state post halt :=
  fun _ => h

theorem modifyState {change : σ → σ} {post : Unit → σ → Prop} (h : post () (change state)) :
    Ensures (Interaction.modifyState change : Program ι σ ε Unit) state post halt :=
  fun _ => h

/-- Read the state, then run the rest. -/
theorem read {next : σ → Program ι σ ε α} (h : Ensures (next state) state post halt) :
    Ensures (Interaction.getState >>= next) state post halt :=
  bind (getState h)

/-- Change the state, then run the rest. -/
theorem change {change : σ → σ} {next : Unit → Program ι σ ε α}
    (h : Ensures (next ()) (change state) post halt) :
    Ensures (Interaction.modifyState change >>= next) state post halt :=
  bind (modifyState h)

theorem fail {error : ε} (h : halt state) :
    Ensures (Interaction.fail error : Program ι σ ε α) state post halt :=
  fun _ => h

theorem wait (h : halt state) :
    Ensures (Interaction.wait : Program ι σ ε α) state post halt :=
  fun _ => h

/-- A received value is one that some answer is accepted as. -/
theorem receive_accepted {accept : ι → Option α} (hhalt : halt state)
    (h : ∀ answer a, accept answer = some a → post a state) :
    Ensures (Interaction.receive accept : Program ι σ ε α) state post halt := by
  intro answers
  cases answers with
  | nil => exact hhalt
  | cons answer rest =>
    cases haccept : accept answer with
    | none => simpa [Interaction.receive, haccept] using hhalt
    | some a => simpa [Interaction.receive, haccept] using h answer a haccept

theorem receive {accept : ι → Option α} (hhalt : halt state) (h : ∀ a, post a state) :
    Ensures (Interaction.receive accept : Program ι σ ε α) state post halt :=
  receive_accepted hhalt fun _ a _ => h a

theorem ofExcept {result : Except ε α} (hhalt : halt state) (h : ∀ a, result = .ok a → post a state) :
    Ensures (Interaction.ofExcept result : Program ι σ ε α) state post halt := by
  cases result with
  | error e => exact fail hhalt
  | ok a => exact pure (h a rfl)

theorem iterate {body : Program ι σ ε (Option β)} {post : β → σ → Prop} (inv : σ → Prop)
    (hbody : ∀ before, inv before → Ensures body before (fun result after =>
      match result with
      | some b => post b after
      | none => inv after) halt)
    (hhalt : ∀ before, inv before → halt before) (bound : Nat) (hinv : inv state) :
    Ensures (Interaction.iterate body bound) state post halt := by
  induction bound generalizing state with
  | zero => exact wait (hhalt state hinv)
  | succ bound ih =>
    apply seq (hbody state hinv)
    intro result after hafter
    cases result with
    | some b => exact pure hafter
    | none => exact ih hafter

/-- An invariant that each pass keeps, and that a pass turns into the postcondition when it gives a
result, carries a whole loop. -/
theorem loop {body : Program ι σ ε (Option β)} {post : β → σ → Prop} (inv : σ → Prop)
    (hbody : ∀ before, inv before → Ensures body before (fun result after =>
      match result with
      | some b => post b after
      | none => inv after) halt)
    (hhalt : ∀ before, inv before → halt before) (hinv : inv state) :
    Ensures (Interaction.loop body) state post halt :=
  fun answers => iterate inv hbody hhalt (answers.length + 1) hinv answers

/-- A pass over a list keeps an invariant on the items that are left. -/
theorem forEach {body : α → Program ι σ ε Unit} (inv : List α → σ → Prop)
    (hbody : ∀ item rest before, inv (item :: rest) before →
      Ensures (body item) before (fun _ after => inv rest after) halt)
    {items : List α} (hinv : inv items state) :
    Ensures (Interaction.forEach items body) state (fun _ after => inv [] after) halt := by
  induction items generalizing state with
  | nil => exact pure hinv
  | cons item rest ih => exact seq (hbody item rest state hinv) fun _ _ hafter => ih hafter

end Ensures

/-- Wherever the program stops, its state is related to the one it began with. -/
def Relates (r : σ → σ → Prop) (program : Program ι σ ε α) : Prop :=
  ∀ before, Ensures program before (fun _ after => r before after) (r before)

namespace Relates

variable {r : σ → σ → Prop}

theorem mono {wider : σ → σ → Prop} {program : Program ι σ ε α} (h : Relates r program)
    (hwider : ∀ before after, r before after → wider before after) : Relates wider program :=
  fun before => (h before).mono (fun _ after hafter => hwider before after hafter)
    fun after hafter => hwider before after hafter

section reflexive

variable [Std.Refl r]

theorem pure {a : α} : Relates r (Pure.pure a : Program ι σ ε α) :=
  fun before => Ensures.pure (Std.Refl.refl before)

theorem fail {error : ε} : Relates r (Interaction.fail error : Program ι σ ε α) :=
  fun before => Ensures.fail (Std.Refl.refl before)

theorem wait : Relates r (Interaction.wait : Program ι σ ε α) :=
  fun before => Ensures.wait (Std.Refl.refl before)

theorem getState : Relates r (Interaction.getState : Program ι σ ε σ) :=
  fun before => Ensures.getState (Std.Refl.refl before)

theorem receive {accept : ι → Option α} :
    Relates r (Interaction.receive accept : Program ι σ ε α) :=
  fun before => Ensures.receive (Std.Refl.refl before) fun _ => Std.Refl.refl before

end reflexive

/-- A program whose specification from the state at hand is known, then the rest. -/
theorem afterwards [IsTrans σ r] {program : Program ι σ ε α} {next : α → Program ι σ ε β}
    {before : σ} {middle : α → σ → Prop}
    (h : Ensures program before middle (r before))
    (hmiddle : ∀ a state, middle a state → r before state)
    (hnext : ∀ a state, middle a state →
      Ensures (next a) state (fun _ after => r state after) (r state)) :
    Ensures (program >>= next) before (fun _ after => r before after) (r before) := by
  apply Ensures.seq h
  intro a state hstate
  refine (hnext a state hstate).mono ?_ ?_
  · intro b after hafter
    exact IsTrans.trans _ _ _ (hmiddle a state hstate) hafter
  · intro after hafter
    exact IsTrans.trans _ _ _ (hmiddle a state hstate) hafter

theorem bind [IsTrans σ r] {program : Program ι σ ε α} {next : α → Program ι σ ε β}
    (h : Relates r program) (hnext : ∀ a, Relates r (next a)) : Relates r (program >>= next) :=
  fun before => afterwards (h before) (fun _ _ hstate => hstate) fun a state _ => hnext a state

theorem forEach [Std.Refl r] [IsTrans σ r] {items : List α} {body : α → Program ι σ ε Unit}
    (hbody : ∀ item ∈ items, Relates r (body item)) :
    Relates r (Interaction.forEach items body) := by
  induction items with
  | nil => exact pure
  | cons item rest ih =>
    apply bind (hbody item List.mem_cons_self)
    intro _
    exact ih fun other hother => hbody other (List.mem_cons_of_mem item hother)

end Relates

/-- From a state that meets `inv`, the two programs do the same. -/
def Agrees (inv : σ → Prop) (first second : Program ι σ ε α) : Prop :=
  ∀ world, inv world.state → first world = second world

namespace Agrees

variable {inv : σ → Prop} {first second : Program ι σ ε α}

theorem refl : Agrees inv first first :=
  fun _ _ => rfl

/-- Programs that agree, and keep the states in which what follows agrees, agree with what
follows. -/
theorem bind {next other : α → Program ι σ ε β} (h : Agrees inv first second)
    (hkeeps : ∀ state, inv state → Ensures first state (fun _ after => inv after) fun _ => True)
    (hnext : ∀ a, Agrees inv (next a) (other a)) : Agrees inv (first >>= next) (second >>= other) := by
  intro world hinv
  change (match first world with
    | (.ok a, after) => next a after
    | (.error halt, after) => (.error halt, after)) = match second world with
    | (.ok a, after) => other a after
    | (.error halt, after) => (.error halt, after)
  rw [← h world hinv]
  have hrun := hkeeps world.state hinv world.answers
  cases hfirst : first world with
  | mk result after =>
    have hsame : first ⟨world.answers, world.state⟩ = (result, after) := hfirst
    rw [hsame] at hrun
    cases result with
    | error halt => rfl
    | ok a => exact hnext a after hrun

end Agrees

end Awman.Interaction
