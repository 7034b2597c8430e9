import Awman.Library.Interaction

/-!
# Passes of a loop

A loop repeats its body until it gives a result.  The points between two passes are reached from the
first by passes that gave none, so what every pass keeps holds at all of them.  A relation that a program
need only keep where it returns is weaker than one it keeps wherever it stops.
-/

namespace Awman.Interaction

variable {ι σ ε α β : Type}

namespace Ensures

variable {state : σ} {program : Program ι σ ε α} {post other : α → σ → Prop} {halt otherHalt : σ → Prop}

/-- Every program ensures nothing. -/
theorem nothing : Ensures program state (fun _ _ => True) fun _ => True := by
  intro answers
  cases program ⟨answers, state⟩ with
  | mk result after =>
    cases result with
    | error | ok => trivial

/-- What a specification says of one run. -/
theorem of_run {before after : World ι σ} {a : α} (h : Ensures program before.state post halt)
    (hrun : program before = (.ok a, after)) : post a after.state := by
  have hresult := h before.answers
  have hsame : program ⟨before.answers, before.state⟩ = (.ok a, after) := hrun
  rw [hsame] at hresult
  exact hresult

/-- Two specifications of one program hold together. -/
theorem and (h : Ensures program state post halt) (hother : Ensures program state other otherHalt) :
    Ensures program state (fun a after => post a after ∧ other a after)
      fun after => halt after ∧ otherHalt after := by
  intro answers
  have hfirst := h answers
  have hsecond := hother answers
  cases hprogram : program ⟨answers, state⟩ with
  | mk result after =>
    rw [hprogram] at hfirst hsecond
    cases result with
    | error | ok => exact ⟨hfirst, hsecond⟩

end Ensures

variable {next : α → Program ι σ ε β}

/-- A program goes on from where the one before it returned. -/
theorem bind_returned {program : Program ι σ ε α} {before after : World ι σ} {a : α}
    (h : program before = (.ok a, after)) : (program >>= next) before = next a after := by
  simp only [bind, h]

/-- A program that stops stops what follows. -/
theorem bind_stopped {program : Program ι σ ε α} {before after : World ι σ} {halt : Halt ε}
    (h : program before = (.error halt, after)) :
    (program >>= next) before = (.error halt, after) := by
  simp only [bind, h]

/-- Where the program returns, its state is related to the one it began with. -/
def Advances (r : σ → σ → Prop) (program : Program ι σ ε α) : Prop :=
  ∀ before, Ensures program before (fun _ after => r before after) fun _ => True

namespace Advances

variable {r : σ → σ → Prop}

theorem fail {error : ε} : Advances r (Interaction.fail error : Program ι σ ε α) :=
  fun _ => Ensures.fail trivial

theorem modifyState {change : σ → σ} (h : ∀ before, r before (change before)) :
    Advances r (Interaction.modifyState change : Program ι σ ε Unit) :=
  fun before => Ensures.modifyState (h before)

section reflexive

variable [Std.Refl r]

theorem pure {a : α} : Advances r (Pure.pure a : Program ι σ ε α) :=
  fun before => Ensures.pure (Std.Refl.refl before)

theorem getState : Advances r (Interaction.getState : Program ι σ ε σ) :=
  fun before => Ensures.getState (Std.Refl.refl before)

theorem receive {accept : ι → Option α} :
    Advances r (Interaction.receive accept : Program ι σ ε α) :=
  fun before => Ensures.receive trivial fun _ => Std.Refl.refl before

theorem ofExcept {result : Except ε α} :
    Advances r (Interaction.ofExcept result : Program ι σ ε α) :=
  fun before => Ensures.ofExcept trivial fun _ _ => Std.Refl.refl before

end reflexive

section transitive

variable [IsTrans σ r]

theorem bind {program : Program ι σ ε α} (h : Advances r program) (hnext : ∀ a, Advances r (next a)) :
    Advances r (program >>= next) := by
  intro before
  apply Ensures.seq (h before)
  intro a middle hmiddle
  refine (hnext a middle).mono ?_ fun _ _ => trivial
  intro b after hafter
  exact IsTrans.trans _ _ _ hmiddle hafter

theorem loop [Std.Refl r] {body : Program ι σ ε (Option β)} (hbody : Advances r body) :
    Advances r (Interaction.loop body) := by
  intro before
  refine Ensures.loop (r before) ?_ (fun _ _ => trivial) (Std.Refl.refl before)
  intro middle hmiddle
  refine (hbody middle).mono ?_ fun _ _ => trivial
  intro result after hafter
  have hrelated : r before after := IsTrans.trans _ _ _ hmiddle hafter
  cases result with
  | none | some => exact hrelated

theorem forEach [Std.Refl r] {items : List α} {body : α → Program ι σ ε Unit}
    (hbody : ∀ item, Advances r (body item)) : Advances r (Interaction.forEach items body) := by
  induction items with
  | nil => exact pure
  | cons item rest ih => exact bind (hbody item) fun _ => ih

end transitive

end Advances

/-- The points of a loop between two passes, from the first one on. -/
inductive Passes (body : Program ι σ ε (Option β)) : World ι σ → World ι σ → Prop where
  | start {world : World ι σ} : Passes body world world
  | next {first head after : World ι σ} (h : Passes body first head)
      (hpass : body head = (.ok none, after)) : Passes body first after

/-- What each pass keeps holds between any two passes. -/
theorem Passes.keeps {body : Program ι σ ε (Option β)} (inv : σ → Prop)
    (hbody : ∀ before, inv before → Ensures body before (fun result after =>
      match result with
      | some _ => True
      | none => inv after) fun _ => True) {first head : World ι σ} (h : Passes body first head)
    (hinv : inv first.state) : inv head.state := by
  induction h with
  | start => exact hinv
  | next hpasses hpass ih =>
    rename_i head after
    exact (hbody head.state ih).of_run hpass

end Awman.Interaction
