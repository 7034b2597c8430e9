import Awman.Library.Interaction

/-!
# Programs that clean up

A failure can be caught, something done about it, and the failure passed on.  Where the answers run out
nothing is caught: that is where a process dies.
-/

namespace Awman.Interaction

variable {ι σ ε α : Type}

/-- Give a failure as a result. -/
def catching (program : Program ι σ ε α) : Program ι σ ε (Except ε α) := fun world =>
  match program world with
  | (.ok a, after) => (.ok (.ok a), after)
  | (.error (.failed error), after) => (.ok (.error error), after)
  | (.error .waiting, after) => (.error .waiting, after)

/-- Run a program, then the last one, whose own failure is dropped. -/
def withCleanup (program : Program ι σ ε α) (last : Program ι σ ε Unit) : Program ι σ ε α := do
  let result ← catching program
  let _ ← catching last
  ofExcept result

/-- Run a program; where it fails, run another one first, whose own failure is dropped. -/
def onFailure (program : Program ι σ ε α) (undo : Program ι σ ε Unit) : Program ι σ ε α := do
  match ← catching program with
  | .ok a => pure a
  | .error error => do
      let _ ← catching undo
      fail error

namespace Ensures

variable {state : σ} {post : α → σ → Prop} {halt : σ → Prop}

variable {program : Program ι σ ε α}

theorem catching (h : Ensures program state post halt) :
    Ensures (Interaction.catching program) state
      (fun result after => match result with
        | .ok a => post a after
        | .error _ => halt after) halt := by
  intro answers
  have hrun := h answers
  unfold Interaction.catching
  cases hprogram : program ⟨answers, state⟩ with
  | mk result after =>
    rw [hprogram] at hrun
    cases result with
    | ok a => exact hrun
    | error stop =>
      cases stop with
      | waiting | failed => exact hrun

/-- A program whose failure is dropped keeps what it keeps wherever it stops. -/
theorem caught {kept : σ → Prop} (h : Ensures program state (fun _ after => kept after) kept) :
    Ensures (Interaction.catching program) state (fun _ after => kept after) kept := by
  refine h.catching.mono (fun result after hafter => ?_) fun _ hafter => hafter
  cases result with
  | ok | error => exact hafter

/-- What the last program keeps holds when the whole ends as the first program ended. -/
theorem withCleanup {last : Program ι σ ε Unit} (h : Ensures program state post halt)
    (hpost : ∀ a before, post a before → Ensures last before (fun _ after => post a after) (post a))
    (hhalt : ∀ before, halt before → Ensures last before (fun _ after => halt after) halt)
    (hleft : ∀ a after, post a after → halt after) :
    Ensures (Interaction.withCleanup program last) state post halt := by
  apply seq h.catching
  intro result before hbefore
  cases result with
  | ok a =>
    refine seq ((hpost a before hbefore).caught.mono (fun _ _ hafter => hafter) (hleft a)) ?_
    intro _ after hafter
    refine ofExcept (hleft a after hafter) fun b hb => ?_
    rw [← Except.ok.inj hb]
    exact hafter
  | error error =>
    apply seq (hhalt before hbefore).caught
    intro _ after hafter
    exact ofExcept hafter nofun

/-- What is done about a failure keeps what holds where the program failed. -/
theorem onFailure {undo : Program ι σ ε Unit} (h : Ensures program state post halt)
    (hundo : ∀ before, halt before → Ensures undo before (fun _ after => halt after) halt) :
    Ensures (Interaction.onFailure program undo) state post halt := by
  apply seq h.catching
  intro result before hbefore
  cases result with
  | ok a => exact pure hbefore
  | error error => exact seq (hundo before hbefore).caught fun _ _ hafter => fail hafter

end Ensures

end Awman.Interaction
