import Awman.WorkflowRules

/-!
# Reports of earlier launches

The wait of a launch carries the launch's number, so the exit of a superseded launch is passed
over.  A watcher's report carries only the step's name: it is applied to whatever launch holds the
slot, and changes nothing exactly if the slot already says what was reported.
-/

namespace Awman.Engine

open Awman.Interaction

/-- No slot belongs to the launch: it was replaced by a newer one, or nothing is running. -/
def Superseded (slots : List ActiveParallelStep) (launchId : Nat) : Prop :=
  ∀ slot ∈ slots, slot.launchId ≠ launchId

/-- Whether the slot already says what is reported. -/
def StuckEvent.harmless (event : StuckEvent) (yolo : Bool) (slot : ActiveParallelStep) : Bool :=
  match event with
  | .stuck => if yolo then slot.yoloDeadline.isSome else slot.stuck
  | .unstuck => slot.yoloDeadline.isNone && !slot.stuck
  | .startupGraceExpired => slot.awmanKilled

/-- What a delivered report of a superseded launch does: the exit changes nothing, and a watcher's
report changes nothing exactly if the step has no slot or the slot says the same. -/
def RunEvent.Fenced (yolo : Bool) : RunEvent → Prop
  | .exitHandled wait before after => Superseded before.slots wait.launchId → after = before
  | .stuckHandled _ launchId event before after => Superseded before.slots launchId →
      (after = before ↔ ∀ slot ∈ before.slots.head?, event.harmless yolo slot = true)
  | _ => True

theorem StuckEvent.applyTo_stepName (event : StuckEvent) (yolo : Bool) (deadline : Nat)
    (slot : ActiveParallelStep) : (event.applyTo yolo deadline slot).stepName = slot.stepName := by
  cases event with
  | stuck =>
    cases yolo with
    | false => rfl
    | true => cases hdeadline : slot.yoloDeadline <;> simp [applyTo, hdeadline]
  | unstuck | startupGraceExpired => rfl

/-- A report leaves a slot as it is exactly if the slot says the same already. -/
theorem StuckEvent.applyTo_eq_self {event : StuckEvent} {yolo : Bool} {deadline : Nat}
    {slot : ActiveParallelStep} :
    event.applyTo yolo deadline slot = slot ↔ event.harmless yolo slot = true := by
  cases slot with
  | mk stepName execution cancelHandle containerName handle awmanKilled stuck yoloDeadline agent
      model launchId =>
    cases event with
    | stuck =>
      cases yolo with
      | false => simp [applyTo, harmless, eq_comm]
      | true => cases yoloDeadline <;> simp [applyTo, harmless]
    | unstuck =>
      simp only [applyTo, harmless, ActiveParallelStep.mk.injEq, Bool.and_eq_true,
        Option.isNone_iff_eq_none, Bool.not_eq_true']
      constructor
      · rintro ⟨-, -, -, -, -, -, hstuck, hdeadline, -⟩
        exact ⟨hdeadline.symm, hstuck.symm⟩
      · rintro ⟨rfl, rfl⟩
        simp
    | startupGraceExpired => simp [applyTo, harmless, eq_comm]

/-- Changing the first slot of a step changes the first of its slots. -/
theorem filter_modifySlot (stepName : String) {change : ActiveParallelStep → ActiveParallelStep}
    (hchange : ∀ slot, (change slot).stepName = slot.stepName) (slots : List ActiveParallelStep) :
    (modifySlot stepName change slots).filter (fun slot => slot.stepName = stepName) =
      (slots.filter fun slot => slot.stepName = stepName).modifyHead change := by
  induction slots with
  | nil => rfl
  | cons slot rest ih =>
    by_cases hname : slot.stepName = stepName
    · simp [modifySlot, hname, hchange]
    · simp [modifySlot, hname, ih]

theorem modifyHead_eq_self {α : Type} {change : α → α} (items : List α) :
    items.modifyHead change = items ↔ ∀ item ∈ items.head?, change item = item := by
  cases items <;> simp

theorem handleParallelStuckEvent_ensures {engine : WorkflowEngine} {run : RunState} {now : Nat}
    {stepName : String} {event : StuckEvent} {post : Unit → RunState → Prop}
    {halt : RunState → Prop}
    (h : post () { run with activeSteps := (modifySlot stepName (event.applyTo engine.settings.yolo
      (now + engine.settings.yoloCountdownDuration)) run.activeSteps) }) :
    Ensures (engine.handleParallelStuckEvent now stepName event) run post halt := by
  unfold WorkflowEngine.handleParallelStuckEvent Engine.modifySlots
  exact .modifyState h

/-- A watcher's report is fenced off exactly if the first slot of its step says the same. -/
theorem stuckHandled_fenced {run : RunState} {stepName : String} {launchId deadline : Nat}
    {event : StuckEvent} {yolo : Bool} :
    (RunEvent.stuckHandled stepName launchId event (run.view stepName)
      (RunState.view { run with
        activeSteps := (modifySlot stepName (event.applyTo yolo deadline) run.activeSteps) }
        stepName)).Fenced yolo := by
  intro _
  have hslots := filter_modifySlot stepName (event.applyTo_stepName yolo deadline)
    run.activeSteps
  simp only [RunState.view, hslots, StepView.mk.injEq, and_true, modifyHead_eq_self,
    StuckEvent.applyTo_eq_self]

end Awman.Engine
