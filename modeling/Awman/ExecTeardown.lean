import Awman.Library.ClaimFlags

/-!
# Tearing down a built-in exec

A launch is watched by its event task, which reads the exec's events and stops the sandbox when
they end, and may be cancelled from anywhere any number of times: the first cancellation interrupts
the agent and starts a grace timer that stops the sandbox if the agent ignores the interrupt.  The
two reach the cleanup through one claim flag, and the timer through the flag of the cancellation
that started it.  Each step below is one read or write of what the tasks share.
-/

namespace Awman.Exec

open Interleaving

/-- What a launch is bridged with. -/
structure ExecBridgeOptions where
  /-- There is an owner-scoped sandbox to stop. -/
  cleanup : Bool
  promptFiles : List String

/-- What the event task, the cancellations and their timers share, and what was seen of the
guest. -/
structure Launch where
  requested : Bool
  /-- The event task or a grace timer has reached the cleanup. -/
  cleanupClaimed : Bool
  /-- What the grace timer's stop did. -/
  stopResult : Option Bool
  /-- The cancellations and timers that keep a sender of the stop's result. -/
  timers : Nat
  /-- Somebody can still cancel: the execution, a handle of it or the stuck detector is there. -/
  cancellable : Bool
  promptFiles : List String
  /-- The event task has read the guest's exit. -/
  exitObserved : Bool
  /-- A stop of the sandbox succeeded. -/
  stopConfirmed : Bool
  stopFailed : Bool

namespace Launch

/-- The guest is known to have ended. -/
def guestEnded (launch : Launch) : Bool := launch.exitObserved || launch.stopConfirmed

/-- Nobody can send a stop's result any more. -/
def senderGone (launch : Launch) : Bool := !launch.cancellable && launch.timers == 0

end Launch

/-- What the event task receives. -/
inductive Received where
  | output
  | exited
  | failed
  | lagged
  | closed

/-- What a step depends on that the program does not decide. -/
inductive Choice where
  | proceed
  | received (event : Received)
  /-- `finish_owned` returned. -/
  | finished (stopped : Bool)
  /-- The stop's result changed, or its sender is gone. -/
  | changed

/-- Where the event task is; `guestEnded` is its local variable. -/
inductive EventPhase where
  | streaming
  /-- Before the swap of the claim. -/
  | claiming (guestEnded : Bool)
  /-- The grace timer has the claim; its result is awaited. -/
  | waiting
  /-- In `finish_owned`. -/
  | stopping (guestEnded : Bool)
  /-- The stop failed; the claim is about to be given up. -/
  | releasing (guestEnded : Bool)
  | deciding (guestEnded : Bool)
  /-- At the head of the loop that keeps the prompt files. -/
  | looking (streamOpen stopOpen : Bool)
  | selecting (streamOpen stopOpen : Bool)
  | removing
  | done
  deriving DecidableEq

/-- Where a cancellation or the grace timer it started is. -/
inductive CancelPhase where
  /-- Before the swap of `requested`. -/
  | calling
  /-- The interrupt is sent and the timer about to be spawned. -/
  | sending
  | sleeping
  /-- The timer found the cleanup claimed and returned. -/
  | lost
  /-- The timer has the claim and is about to send the kill. -/
  | killing
  /-- In `finish_owned`. -/
  | stopping
  | releasing
  /-- About to send what the stop did. -/
  | publishing (stopped : Bool)
  /-- About to lower `requested`. -/
  | resetting
  /-- The timer stopped the sandbox and returned. -/
  | stopped
  /-- The interrupt was sent, and there is no sandbox to stop. -/
  | interrupted
  | returned
  deriving DecidableEq

/-- Where a call is: the event task, a cancellation with its timer, or whoever lets go of the last
handle. -/
inductive Position where
  | event (phase : EventPhase)
  | cancel (phase : CancelPhase)
  | dropping
  | dropped
  deriving DecidableEq

/-- One step of the event task. -/
def EventPhase.step (options : ExecBridgeOptions) (launch : Launch) :
    EventPhase → Choice → Option (EventPhase × Launch)
  | .streaming, .received .output => some (.streaming, launch)
  | .streaming, .received .exited => some (.claiming true, { launch with exitObserved := true })
  -- A lagged or failed stream establishes nothing about the guest.
  | .streaming, .received _ => some (.claiming false, launch)
  | .claiming guestEnded, .proceed =>
    if options.cleanup = false then some (.deciding guestEnded, launch)
    else if launch.cleanupClaimed then
      some (if guestEnded then .deciding true else .waiting, launch)
    else some (.stopping guestEnded, { launch with cleanupClaimed := true })
  | .waiting, .proceed =>
    match launch.stopResult with
    | some stopped => some (.deciding stopped, launch)
    | none => if launch.senderGone then some (.deciding false, launch) else none
  | .stopping _, .finished true => some (.deciding true, { launch with stopConfirmed := true })
  | .stopping guestEnded, .finished false =>
    some (.releasing guestEnded, { launch with stopFailed := true })
  | .releasing guestEnded, .proceed =>
    some (.deciding guestEnded, { launch with cleanupClaimed := false })
  | .deciding true, .proceed => some (.done, { launch with promptFiles := [] })
  | .deciding false, .proceed =>
    some (if launch.promptFiles = [] then .done else .looking true true, launch)
  | .looking streamOpen stopOpen, .proceed =>
    some (if launch.stopResult = some true then .removing else .selecting streamOpen stopOpen,
      launch)
  | .selecting true _, .received .exited => some (.removing, { launch with exitObserved := true })
  | .selecting true stopOpen, .received .closed => some (.looking false stopOpen, launch)
  | .selecting true stopOpen, .received _ => some (.looking true stopOpen, launch)
  | .selecting streamOpen true, .changed =>
    some (.looking streamOpen (!launch.senderGone), launch)
  | .removing, .proceed => some (.done, { launch with promptFiles := [] })
  | _, _ => none

/-- One step of a cancellation or of its timer. -/
def CancelPhase.step (options : ExecBridgeOptions) (launch : Launch) :
    CancelPhase → Choice → Option (CancelPhase × Launch)
  | .calling, .proceed =>
    if launch.cancellable = false then none
    else if launch.requested then some (.returned, launch)
    else some (.sending, { launch with requested := true, timers := launch.timers + 1 })
  | .sending, .proceed =>
    if options.cleanup then some (.sleeping, launch)
    else some (.interrupted, { launch with timers := launch.timers - 1 })
  | .sleeping, .proceed =>
    if launch.cleanupClaimed then some (.lost, { launch with timers := launch.timers - 1 })
    else some (.killing, { launch with cleanupClaimed := true })
  | .killing, .proceed => some (.stopping, launch)
  | .stopping, .finished true => some (.publishing true, { launch with stopConfirmed := true })
  | .stopping, .finished false => some (.releasing, { launch with stopFailed := true })
  | .releasing, .proceed => some (.publishing false, { launch with cleanupClaimed := false })
  | .publishing true, .proceed =>
    some (.stopped, { launch with stopResult := some true, timers := launch.timers - 1 })
  | .publishing false, .proceed => some (.resetting, { launch with stopResult := some false })
  | .resetting, .proceed =>
    some (.returned, { launch with requested := false, timers := launch.timers - 1 })
  | _, _ => none

/-- One step of a call. -/
def Position.step (options : ExecBridgeOptions) :
    Position → Choice → Launch → Option (Position × Launch)
  | .event phase, choice, launch =>
    (phase.step options launch choice).map fun moved => (.event moved.1, moved.2)
  | .cancel phase, choice, launch =>
    (phase.step options launch choice).map fun moved => (.cancel moved.1, moved.2)
  | .dropping, _, launch => some (.dropped, { launch with cancellable := false })
  | .dropped, _, _ => none

/-- It has the claim of the cleanup. -/
def Position.holdsClaim : Position → Bool
  | .event (.stopping _) | .event (.releasing _) => true
  | .cancel .killing | .cancel .stopping | .cancel .releasing => true
  | _ => false

/-- It is the cancellation that raised `requested`, or that one's timer. -/
def Position.holdsRequest : Position → Bool
  | .cancel .sending | .cancel .sleeping | .cancel .killing | .cancel .stopping => true
  | .cancel .releasing | .cancel (.publishing _) | .cancel .resetting => true
  | _ => false

/-- It raised `requested`, and is over without lowering it. -/
def Position.keptRequest : Position → Bool
  | .cancel .lost | .cancel .stopped | .cancel .interrupted => true
  | _ => false

/-- It runs `finish_owned`. -/
def Position.finishing : Position → Bool
  | .event (.stopping _) | .cancel .stopping => true
  | _ => false

/-- It is between its claim of the cleanup and the last thing it does about it. -/
def Position.cleaning : Position → Bool
  | .event (.stopping _) | .event (.releasing _) => true
  | .cancel .killing | .cancel .stopping | .cancel .releasing => true
  | .cancel (.publishing _) | .cancel .resetting => true
  | _ => false

/-- It is the event task between its claim of the cleanup and the last thing it does about it. -/
def Position.taskCleaning : Position → Bool
  | .event (.stopping _) | .event (.releasing _) => true
  | _ => false

/-- It is a cancellation whose timer has yet to reach the cleanup. -/
def Position.scheduled : Position → Bool
  | .cancel .sending | .cancel .sleeping => true
  | _ => false

/-- A launch whose event task runs; cancellations come and go. -/
def teardown (options : ExecBridgeOptions) : System Choice Launch Position where
  starts position := position = .cancel .calling || position = .dropping
  step := Position.step options

/-- A launch nobody has cancelled and nothing was seen of. -/
def ExecBridgeOptions.launch (options : ExecBridgeOptions) : Launch where
  requested := false
  cleanupClaimed := false
  stopResult := none
  timers := 0
  cancellable := true
  promptFiles := options.promptFiles
  exitObserved := false
  stopConfirmed := false
  stopFailed := false

/-- A launch as `run` leaves it: its event task is spawned. -/
def launched (options : ExecBridgeOptions) : Config Launch Position :=
  (Config.idle options.launch).move 0 (.event .streaming) options.launch

end Awman.Exec
