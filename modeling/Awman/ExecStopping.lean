import Awman.ExecTeardown

/-!
# A launch stays stoppable

The claim flag belongs to the one task that runs the cleanup, and the flag of a cancellation to the
one timer it started.  A timer that loses the claim leaves its flag up for good, so a launch stays
stoppable as long as the event task does not give up a claim that a timer has lost to it.
-/

namespace Awman.Exec

open Interleaving

variable {options : ExecBridgeOptions} {launch after : Launch} {choice : Choice}
  {position next : Position}

/-! ## What a step does -/

/-- What a step does with the claim of the cleanup. -/
inductive ClaimEffect (position next : Position) (launch after : Launch) : Prop where
  | kept (hholds : next.holdsClaim = position.holdsClaim)
      (hclaim : after.cleanupClaimed = launch.cleanupClaimed)
      (hconfirmed : after.stopConfirmed = launch.stopConfirmed)
  | taken (hfree : launch.cleanupClaimed = false) (hnext : next.holdsClaim = true)
      (hclaim : after.cleanupClaimed = true)
      (hconfirmed : after.stopConfirmed = launch.stopConfirmed)
  | given (hholds : position.holdsClaim = true) (hnext : next.holdsClaim = false)
      (hclaim : after.cleanupClaimed = false)
      (hconfirmed : after.stopConfirmed = launch.stopConfirmed)
  | finished (hholds : position.holdsClaim = true) (hnext : next.holdsClaim = false)
      (hclaim : after.cleanupClaimed = launch.cleanupClaimed)
      (hconfirmed : after.stopConfirmed = true)

/-- What a step does with the flag of a cancellation. -/
inductive RequestEffect (position next : Position) (launch after : Launch) : Prop where
  | kept (hholds : next.holdsRequest = position.holdsRequest)
      (hkept : next.keptRequest = position.keptRequest)
      (hrequest : after.requested = launch.requested)
  | taken (hfree : launch.requested = false) (hnext : next.holdsRequest = true)
      (hkept : next.keptRequest = position.keptRequest) (hrequest : after.requested = true)
  | given (hholds : position.holdsRequest = true) (hnext : next.holdsRequest = false)
      (hkept : next.keptRequest = position.keptRequest) (hrequest : after.requested = false)
  | left (hholds : position.holdsRequest = true) (hnext : next.holdsRequest = false)
      (hkept : next.keptRequest = true) (hrequest : after.requested = launch.requested)

/-- What a step of the event task does with the claim. -/
theorem EventPhase.claimEffect {phase next : EventPhase}
    (h : phase.step options launch choice = some (next, after)) :
    ClaimEffect (.event phase) (.event next) launch after := by
  cases phase <;> cases choice
  case streaming.received event => cases event <;> cases h <;> exact .kept rfl rfl rfl
  case claiming.proceed =>
    simp only [step] at h
    split_ifs at h with hcleanup hclaimed hended <;> cases h
    · exact .kept rfl rfl rfl
    · exact .kept rfl rfl rfl
    · exact .kept rfl rfl rfl
    · exact .taken (Bool.not_eq_true _ |>.mp hclaimed) rfl rfl rfl
  case waiting.proceed =>
    simp only [step] at h
    split at h
    · cases h
      exact .kept rfl rfl rfl
    · split_ifs at h
      cases h
      exact .kept rfl rfl rfl
  case stopping.finished guestEnded stopped =>
    cases stopped <;> cases h
    · exact .kept rfl rfl rfl
    · exact .finished rfl rfl rfl rfl
  case releasing.proceed =>
    cases h
    exact .given rfl rfl rfl rfl
  case deciding.proceed guestEnded =>
    cases guestEnded <;> cases h
    · split_ifs <;> exact .kept rfl rfl rfl
    · exact .kept rfl rfl rfl
  case looking.proceed =>
    cases h
    split_ifs <;> exact .kept rfl rfl rfl
  case selecting.received streamOpen stopOpen event =>
    cases streamOpen <;> cases stopOpen <;> cases event <;> cases h <;> exact .kept rfl rfl rfl
  case selecting.changed streamOpen stopOpen =>
    cases streamOpen <;> cases stopOpen <;> cases h <;> exact .kept rfl rfl rfl
  case removing.proceed =>
    cases h
    exact .kept rfl rfl rfl
  all_goals simp [step] at h

/-- What a step of a cancellation does with the claim. -/
theorem CancelPhase.claimEffect {phase next : CancelPhase}
    (h : phase.step options launch choice = some (next, after)) :
    ClaimEffect (.cancel phase) (.cancel next) launch after := by
  cases phase <;> cases choice
  case calling.proceed | sending.proceed =>
    simp only [step] at h
    split_ifs at h <;> cases h <;> exact .kept rfl rfl rfl
  case sleeping.proceed =>
    simp only [step] at h
    split_ifs at h with hclaimed <;> cases h
    · exact .kept rfl rfl rfl
    · exact .taken (Bool.not_eq_true _ |>.mp hclaimed) rfl rfl rfl
  case stopping.finished stopped =>
    cases stopped <;> cases h
    · exact .kept rfl rfl rfl
    · exact .finished rfl rfl rfl rfl
  case releasing.proceed =>
    cases h
    exact .given rfl rfl rfl rfl
  case publishing.proceed stopped => cases stopped <;> cases h <;> exact .kept rfl rfl rfl
  case killing.proceed | resetting.proceed =>
    cases h
    exact .kept rfl rfl rfl
  all_goals simp [step] at h

/-- The event task leaves the flag of a cancellation alone. -/
theorem EventPhase.requestEffect {phase next : EventPhase}
    (h : phase.step options launch choice = some (next, after)) :
    RequestEffect (.event phase) (.event next) launch after := by
  have hsame : after.requested = launch.requested := by
    cases phase <;> cases choice
    case streaming.received event => cases event <;> cases h <;> rfl
    case claiming.proceed =>
      simp only [step] at h
      split_ifs at h <;> cases h <;> rfl
    case waiting.proceed =>
      simp only [step] at h
      split at h
      · cases h
        rfl
      · split_ifs at h
        cases h
        rfl
    case stopping.finished guestEnded stopped => cases stopped <;> cases h <;> rfl
    case deciding.proceed guestEnded => cases guestEnded <;> cases h <;> rfl
    case selecting.received streamOpen stopOpen event =>
      cases streamOpen <;> cases stopOpen <;> cases event <;> cases h <;> rfl
    case selecting.changed streamOpen stopOpen =>
      cases streamOpen <;> cases stopOpen <;> cases h <;> rfl
    case releasing.proceed | looking.proceed | removing.proceed =>
      cases h
      rfl
    all_goals simp [step] at h
  exact .kept rfl rfl hsame

/-- What a step of a cancellation does with its flag. -/
theorem CancelPhase.requestEffect {phase next : CancelPhase}
    (h : phase.step options launch choice = some (next, after)) :
    RequestEffect (.cancel phase) (.cancel next) launch after := by
  cases phase <;> cases choice
  case calling.proceed =>
    simp only [step] at h
    split_ifs at h with hcancellable hrequested <;> cases h
    · exact .kept rfl rfl rfl
    · exact .taken (Bool.not_eq_true _ |>.mp hrequested) rfl rfl rfl
  case sending.proceed =>
    simp only [step] at h
    split_ifs at h <;> cases h
    · exact .kept rfl rfl rfl
    · exact .left rfl rfl rfl rfl
  case sleeping.proceed =>
    simp only [step] at h
    split_ifs at h <;> cases h
    · exact .left rfl rfl rfl rfl
    · exact .kept rfl rfl rfl
  case stopping.finished stopped => cases stopped <;> cases h <;> exact .kept rfl rfl rfl
  case publishing.proceed stopped =>
    cases stopped <;> cases h
    · exact .kept rfl rfl rfl
    · exact .left rfl rfl rfl rfl
  case resetting.proceed =>
    cases h
    exact .given rfl rfl rfl rfl
  case killing.proceed | releasing.proceed =>
    cases h
    exact .kept rfl rfl rfl
  all_goals simp [step] at h

/-- What a step of any task does with the claim. -/
theorem Position.claimEffect (h : position.step options choice launch = some (next, after)) :
    ClaimEffect position next launch after := by
  cases position with
  | event phase =>
    obtain ⟨moved, hmoved, heq⟩ := Option.map_eq_some_iff.mp h
    cases heq
    exact EventPhase.claimEffect hmoved
  | cancel phase =>
    obtain ⟨moved, hmoved, heq⟩ := Option.map_eq_some_iff.mp h
    cases heq
    exact CancelPhase.claimEffect hmoved
  | dropping =>
    cases h
    exact .kept rfl rfl rfl
  | dropped => cases h

/-- What a step of any task does with the flag. -/
theorem Position.requestEffect (h : position.step options choice launch = some (next, after)) :
    RequestEffect position next launch after := by
  cases position with
  | event phase =>
    obtain ⟨moved, hmoved, heq⟩ := Option.map_eq_some_iff.mp h
    cases heq
    exact EventPhase.requestEffect hmoved
  | cancel phase =>
    obtain ⟨moved, hmoved, heq⟩ := Option.map_eq_some_iff.mp h
    cases heq
    exact CancelPhase.requestEffect hmoved
  | dropping =>
    cases h
    exact .kept rfl rfl rfl
  | dropped => cases h

/-! ## What is known of the guest -/

/-- What was known of the guest and could be done about it still is, or can no more. -/
structure Launch.Grows (launch after : Launch) : Prop where
  exitObserved : launch.exitObserved = true → after.exitObserved = true
  stopConfirmed : launch.stopConfirmed = true → after.stopConfirmed = true
  stopFailed : launch.stopFailed = true → after.stopFailed = true
  cancellable : after.cancellable = true → launch.cancellable = true

theorem Launch.Grows.refl (launch : Launch) : launch.Grows launch :=
  ⟨id, id, id, id⟩

/-- A guest that ended stays ended. -/
theorem Launch.Grows.guestEnded (h : launch.Grows after) (hended : launch.guestEnded = true) :
    after.guestEnded = true := by
  rw [Launch.guestEnded, Bool.or_eq_true] at hended ⊢
  exact hended.imp h.exitObserved h.stopConfirmed

/-- What the tasks share says no more about the guest than was seen of it. -/
structure Launch.Honest (options : ExecBridgeOptions) (launch : Launch) : Prop where
  promptFiles : launch.promptFiles = options.promptFiles ∨ launch.guestEnded = true
  stopResult : launch.stopResult = some true → launch.stopConfirmed = true
  stopFailed : launch.stopFailed = true → options.cleanup = true

/-- What a call says about the guest at its position was seen of it. -/
def Position.Fits (options : ExecBridgeOptions) (launch : Launch) : Position → Prop
  | .event (.claiming guestEnded) | .event (.deciding guestEnded) =>
    guestEnded = true → launch.guestEnded = true
  | .event (.stopping guestEnded) =>
    options.cleanup = true ∧ (guestEnded = true → launch.guestEnded = true)
  | .event (.releasing guestEnded) =>
    launch.stopFailed = true ∧ (guestEnded = true → launch.guestEnded = true)
  | .event .removing => launch.guestEnded = true
  | .cancel .sleeping | .cancel .lost | .cancel .killing | .cancel .stopping => options.cleanup = true
  | .cancel (.publishing stopped) => stopped = true → launch.stopConfirmed = true
  | .cancel .stopped => launch.stopConfirmed = true
  | .cancel .interrupted => options.cleanup = false
  | _ => True

/-- What a call says of the guest stays true when more is known of it. -/
theorem Position.Fits.grows (h : position.Fits options launch) (hgrows : launch.Grows after) :
    position.Fits options after := by
  cases position with
  | event phase =>
    cases phase with
    | claiming guestEnded | deciding guestEnded => exact fun hended => hgrows.guestEnded (h hended)
    | stopping guestEnded => exact ⟨h.1, fun hended => hgrows.guestEnded (h.2 hended)⟩
    | releasing guestEnded =>
      exact ⟨hgrows.stopFailed h.1, fun hended => hgrows.guestEnded (h.2 hended)⟩
    | removing => exact hgrows.guestEnded h
    | _ => trivial
  | cancel phase =>
    cases phase with
    | sleeping | lost | killing | stopping | interrupted => exact h
    | publishing stopped => exact fun hstopped => hgrows.stopConfirmed (h hstopped)
    | stopped => exact hgrows.stopConfirmed h
    | _ => trivial
  | _ => trivial

/-- A step of the event task only adds to what is known of the guest. -/
theorem EventPhase.grows {phase next : EventPhase} (hfits : (Position.event phase).Fits options launch)
    (hhonest : launch.Honest options) (h : phase.step options launch choice = some (next, after)) :
    launch.Grows after ∧ (Position.event next).Fits options after ∧ after.Honest options := by
  have hrefl := Launch.Grows.refl launch
  have hnever : false = true → launch.guestEnded = true := fun hfalse => by cases hfalse
  cases phase <;> cases choice
  case streaming.received event =>
    cases event <;> cases h
    case exited =>
      exact ⟨⟨fun _ => rfl, id, id, id⟩, fun _ => rfl, Or.inr rfl, hhonest.stopResult,
        hhonest.stopFailed⟩
    case output => exact ⟨hrefl, trivial, hhonest⟩
    all_goals exact ⟨hrefl, hnever, hhonest⟩
  case claiming.proceed guestEnded =>
    simp only [step] at h
    split_ifs at h with hcleanup hclaimed hended <;> cases h
    · exact ⟨hrefl, hfits, hhonest⟩
    · exact ⟨hrefl, fun _ => hfits hended, hhonest⟩
    · exact ⟨hrefl, trivial, hhonest⟩
    · have hcleanup : options.cleanup = true := by simpa using hcleanup
      exact ⟨⟨id, id, id, id⟩, ⟨hcleanup, hfits⟩, hhonest.promptFiles, hhonest.stopResult,
        hhonest.stopFailed⟩
  case waiting.proceed =>
    simp only [step] at h
    split at h
    · rename_i stopped hstopped
      cases h
      refine ⟨hrefl, ?_, hhonest⟩
      rintro rfl
      rw [Launch.guestEnded, hhonest.stopResult hstopped, Bool.or_true]
    · split_ifs at h
      cases h
      exact ⟨hrefl, hnever, hhonest⟩
  case stopping.finished guestEnded stopped =>
    cases stopped <;> cases h
    · exact ⟨⟨id, id, fun _ => rfl, id⟩, ⟨rfl, hfits.2⟩, hhonest.promptFiles, hhonest.stopResult,
        fun _ => hfits.1⟩
    · have hended : ({ launch with stopConfirmed := true } : Launch).guestEnded = true := by
        simp [Launch.guestEnded]
      exact ⟨⟨id, fun _ => rfl, id, id⟩, fun _ => hended, Or.inr hended, fun _ => rfl,
        hhonest.stopFailed⟩
  case releasing.proceed =>
    cases h
    exact ⟨⟨id, id, id, id⟩, hfits.2, hhonest.promptFiles, hhonest.stopResult, hhonest.stopFailed⟩
  case deciding.proceed guestEnded =>
    cases guestEnded <;> cases h
    · split_ifs <;> exact ⟨hrefl, trivial, hhonest⟩
    · exact ⟨⟨id, id, id, id⟩, trivial, Or.inr (hfits rfl), hhonest.stopResult, hhonest.stopFailed⟩
  case looking.proceed =>
    cases h
    split_ifs with hstopped
    · refine ⟨hrefl, ?_, hhonest⟩
      show launch.guestEnded = true
      rw [Launch.guestEnded, hhonest.stopResult hstopped, Bool.or_true]
    · exact ⟨hrefl, trivial, hhonest⟩
  case selecting.received streamOpen stopOpen event =>
    cases streamOpen <;> cases stopOpen <;> cases event <;> cases h
    case true.false.exited | true.true.exited =>
      exact ⟨⟨fun _ => rfl, id, id, id⟩, rfl, Or.inr rfl, hhonest.stopResult, hhonest.stopFailed⟩
    all_goals exact ⟨hrefl, trivial, hhonest⟩
  case selecting.changed streamOpen stopOpen =>
    cases streamOpen <;> cases stopOpen <;> cases h <;> exact ⟨hrefl, trivial, hhonest⟩
  case removing.proceed =>
    cases h
    exact ⟨⟨id, id, id, id⟩, trivial, Or.inr hfits, hhonest.stopResult, hhonest.stopFailed⟩
  all_goals simp [step] at h

/-- So does a step of a cancellation. -/
theorem CancelPhase.grows {phase next : CancelPhase} (hfits : (Position.cancel phase).Fits options launch)
    (hhonest : launch.Honest options) (h : phase.step options launch choice = some (next, after)) :
    launch.Grows after ∧ (Position.cancel next).Fits options after ∧ after.Honest options := by
  have hrefl := Launch.Grows.refl launch
  cases phase <;> cases choice
  case calling.proceed =>
    simp only [step] at h
    split_ifs at h <;> cases h
    · exact ⟨hrefl, trivial, hhonest⟩
    · exact ⟨⟨id, id, id, id⟩, trivial, hhonest.promptFiles, hhonest.stopResult,
        hhonest.stopFailed⟩
  case sending.proceed =>
    simp only [step] at h
    split_ifs at h with hcleanup <;> cases h
    · exact ⟨hrefl, hcleanup, hhonest⟩
    · exact ⟨⟨id, id, id, id⟩, Bool.not_eq_true _ |>.mp hcleanup, hhonest.promptFiles,
        hhonest.stopResult, hhonest.stopFailed⟩
  case sleeping.proceed =>
    simp only [step] at h
    split_ifs at h <;> cases h <;>
      exact ⟨⟨id, id, id, id⟩, hfits, hhonest.promptFiles, hhonest.stopResult,
        hhonest.stopFailed⟩
  case killing.proceed =>
    cases h
    exact ⟨hrefl, hfits, hhonest⟩
  case stopping.finished stopped =>
    cases stopped <;> cases h
    · exact ⟨⟨id, id, fun _ => rfl, id⟩, trivial, hhonest.promptFiles, hhonest.stopResult,
        fun _ => hfits⟩
    · have hended : ({ launch with stopConfirmed := true } : Launch).guestEnded = true := by
        simp [Launch.guestEnded]
      exact ⟨⟨id, fun _ => rfl, id, id⟩, fun _ => rfl, Or.inr hended, fun _ => rfl,
        hhonest.stopFailed⟩
  case releasing.proceed =>
    cases h
    exact ⟨⟨id, id, id, id⟩, fun hstopped => absurd hstopped (by simp), hhonest.promptFiles,
      hhonest.stopResult, hhonest.stopFailed⟩
  case publishing.proceed stopped =>
    cases stopped <;> cases h
    · exact ⟨⟨id, id, id, id⟩, trivial, hhonest.promptFiles, fun hsome => absurd hsome (by simp),
        hhonest.stopFailed⟩
    · exact ⟨⟨id, id, id, id⟩, hfits rfl, hhonest.promptFiles, fun _ => hfits rfl,
        hhonest.stopFailed⟩
  case resetting.proceed =>
    cases h
    exact ⟨⟨id, id, id, id⟩, trivial, hhonest.promptFiles, hhonest.stopResult,
      hhonest.stopFailed⟩
  all_goals simp [step] at h

/-- So does a step of any task. -/
theorem Position.grows (hfits : position.Fits options launch) (hhonest : launch.Honest options)
    (h : position.step options choice launch = some (next, after)) :
    launch.Grows after ∧ next.Fits options after ∧ after.Honest options := by
  cases position with
  | event phase =>
    obtain ⟨moved, hmoved, heq⟩ := Option.map_eq_some_iff.mp h
    cases heq
    exact EventPhase.grows hfits hhonest hmoved
  | cancel phase =>
    obtain ⟨moved, hmoved, heq⟩ := Option.map_eq_some_iff.mp h
    cases heq
    exact CancelPhase.grows hfits hhonest hmoved
  | dropping =>
    cases h
    exact ⟨⟨id, id, id, fun hheld => absurd hheld (by simp)⟩, trivial, hhonest.promptFiles,
      hhonest.stopResult, hhonest.stopFailed⟩
  | dropped => cases h

/-! ## Who has the flags -/

/-- What holds of a launch however it is scheduled. -/
structure Inv (options : ExecBridgeOptions) (config : Config Launch Position) : Prop where
  /-- What the calls say of the guest was seen of it. -/
  fits : ∀ id position, config.calls id = some position → position.Fits options config.shared
  /-- What they share was seen of it, too. -/
  honest : config.shared.Honest options
  /-- One call at most has the claim, until a stop succeeds. -/
  claim : Taken config (Position.holdsClaim · = true) (config.shared.cleanupClaimed = true)
    (config.shared.stopConfirmed = true)
  /-- One timer at most is on its way, until one is over that does not lower the flag. -/
  request : Taken config (Position.holdsRequest · = true) (config.shared.requested = true)
    (config.Some (Position.keptRequest · = true))

variable {config : Config Launch Position} {id : Nat}

/-- The invariant holds when a launch begins. -/
theorem inv_launched : Inv options (launched options) := by
  have hidle : (Config.idle options.launch : Config Launch Position).calls 0 = none := rfl
  have hkept : (launched options).Some (Position.keptRequest · = true) ↔
      (Config.idle options.launch : Config Launch Position).Some (Position.keptRequest · = true) :=
    Config.some_start_iff hidle (by simp [Position.keptRequest])
  constructor
  · intro id position hposition
    rcases Config.calls_move hposition with ⟨-, rfl⟩ | ⟨-, hbefore⟩
    · trivial
    · cases hbefore
  · constructor
    · exact Or.inl rfl
    · intro hsome
      cases hsome
    · intro hfailed
      cases hfailed
  · exact (Taken.idle Bool.false_ne_true Bool.false_ne_true).started hidle
      (by simp [Position.holdsClaim]) Iff.rfl
  · exact (Taken.idle Bool.false_ne_true Config.not_some_idle).started hidle
      (by simp [Position.holdsRequest]) hkept

/-- It is kept when a call starts. -/
theorem Inv.started (h : Inv options config) (hnew : config.calls id = none)
    (hstarts : (teardown options).starts position = true) :
    Inv options (config.move id position config.shared) := by
  have hposition : position = .cancel .calling ∨ position = .dropping := by
    simpa [teardown] using hstarts
  have hkept : ¬position.keptRequest = true := by
    rcases hposition with rfl | rfl <;> simp [Position.keptRequest]
  constructor
  · intro other at_ hat
    rcases Config.calls_move hat with ⟨-, rfl⟩ | ⟨-, hbefore⟩
    · rcases hposition with rfl | rfl <;> trivial
    · exact h.fits other at_ hbefore
  · exact h.honest
  · apply h.claim.started hnew _ Iff.rfl
    rcases hposition with rfl | rfl <;> simp [Position.holdsClaim]
  · apply h.request.started hnew _ (Config.some_start_iff hnew hkept)
    rcases hposition with rfl | rfl <;> simp [Position.holdsRequest]

section

variable (h : Inv options config) (hold : config.calls id = some position)
  (hstep : position.step options choice config.shared = some (next, after))
include h hold hstep

/-- After a step the claim is still held by one task, or given up. -/
theorem Inv.claim_moved :
    Taken (config.move id next after) (Position.holdsClaim · = true)
      (after.cleanupClaimed = true) (after.stopConfirmed = true) := by
  cases Position.claimEffect hstep with
  | kept hholds hclaim hconfirmed =>
    apply h.claim.stays hold
    · rw [hholds]
    · rw [hclaim]
    · rw [hconfirmed]
  | taken hfree hnext hclaim hconfirmed =>
    apply h.claim.takes hold _ hnext hclaim
    · rw [hconfirmed]
    · simp [hfree]
  | given hholds hnext hclaim hconfirmed =>
    apply h.claim.gives hold hholds
    · simp [hnext]
    · simp [hclaim]
    · rw [hconfirmed]
  | finished hholds hnext hclaim hconfirmed =>
    apply h.claim.leaves hold hholds _ _ hconfirmed
    · simp [hnext]
    · rw [hclaim]
      exact h.claim.raised ⟨id, position, hold, hholds⟩

/-- After a step the flag is still held by one timer, or left for good. -/
theorem Inv.request_moved :
    Taken (config.move id next after) (Position.holdsRequest · = true)
      (after.requested = true) ((config.move id next after).Some (Position.keptRequest · = true)) := by
  cases Position.requestEffect hstep with
  | kept hholds hkept hrequest =>
    apply h.request.stays hold
    · rw [hholds]
    · rw [hrequest]
    · exact Config.some_move_iff hold (by rw [hkept])
  | taken hfree hnext hkept hrequest =>
    apply h.request.takes hold _ hnext hrequest
    · exact Config.some_move_iff hold (by rw [hkept])
    · simp [hfree]
  | given hholds hnext hkept hrequest =>
    apply h.request.gives hold hholds
    · simp [hnext]
    · simp [hrequest]
    · exact Config.some_move_iff hold (by rw [hkept])
  | left hholds hnext hkept hrequest =>
    have hleft : (config.move id next after).Some (Position.keptRequest · = true) :=
      Config.Some.moved hkept
    apply h.request.leaves hold hholds _ _ hleft
    · simp [hnext]
    · rw [hrequest]
      exact h.request.raised ⟨id, position, hold, hholds⟩

/-- A step keeps the invariant. -/
theorem Inv.moved :
    Inv options (config.move id next after) := by
  have hgrows := Position.grows (h.fits id position hold) h.honest hstep
  constructor
  · intro other at_ hat
    rcases Config.calls_move hat with ⟨-, rfl⟩ | ⟨-, hbefore⟩
    · exact hgrows.2.1
    · exact (h.fits other at_ hbefore).grows hgrows.1
  · exact hgrows.2.2
  · exact h.claim_moved hold hstep
  · exact h.request_moved hold hstep

end

/-- Every run keeps the invariant. -/
theorem inv_preserved (options : ExecBridgeOptions) :
    (teardown options).Preserves (fun _ _ => True) (Inv options) where
  start := Inv.started
  step := fun h _ hold hstep => h.moved hold hstep

/-- However a launch is scheduled, the flags belong to one task each. -/
theorem inv_run (options : ExecBridgeOptions) (events : List (Event Choice Position)) :
    Inv options ((teardown options).run (launched options) events) :=
  (inv_preserved options).run inv_launched (System.meets_of_always (fun _ _ => trivial) events)

/-! ## Staying stoppable -/

theorem Position.holds_of_cleaning (h : position.cleaning = true) :
    position.holdsClaim = true ∨ position.holdsRequest = true := by
  cases position with
  | event phase => cases phase <;> simp_all [cleaning, holdsClaim]
  | cancel phase => cases phase <;> simp_all [cleaning, holdsRequest]
  | _ => cases h

/-- Who holds the flag waits for its timer or cleans up. -/
theorem Position.scheduled_or_cleaning (h : position.holdsRequest = true) :
    position.scheduled = true ∨ position.cleaning = true := by
  cases position with
  | cancel phase => cases phase <;> simp_all [cleaning, holdsRequest, scheduled]
  | _ => cases h

theorem Position.holdsRequest_of_scheduled (h : position.scheduled = true) :
    position.holdsRequest = true := by
  cases position with
  | cancel phase => cases phase <;> simp_all [holdsRequest, scheduled]
  | _ => cases h

theorem Position.holdsClaim_of_finishing (h : position.finishing = true) :
    position.holdsClaim = true := by
  cases position with
  | event phase | cancel phase => cases phase <;> simp_all [finishing, holdsClaim]
  | _ => cases h

/-- Only the event task and a timer have the claim. -/
theorem Position.task_or_timer (h : position.holdsClaim = true) :
    position.taskCleaning = true ∨ position.holdsRequest = true := by
  cases position with
  | event phase => cases phase <;> simp_all [taskCleaning, holdsClaim]
  | cancel phase => cases phase <;> simp_all [holdsRequest, holdsClaim]
  | _ => cases h

theorem Position.cleaning_of_task (h : position.taskCleaning = true) : position.cleaning = true := by
  cases position with
  | event phase => cases phase <;> simp_all [taskCleaning, cleaning]
  | _ => cases h

/-- Only a timer that finds the cleanup claimed is lost. -/
theorem Position.lost_cases (h : position.step options choice launch = some (.cancel .lost, after)) :
    position = .cancel .sleeping ∧ launch.cleanupClaimed = true := by
  cases position with
  | event phase =>
    obtain ⟨moved, -, heq⟩ := Option.map_eq_some_iff.mp h
    cases heq
  | cancel phase =>
    obtain ⟨⟨next, after'⟩, hmoved, heq⟩ := Option.map_eq_some_iff.mp h
    obtain rfl : next = .lost := by simpa using congrArg Prod.fst heq
    cases phase <;> cases choice
    case calling.proceed | sending.proceed =>
      simp only [CancelPhase.step] at hmoved
      split_ifs at hmoved <;> cases hmoved
    case sleeping.proceed =>
      simp only [CancelPhase.step] at hmoved
      split_ifs at hmoved with hclaimed
      · exact ⟨rfl, hclaimed⟩
      · cases hmoved
    case stopping.finished stopped => cases stopped <;> cases hmoved
    case publishing.proceed stopped => cases stopped <;> cases hmoved
    all_goals simp [CancelPhase.step] at hmoved
  | dropping | dropped => cases h

/-- The event task leaves the cleanup with the sandbox stopped, or giving up the claim. -/
theorem Position.task_leaves (htask : position.taskCleaning = true)
    (h : position.step options choice launch = some (next, after)) :
    next.taskCleaning = true ∨ after.stopConfirmed = true ∨
      choice = .proceed ∧ ∃ guestEnded, position = .event (.releasing guestEnded) := by
  cases position with
  | event phase =>
    obtain ⟨moved, hmoved, heq⟩ := Option.map_eq_some_iff.mp h
    cases heq
    cases phase with
    | stopping guestEnded =>
      cases choice with
      | finished stopped =>
        cases stopped <;> cases hmoved
        · exact Or.inl rfl
        · exact Or.inr (Or.inl rfl)
      | _ => cases hmoved
    | releasing guestEnded =>
      cases choice with
      | proceed => exact Or.inr (Or.inr ⟨rfl, guestEnded, rfl⟩)
      | _ => cases hmoved
    | _ => cases htask
  | _ => cases htask

/-- The event task gives up the claim of a stop that failed, of a guest that may still run and
could be cancelled, after a timer has lost the claim to it. -/
def Strands (config : Config Launch Position) (event : Event Choice Position) : Prop :=
  config.shared.guestEnded = false ∧ config.shared.cancellable = true ∧
    config.Some (· = .cancel .lost) ∧
    ∃ id guestEnded, event = .step id .proceed ∧
      config.calls id = some (.event (.releasing guestEnded))

/-- Where a timer has lost the claim, the event task still has it, or nobody needs it. -/
def Unstranded (config : Config Launch Position) : Prop :=
  config.Some (· = .cancel .lost) → config.Some (Position.taskCleaning · = true) ∨
    config.shared.guestEnded = true ∨ config.shared.cancellable = false

/-- A call that starts strands no launch. -/
theorem Unstranded.started (h : Unstranded config) (hnew : config.calls id = none)
    (hstarts : (teardown options).starts position = true) :
    Unstranded (config.move id position config.shared) := by
  have hposition : position = .cancel .calling ∨ position = .dropping := by
    simpa [teardown] using hstarts
  intro hlost
  have hbefore : config.Some (· = .cancel .lost) := by
    apply (Config.some_start_iff hnew _).mp hlost
    rcases hposition with rfl | rfl <;> simp
  rcases h hbefore with htask | hknown
  · exact Or.inl (htask.started hnew)
  · exact Or.inr hknown

/-- A timer loses the claim to the event task, or to a stop that succeeded. -/
theorem Inv.lost (h : Inv options config) (hold : config.calls id = some (.cancel .sleeping))
    (hclaimed : config.shared.cleanupClaimed = true) :
    config.Some (Position.taskCleaning · = true) ∨ config.shared.guestEnded = true := by
  rcases h.claim.owed hclaimed with ⟨other, at_, hother, hholds⟩ | hconfirmed
  · rcases Position.task_or_timer hholds with htask | htimer
    · exact Or.inl ⟨other, at_, hother, htask⟩
    · obtain rfl := h.request.alone other id at_ _ hother hold htimer rfl
      rw [hold] at hother
      cases hother
      cases hholds
  · right
    rw [Launch.guestEnded, hconfirmed, Bool.or_true]

/-- A step strands no launch unless it gives up a claim that a timer lost. -/
theorem Unstranded.moved (h : Unstranded config) (hinv : Inv options config)
    (hold : config.calls id = some position) (hallowed : ¬Strands config (.step id choice))
    (hstep : position.step options choice config.shared = some (next, after)) :
    Unstranded (config.move id next after) := by
  have hgrows := (Position.grows (hinv.fits id position hold) hinv.honest hstep).1
  intro hlost
  -- Before the step, the event task has the claim, or nobody needs it.
  have hbefore : config.Some (Position.taskCleaning · = true) ∨
      config.shared.guestEnded = true ∨ config.shared.cancellable = false := by
    rcases Config.Some.before' hlost with rfl | hlost
    · obtain ⟨rfl, hclaimed⟩ := Position.lost_cases hstep
      exact (hinv.lost hold hclaimed).imp_right Or.inl
    · exact h hlost
  rcases hbefore with htask | hended | hheld
  · by_cases hleaves : position.taskCleaning = true → next.taskCleaning = true
    · exact Or.inl (htask.stays hold hleaves)
    · rw [Classical.not_imp] at hleaves
      rcases Position.task_leaves hleaves.1 hstep with hstays | hconfirmed |
        ⟨rfl, guestEnded, rfl⟩
      · exact absurd hstays hleaves.2
      · right
        left
        show after.guestEnded = true
        rw [Launch.guestEnded, hconfirmed, Bool.or_true]
      · have hlost : config.Some (· = .cancel .lost) := by
          rcases Config.Some.before' hlost with hnext | hlost
          · rw [hnext] at hstep
            obtain ⟨hposition, -⟩ := Position.lost_cases hstep
            cases hposition
          · exact hlost
        by_cases hended : config.shared.guestEnded = true
        · exact Or.inr (Or.inl (hgrows.guestEnded hended))
        · by_cases hheld : config.shared.cancellable = true
          · exact absurd ⟨by simpa using hended, hheld, hlost, id, guestEnded, rfl, hold⟩ hallowed
          · right
            right
            exact Bool.not_eq_true _ |>.mp fun hafter => hheld (hgrows.cancellable hafter)
  · exact Or.inr (Or.inl (hgrows.guestEnded hended))
  · right
    right
    apply Bool.not_eq_true _ |>.mp
    intro hafter
    rw [hgrows.cancellable hafter] at hheld
    cases hheld

/-- A run without such a step strands no launch. -/
theorem unstranded_preserved (options : ExecBridgeOptions) :
    (teardown options).Preserves (fun config event => ¬Strands config event)
      (fun config => Inv options config ∧ Unstranded config) where
  start := fun h hnew hstarts => ⟨h.1.started hnew hstarts, h.2.started hnew hstarts⟩
  step := fun h hallowed hold hstep => ⟨h.1.moved hold hstep, h.2.moved h.1 hold hallowed hstep⟩

/-! ## A later cancellation -/

/-- A cancellation nobody knows of yet is called and swaps the flag. -/
def cancelled (options : ExecBridgeOptions) (config : Config Launch Position) (id : Nat) :
    Config Launch Position :=
  (teardown options).run config [.start id (.cancel .calling), .step id .proceed]

/-- A cancellation schedules a timer unless one was asked for. -/
theorem cancelled_scheduled (hnew : config.calls id = none) (hheld : config.shared.cancellable = true) :
    (cancelled options config id).Some (Position.scheduled · = true) ↔
      config.shared.requested = false ∨ config.Some (Position.scheduled · = true) := by
  have hstart : (teardown options).next config (.start id (.cancel .calling)) =
      config.move id (.cancel .calling) config.shared :=
    System.next_start hnew (by simp [teardown])
  have hcalled : (config.move id (.cancel .calling) config.shared).Some
      (Position.scheduled · = true) ↔ config.Some (Position.scheduled · = true) :=
    Config.some_start_iff hnew (by simp [Position.scheduled])
  rw [cancelled, System.run_cons, System.run_cons, hstart]
  cases hrequested : config.shared.requested with
  | false =>
    have hstep : (teardown options).step (.cancel .calling) .proceed config.shared =
        some (.cancel .sending, { config.shared with
          requested := true, timers := config.shared.timers + 1 }) := by
      simp [teardown, Position.step, CancelPhase.step, hheld, hrequested]
    rw [System.next_step Config.move_self hstep]
    have hsent : ((config.move id (.cancel .calling) config.shared).move id (.cancel .sending)
        { config.shared with requested := true, timers := config.shared.timers + 1 }).Some
        (Position.scheduled · = true) := Config.Some.moved rfl
    exact ⟨fun _ => Or.inl rfl, fun _ => hsent⟩
  | true =>
    have hstep : (teardown options).step (.cancel .calling) .proceed config.shared =
        some (.cancel .returned, config.shared) := by
      simp [teardown, Position.step, CancelPhase.step, hheld, hrequested]
    rw [System.next_step Config.move_self hstep]
    have hreturned : ((config.move id (.cancel .calling) config.shared).move id
        (.cancel .returned) config.shared).Some (Position.scheduled · = true) ↔
        (config.move id (.cancel .calling) config.shared).Some (Position.scheduled · = true) :=
      Config.some_move_iff Config.move_self (by simp [Position.scheduled])
    simp only [Bool.true_eq_false, false_or]
    exact hreturned.trans hcalled

/-- What a teardown promises. -/
structure Stoppable (options : ExecBridgeOptions) (config : Config Launch Position) : Prop where
  /-- `finish_owned` never runs twice at a time. -/
  alone : config.Alone (Position.finishing · = true)
  /-- The prompt files are there until the guest's exit was observed or a stop confirmed. -/
  promptFiles : config.shared.promptFiles = options.promptFiles ∨
    config.shared.guestEnded = true
  /-- After a failed stop, while the guest is not known to have ended and nobody is cleaning up, a
  cancellation leaves a stop scheduled. -/
  schedules : config.shared.stopFailed = true → config.shared.guestEnded = false →
    ¬config.Some (Position.cleaning · = true) → config.shared.cancellable = true →
    ∀ id, config.calls id = none →
      (cancelled options config id).Some (Position.scheduled · = true)

/-- One task at most is finishing. -/
theorem Inv.alone (h : Inv options config) : config.Alone (Position.finishing · = true) := by
  intro first second at_ other hfirst hsecond hat hother
  exact h.claim.alone first second at_ other hfirst hsecond
    (Position.holdsClaim_of_finishing hat) (Position.holdsClaim_of_finishing hother)

/-- A launch that is not stranded is stoppable. -/
theorem Inv.stoppable (h : Inv options config) (hstranded : Unstranded config) :
    Stoppable options config where
  alone := h.alone
  promptFiles := h.honest.promptFiles
  schedules := by
    intro hfailed hended hcleaning hheld id hnew
    rw [cancelled_scheduled hnew hheld]
    cases hrequested : config.shared.requested with
    | false => exact Or.inl rfl
    | true =>
      right
      rcases h.request.owed hrequested with ⟨other, at_, hother, hholds⟩ | hkept
      · rcases Position.scheduled_or_cleaning hholds with hscheduled | hcleans
        · exact ⟨other, at_, hother, hscheduled⟩
        · exact absurd ⟨other, at_, hother, hcleans⟩ hcleaning
      · exfalso
        obtain ⟨other, at_, hother, hat⟩ := hkept
        have hfits := h.fits other at_ hother
        unfold Position.keptRequest at hat
        split at hat
        · -- The timer lost the claim: to the event task, which is not cleaning up any more.
          rcases hstranded ⟨other, _, hother, rfl⟩ with ⟨task, at_, htask, hat⟩ | hknown | hnobody
          · exact hcleaning ⟨task, at_, htask, Position.cleaning_of_task hat⟩
          · rw [hended] at hknown
            cases hknown
          · rw [hheld] at hnobody
            cases hnobody
        · rw [Launch.guestEnded, show config.shared.stopConfirmed = true from hfits,
            Bool.or_true] at hended
          cases hended
        · have hcleanup := h.honest.stopFailed hfailed
          rw [show options.cleanup = false from hfits] at hcleanup
          cases hcleanup
        · cases hat

/-- Once the event task has given up a claim that a timer has lost, no cancellation schedules a
stop any more. -/
theorem Inv.not_stoppable (h : Inv options config) {event : Event Choice Position}
    (hstrands : Strands config event)
    (hunused : ∃ id, ((teardown options).next config event).calls id = none) :
    ¬Stoppable options ((teardown options).next config event) := by
  obtain ⟨hended, hheld, hlost, task, guestEnded, rfl, htask⟩ := hstrands
  have hstep : Position.step options (.event (.releasing guestEnded)) .proceed config.shared =
      some (.event (.deciding guestEnded), { config.shared with cleanupClaimed := false }) := rfl
  have hnext : (teardown options).next config (.step task .proceed) =
      config.move task (.event (.deciding guestEnded))
        { config.shared with cleanupClaimed := false } := System.next_step htask hstep
  obtain ⟨id, hid⟩ := hunused
  rw [hnext] at hid ⊢
  have hafter := h.moved htask hstep
  generalize hmoved : config.move task (.event (.deciding guestEnded))
      { config.shared with cleanupClaimed := false } = after at hid hafter ⊢
  -- The lost timer's flag stays up, so no other timer is on its way.
  have hkept : after.Some (Position.keptRequest · = true) := by
    obtain ⟨other, at_, hother, rfl⟩ := hlost
    have hne : other ≠ task := by
      rintro rfl
      rw [htask] at hother
      cases hother
    refine ⟨other, .cancel .lost, ?_, rfl⟩
    rw [← hmoved, Config.move_of_ne hne]
    exact hother
  have hrequest : ¬after.Some (Position.holdsRequest · = true) := fun hsome =>
    hafter.request.unspent hsome hkept
  have hclaim : ¬after.Some (Position.holdsClaim · = true) := by
    intro hsome
    have hraised := hafter.claim.raised hsome
    rw [← hmoved] at hraised
    cases hraised
  have hshared : after.shared = { config.shared with cleanupClaimed := false } := by
    rw [← hmoved]
    rfl
  intro hstoppable
  have hscheduled := hstoppable.schedules (by rw [hshared]; exact (h.fits _ _ htask).1)
    (by rw [hshared]; exact hended)
    (by
      rintro ⟨other, at_, hother, hat⟩
      rcases Position.holds_of_cleaning hat with hholds | hholds
      · exact hclaim ⟨other, at_, hother, hholds⟩
      · exact hrequest ⟨other, at_, hother, hholds⟩)
    (by rw [hshared]; exact hheld) id hid
  rw [cancelled_scheduled hid (by rw [hshared]; exact hheld)] at hscheduled
  rcases hscheduled with hdown | ⟨other, at_, hother, hat⟩
  · rw [hafter.request.kept hkept] at hdown
    cases hdown
  · exact hrequest ⟨other, at_, hother, Position.holdsRequest_of_scheduled hat⟩

/-- A run keeps what a teardown promises in every state it reaches if and only if the event task
never gives up the claim of a failed stop after a timer has lost the claim to it. -/
theorem stoppable_iff (options : ExecBridgeOptions) (events : List (Event Choice Position)) :
    (∀ count, Stoppable options ((teardown options).run (launched options) (events.take count))) ↔
      (teardown options).Meets (fun config event => ¬Strands config event) (launched options)
        events := by
  constructor
  · intro hall
    rw [System.meets_iff]
    intro count event hevent hstrands
    have hnext := hall (count + 1)
    rw [System.run_take_succ hevent] at hnext
    have hbound : ∀ id, 1 ≤ id → (launched options).calls id = none := fun id hid =>
      Config.move_of_ne (by omega)
    have hunused : ∃ id, ((teardown options).next ((teardown options).run (launched options)
        (events.take count)) event).calls id = none := by
      rw [← System.run_take_succ hevent]
      exact System.run_unused hbound
    exact (inv_run options (events.take count)).not_stoppable hstrands hunused hnext
  · intro hmeets count
    have hinit : Inv options (launched options) ∧ Unstranded (launched options) := by
      refine ⟨inv_launched, ?_⟩
      rintro ⟨id, position, hposition, rfl⟩
      rcases Config.calls_move hposition with ⟨-, hlost⟩ | ⟨-, hbefore⟩
      · cases hlost
      · cases hbefore
    have hrun := (unstranded_preserved options).run hinit (hmeets.take count)
    exact hrun.1.stoppable hrun.2

/-- The stream lags, an agent is cancelled, and its grace ends while the event task stops the
sandbox, which fails. -/
def lostGrace : List (Event Choice Position) := [
  .step 0 (.received .lagged),
  .start 1 (.cancel .calling), .step 1 .proceed, .step 1 .proceed,
  .step 0 .proceed,
  .step 1 .proceed,
  .step 0 (.finished false)]

/-- The cancelled agent of a lagged stream cannot be cancelled again, and runs on. -/
theorem stranded_launch : ¬∀ (options : ExecBridgeOptions) (events : List (Event Choice Position)),
    Stoppable options ((teardown options).run (launched options) events) := by
  intro hall
  have hstoppable := hall ⟨true, ["prompt.md"]⟩ (lostGrace ++ [.step 0 .proceed])
  rw [System.run_append] at hstoppable
  have hstrands : Strands ((teardown ⟨true, ["prompt.md"]⟩).run (launched ⟨true, ["prompt.md"]⟩)
      lostGrace) (.step 0 .proceed) :=
    ⟨rfl, rfl, ⟨1, .cancel .lost, rfl, rfl⟩, 0, false, rfl, rfl⟩
  exact (inv_run _ lostGrace).not_stoppable hstrands ⟨2, rfl⟩ hstoppable

end Awman.Exec
