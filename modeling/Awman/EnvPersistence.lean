import Awman.EnvCoherence

/-!
# When the secret store keeps up with the overlay

Every change of the overlay is written through by the call that made it, in a helper thread that
nothing orders against the others.  The store ends with the values of the overlay if no write
replaces values that only it could still have brought up to date, and it is left alone after a
failure if no helper still runs then.
-/

namespace Awman.Squad

open Interleaving

/-! ## The calls of the store -/

/-- A push or a refresh starts here. -/
def Position.isPushOrRefresh : Position → Bool
  | .setRequired .. => true
  | .applyPush .. => true
  | _ => false

/-- Pushes and refreshes of one daemon. -/
def writeSystem : System Choice DaemonEnvState Position :=
  { envSystem with starts := Position.isPushOrRefresh }

/-- The call belongs to a load. -/
def Position.isLoad : Position → Bool
  | .loadFromStore _ => true
  | .loading _ => true
  | .merging _ => true
  | .noting .. => true
  | _ => false

/-- The call has still to write exactly the values of the overlay. -/
def Position.carries (overlay : DaemonEnvMap) : Position → Prop
  | .persisting vars _ => vars.SameValues overlay
  | .storing vars _ => vars.SameValues overlay
  | _ => False

/-- A call of the store has failed or took too long, and the daemon is about to learn it. -/
def Position.isDegrading : Position → Bool
  | .degrading .. => true
  | _ => false

/-- A helper thread of the call may still write to the store. -/
def Position.mayWrite : Position → Bool
  | .storing .. => true
  | .degrading (some _) _ => true
  | .detached .. => true
  | _ => false

/-- The values the helper thread of the call may still write. -/
def Position.toWrite : Position → Option DaemonEnvMap
  | .storing vars _ => some vars
  | .degrading running _ => running
  | .detached vars _ => some vars
  | _ => none

/-- The secret store holds exactly the values of the overlay. -/
def DaemonEnvState.Persisted (state : DaemonEnvState) : Prop :=
  (state.stored.getD ∅).SameValues state.overlay

/-- A write brings the values the overlay holds, or another call still has these to write, or a
call of the store has failed.  The daemon gives the store up when no helper thread can still
write. -/
def WritesTheCurrent (config : Config DaemonEnvState Position) : Event Choice Position → Prop
  | .start _ _ => True
  | .step id choice => ∀ position, config.calls id = some position →
    (∀ vars, position.toWrite = some vars → choice = .write →
      vars.SameValues config.shared.overlay ∨
      (∃ other, other ≠ id ∧ ∃ standing, config.calls other = some standing ∧
        standing.carries config.shared.overlay) ∨
      config.Some (·.isDegrading = true)) ∧
    (position.isDegrading = true → choice = .proceed → config.shared.degraded = false →
      ¬config.Some (·.mayWrite = true))

/-! ## The invariant -/

/-- What holds while calls are under way. -/
structure Kept (config : Config DaemonEnvState Position) : Prop where
  noLoad : config.Every fun position => position.isLoad = false
  /-- The keychain is in use until the daemon gives it up. -/
  keychain : config.shared.degraded = false → config.shared.store = .keychain
  /-- The store is up to date, will be, or is about to be given up. -/
  persisted : config.shared.degraded = false → config.shared.Persisted ∨
    config.Some (Position.carries config.shared.overlay) ∨ config.Some (·.isDegrading = true)
  /-- Nothing can write to a store that was given up. -/
  silent : config.shared.degraded = true → ¬config.Some (·.mayWrite = true)

/-- What a step of a call does to the store and the overlay. -/
inductive StoreStep (state : DaemonEnvState) :
    Position → Choice → Position → DaemonEnvState → Prop where
  /-- Nothing; the call may have taken the store, or have failed to write. -/
  | quiet {old position : Position} {choice : Choice} {after : DaemonEnvState}
      (hstored : after.stored = state.stored) (hoverlay : after.overlay = state.overlay)
      (hdegraded : after.degraded = state.degraded) (hstore : after.store = state.store)
      (hload : old.isLoad = false → position.isLoad = false)
      (hcarries : state.degraded = false → state.store = .keychain → old.carries state.overlay →
        position.carries state.overlay ∨ position.isDegrading = true)
      (hdegrading : old.isDegrading = true → position.isDegrading = true)
      (hwrites : position.mayWrite = true → old.mayWrite = true ∨ state.degraded = false) :
      StoreStep state old choice position after
  /-- The overlay changed, and the call goes on to write it through. -/
  | changed {old : Position} {overlay : DaemonEnvMap} {choice : Choice} {answer : Answer}
      {after : DaemonEnvState} (hold : old.isDegrading = false)
      (hstored : after.stored = state.stored) (hoverlay : after.overlay = overlay)
      (hdegraded : after.degraded = state.degraded) (hstore : after.store = state.store) :
      StoreStep state old choice (.persisting overlay answer) after
  /-- The helper thread of the call wrote. -/
  | wrote {old position : Position} {vars : DaemonEnvMap} (hwrites : old.toWrite = some vars)
      (hload : position.isLoad = false)
      (hdegrading : old.isDegrading = true → position.isDegrading = true) :
      StoreStep state old .write position { state with stored := some vars }
  | gaveUp {old position : Position} (hdegrading : old.isDegrading = true)
      (hload : position.isLoad = false)
      (hwrites : position.mayWrite = true → old.mayWrite = true) :
      StoreStep state old .proceed position state.degrade
  | load {old position : Position} {choice : Choice} {after : DaemonEnvState}
      (hload : old.isLoad = true) (hstored : after.stored = state.stored) :
      StoreStep state old choice position after

/-- Every step of a call is one of these. -/
theorem DaemonEnvState.step_store {state after : DaemonEnvState} {old position : Position}
    {choice : Choice} (h : DaemonEnvState.step old choice state = some (position, after)) :
    StoreStep state old choice position after := by
  cases old with
  | setRequired | refreshing =>
    cases choice <;> simp only [step, Option.some.injEq, Prod.mk.injEq, reduceCtorEq] at h
    obtain ⟨rfl, rfl⟩ := h
    refine .quiet rfl rfl rfl rfl ?_ ?_ ?_ ?_ <;>
      simp [Position.isLoad, Position.carries, Position.isDegrading, Position.mayWrite]
  | retaining wanted =>
    cases choice <;> simp only [step, reduceCtorEq] at h
    split at h <;> cases h
    · refine .quiet rfl rfl rfl rfl ?_ ?_ ?_ ?_ <;>
        simp [Position.isLoad, Position.carries, Position.isDegrading, Position.mayWrite]
    · exact .changed rfl rfl rfl rfl rfl
  | applyPush vars absent now =>
    cases choice <;> simp only [step, reduceCtorEq] at h
    split at h <;> cases h <;> refine .quiet rfl rfl rfl rfl ?_ ?_ ?_ ?_ <;>
      simp [Position.isLoad, Position.carries, Position.isDegrading, Position.mayWrite]
  | landing values answer =>
    cases choice <;> simp only [step, Option.some.injEq, Prod.mk.injEq, reduceCtorEq] at h
    obtain ⟨rfl, rfl⟩ := h
    exact .changed rfl rfl rfl rfl rfl
  | loadFromStore probed =>
    refine .load rfl ?_
    cases probed <;> cases choice <;> simp only [step, reduceCtorEq] at h <;> grind
  | loading store =>
    refine .load rfl ?_
    cases choice <;> simp only [step, reduceCtorEq] at h <;> grind
  | merging | noting =>
    refine .load rfl ?_
    cases choice <;> simp only [step, reduceCtorEq] at h
    grind
  | persisting overlay answer =>
    cases choice <;> simp only [step, reduceCtorEq] at h
    split at h <;> cases h
    · next hgone =>
      refine .quiet rfl rfl rfl rfl ?_ ?_ ?_ ?_
      · simp [Position.isLoad]
      · intro hfine hkeychain
        rw [hfine, hkeychain] at hgone
        exact absurd hgone (by simp)
      · simp [Position.isDegrading]
      · simp [Position.mayWrite]
    · next hfine =>
      refine .quiet rfl rfl rfl rfl ?_ ?_ ?_ ?_
      · simp [Position.isLoad]
      · exact fun _ _ hcarries => Or.inl hcarries
      · simp [Position.isDegrading]
      · intro _
        exact Or.inr (by simpa using fun hdegraded => hfine (Or.inl hdegraded))
  | storing vars answer =>
    cases choice <;> simp only [step, Option.some.injEq, Prod.mk.injEq, reduceCtorEq] at h <;>
      obtain ⟨rfl, rfl⟩ := h
    · exact .wrote rfl rfl (by simp [Position.isDegrading])
    · refine .quiet rfl rfl rfl rfl ?_ ?_ ?_ ?_ <;>
        simp [Position.isLoad, Position.isDegrading, Position.mayWrite]
    · refine .quiet rfl rfl rfl rfl ?_ ?_ ?_ ?_ <;>
        simp [Position.isLoad, Position.isDegrading, Position.mayWrite]
  | written answer =>
    cases choice <;> simp only [step, Option.some.injEq, Prod.mk.injEq, reduceCtorEq] at h <;>
      obtain ⟨rfl, rfl⟩ := h <;> refine .quiet rfl rfl rfl rfl ?_ ?_ ?_ ?_ <;>
      simp [Position.isLoad, Position.carries, Position.isDegrading, Position.mayWrite]
  | degrading running answer =>
    cases running <;> cases choice <;>
      simp only [step, Option.some.injEq, Prod.mk.injEq, reduceCtorEq] at h <;>
      obtain ⟨rfl, rfl⟩ := h
    · exact .gaveUp rfl rfl (by simp [Position.mayWrite])
    · exact .gaveUp rfl rfl (by simp [Position.mayWrite])
    · exact .wrote rfl rfl (by simp [Position.isDegrading])
    · refine .quiet rfl rfl rfl rfl ?_ ?_ ?_ ?_ <;>
        simp [Position.isLoad, Position.isDegrading, Position.mayWrite]
  | detached vars answer =>
    cases choice <;> simp only [step, Option.some.injEq, Prod.mk.injEq, reduceCtorEq] at h <;>
      obtain ⟨rfl, rfl⟩ := h
    · exact .wrote rfl rfl (by simp [Position.isDegrading])
    · refine .quiet rfl rfl rfl rfl ?_ ?_ ?_ ?_ <;>
        simp [Position.isLoad, Position.carries, Position.isDegrading, Position.mayWrite]
  | finished answer => cases choice <;> simp [step] at h

namespace Kept

variable {config : Config DaemonEnvState Position} {id : Nat} {old position : Position}
  {shared : DaemonEnvState}

/-- A step that leaves the store and the overlay as they are. -/
theorem quiet (h : Kept config) (hold : config.calls id = some old)
    (hstored : shared.stored = config.shared.stored)
    (hoverlay : shared.overlay = config.shared.overlay)
    (hdegraded : shared.degraded = config.shared.degraded)
    (hstore : shared.store = config.shared.store)
    (hload : position.isLoad = false)
    (hcarries : config.shared.degraded = false → config.shared.store = .keychain →
      old.carries config.shared.overlay →
      position.carries config.shared.overlay ∨ position.isDegrading = true)
    (hdegrading : old.isDegrading = true → position.isDegrading = true)
    (hwrites : position.mayWrite = true → old.mayWrite = true ∨ config.shared.degraded = false) :
    Kept (config.move id position shared) where
  noLoad := h.noLoad.moved hload
  keychain := by
    rw [Config.move_shared, hdegraded, hstore]
    exact h.keychain
  persisted := by
    rw [Config.move_shared, hdegraded]
    intro hfine
    rcases h.persisted hfine with hsame | ⟨other, standing, hother, hcarry⟩ | hfailed
    · apply Or.inl
      rw [DaemonEnvState.Persisted, hstored, hoverlay]
      exact hsame
    · right
      rw [hoverlay]
      by_cases hself : other = id
      · rw [hself, hold] at hother
        cases hother
        exact (hcarries hfine (h.keychain hfine) hcarry).imp Config.Some.moved Config.Some.moved
      · refine Or.inl ⟨other, standing, ?_, hcarry⟩
        rw [Config.move_of_ne hself]
        exact hother
    · exact Or.inr (Or.inr (hfailed.stays hold hdegrading))
  silent := by
    rw [Config.move_shared, hdegraded]
    intro hgone hsome
    rcases Config.Some.before' hsome with hmoved | hbefore
    · rcases hwrites hmoved with hbefore | hfine
      · exact h.silent hgone ⟨id, old, hold, hbefore⟩
      · rw [hfine] at hgone
        cases hgone
    · exact h.silent hgone hbefore

/-- The call that changed the overlay has its values to write. -/
theorem changed (h : Kept config) (hdegraded : shared.degraded = config.shared.degraded)
    (hstore : shared.store = config.shared.store) {answer : Answer} :
    Kept (config.move id (.persisting shared.overlay answer) shared) where
  noLoad := h.noLoad.moved rfl
  keychain := by
    rw [Config.move_shared, hdegraded, hstore]
    exact h.keychain
  persisted := by
    intro _
    have hcarries : (Position.persisting shared.overlay answer).carries shared.overlay :=
      fun name => rfl
    exact Or.inr (Or.inl (Config.Some.moved hcarries))
  silent := by
    rw [Config.move_shared, hdegraded]
    intro hgone hsome
    exact h.silent hgone ((Config.Some.before' hsome).resolve_left (by simp [Position.mayWrite]))

/-- A helper thread writes what it may. -/
theorem wrote (h : Kept config) (hold : config.calls id = some old) {vars : DaemonEnvMap}
    (hwrites : old.toWrite = some vars) (hload : position.isLoad = false)
    (hdegrading : old.isDegrading = true → position.isDegrading = true)
    (hcurrent : vars.SameValues config.shared.overlay ∨
      (∃ other, other ≠ id ∧ ∃ standing, config.calls other = some standing ∧
        standing.carries config.shared.overlay) ∨
      config.Some (·.isDegrading = true)) :
    Kept (config.move id position { config.shared with stored := some vars }) where
  noLoad := h.noLoad.moved hload
  keychain := h.keychain
  persisted := by
    intro _
    rcases hcurrent with hsame | ⟨other, hother, standing, hstanding, hcarries⟩ | hfailed
    · exact Or.inl hsame
    · refine Or.inr (Or.inl ⟨other, standing, ?_, hcarries⟩)
      rw [Config.move_of_ne hother]
      exact hstanding
    · exact Or.inr (Or.inr (hfailed.stays hold hdegrading))
  silent := by
    intro hgone
    have hmay : old.mayWrite = true := by
      cases old <;> simp_all [Position.toWrite, Position.mayWrite]
    exact absurd ⟨id, old, hold, hmay⟩ (h.silent hgone)

/-- The daemon gives the store up when nothing can still write to it. -/
theorem gaveUp (h : Kept config) (hold : config.calls id = some old) (hload : position.isLoad = false)
    (hwrites : position.mayWrite = true → old.mayWrite = true)
    (hcurrent : config.shared.degraded = false → ¬config.Some (·.mayWrite = true)) :
    Kept (config.move id position config.shared.degrade) := by
  have hgone : config.shared.degrade.degraded = true := by
    unfold DaemonEnvState.degrade
    split
    · assumption
    · rfl
  constructor
  · exact h.noLoad.moved hload
  · rw [Config.move_shared, hgone]
    exact fun hfine => absurd hfine (by simp)
  · rw [Config.move_shared, hgone]
    exact fun hfine => absurd hfine (by simp)
  · intro _ hsome
    have hbefore : config.Some (·.mayWrite = true) := by
      rcases Config.Some.before' hsome with hmoved | hbefore
      · exact ⟨id, old, hold, hwrites hmoved⟩
      · exact hbefore
    by_cases hfine : config.shared.degraded = false
    · exact hcurrent hfine hbefore
    · exact h.silent (by simpa using hfine) hbefore

/-- A call starts. -/
theorem started (h : Kept config) (hnew : config.calls id = none)
    (hcall : position.isPushOrRefresh = true) : Kept (config.move id position config.shared) := by
  have hplain : position.isLoad = false ∧ position.mayWrite = false := by
    cases position <;> simp_all [Position.isPushOrRefresh, Position.isLoad, Position.mayWrite]
  constructor
  · exact h.noLoad.moved hplain.1
  · exact h.keychain
  · intro hfine
    exact (h.persisted hfine).imp_right (Or.imp (·.started hnew) (·.started hnew))
  · intro hgone hsome
    exact h.silent hgone ((Config.Some.before' hsome).resolve_left (by simp [hplain.2]))

end Kept

/-- Every allowed step keeps the invariant. -/
theorem kept_preserved : writeSystem.Preserves WritesTheCurrent Kept where
  start := fun h hnew hstarts => h.started hnew hstarts
  step := by
    intro config id choice old position shared h hallowed hold hstep
    have hnoLoad := h.noLoad id old hold
    obtain ⟨hwrite, hgiveUp⟩ := hallowed old hold
    cases DaemonEnvState.step_store hstep with
    | quiet hstored hoverlay hdegraded hstore hload hcarries hdegrading hwrites =>
      exact h.quiet hold hstored hoverlay hdegraded hstore (hload hnoLoad) hcarries hdegrading
        hwrites
    | changed hbefore hstored hoverlay hdegraded hstore =>
      rw [← hoverlay]
      exact h.changed hdegraded hstore
    | wrote hwrites hload hdegrading =>
      exact h.wrote hold hwrites hload hdegrading (hwrite _ hwrites rfl)
    | gaveUp hdegrading hload hwrites =>
      exact h.gaveUp hold hload hwrites (hgiveUp hdegrading rfl)
    | load hload _ => exact absurd (hload.symm.trans hnoLoad) (by simp)

/-- A step after the daemon gave the store up leaves the item as it is. -/
theorem Kept.stored_next {config : Config DaemonEnvState Position} (h : Kept config)
    (hgone : config.shared.degraded = true) (event : Event Choice Position) :
    (writeSystem.next config event).shared.stored = config.shared.stored := by
  rcases writeSystem.next_cases config event with hsame | ⟨id, position, rfl, -, -, hmoved⟩ |
    ⟨id, choice, old, position, shared, rfl, hold, hstep, hmoved⟩
  · rw [hsame]
  · rw [hmoved]
    rfl
  · rw [hmoved, Config.move_shared]
    have hnoWrite := h.silent hgone
    cases DaemonEnvState.step_store hstep with
    | quiet hstored | changed _ hstored | load _ hstored => exact hstored
    | wrote hwrites =>
      have hmay : old.mayWrite = true := by
        cases old <;> simp_all [Position.toWrite, Position.mayWrite]
      exact absurd ⟨id, old, hold, hmay⟩ hnoWrite
    | gaveUp =>
      unfold DaemonEnvState.degrade
      split <;> rfl

/-- Pushes and refreshes that write what the overlay holds leave the store with exactly its values
when they are over, unless the daemon gave the store up; and then nothing writes to it any more. -/
theorem writeSystem_persists {state : DaemonEnvState} (hstore : state.store = .keychain)
    (hfine : state.degraded = false) (hstart : state.Persisted) {events : List (Event Choice Position)}
    (hmeets : writeSystem.Meets WritesTheCurrent (Config.idle state) events) :
    ((writeSystem.run (Config.idle state) events).Every (·.isOver = true) →
      (writeSystem.run (Config.idle state) events).shared.degraded = false →
      (writeSystem.run (Config.idle state) events).shared.Persisted) ∧
    ∀ earlier event later, events = earlier ++ event :: later →
      (writeSystem.run (Config.idle state) earlier).shared.degraded = true →
      (writeSystem.run (Config.idle state) (earlier ++ [event])).shared.stored =
        (writeSystem.run (Config.idle state) earlier).shared.stored := by
  have hkept : Kept (.idle state) := by
    constructor
    · exact fun id position hposition => absurd hposition (by simp [Config.idle])
    · exact fun _ => hstore
    · exact fun _ => Or.inl hstart
    · exact fun hgone => absurd (hfine.symm.trans hgone) (by simp)
  constructor
  · intro hover hfineAfter
    have hafter := kept_preserved.run hkept hmeets
    rcases hafter.persisted hfineAfter with hsame | hcarries | hfailed
    · exact hsame
    · refine absurd hcarries (hover.not_some ?_)
      rintro (_ | _) <;> simp [Position.isOver, Position.carries]
    · refine absurd hfailed (hover.not_some ?_)
      rintro (_ | _) <;> simp [Position.isOver, Position.isDegrading]
  · rintro earlier event later rfl hgone
    have hearlier := kept_preserved.run hkept (System.meets_append.mp hmeets).1
    rw [System.run_append]
    exact hearlier.stored_next hgone event

/-! ## Runs -/

/-- A refresh, then a push whose value is written through. -/
def pushWrittenThrough : List (Event Choice Position) :=
  [.start 0 (.setRequired tokenRequired 1), .step 0 .proceed, .step 0 .proceed, .step 0 .proceed,
    .start 1 (.applyPush (AList.singleton "TOKEN" "v1") [] 2), .step 1 .proceed, .step 1 .proceed,
    .step 1 .proceed, .step 1 .write, .step 1 .proceed]

/-- The only write brings the values the overlay holds. -/
theorem pushWrittenThrough_current :
    writeSystem.Meets WritesTheCurrent (Config.idle (.new .keychain none)) pushWrittenThrough := by
  refine ⟨trivial, ?_, ?_, ?_, trivial, ?_, ?_, ?_, ?write, ?_, trivial⟩
  case write =>
    intro position hposition
    cases hposition
    refine ⟨fun vars hvars _ => ?_, fun hdegrading => absurd hdegrading (by decide)⟩
    cases hvars
    exact Or.inl fun name => rfl
  all_goals
    intro position hposition
    cases hposition
    refine ⟨fun vars hvars => absurd hvars (by simp [Position.toWrite]), fun hdegrading => ?_⟩
    cases hdegrading

/-- The refresh and the push leave the pushed value in the store. -/
theorem writeSystem_persists_pushWrittenThrough :
    (writeSystem.run (Config.idle (.new .keychain none)) pushWrittenThrough).shared.Persisted :=
  (writeSystem_persists rfl rfl (fun _ => rfl) pushWrittenThrough_current).1
    (System.every_run_idle (by decide +kernel)) (by decide +kernel)

/-- A push that is written through while the write of an earlier one has not happened yet. -/
def pushOvertaken : List (Event Choice Position) :=
  [.start 0 (.setRequired ((AList.singleton "TOKEN" ["nightly"]).insert "OTHER" ["deploy"]) 1),
    .step 0 .proceed, .step 0 .proceed, .step 0 .proceed,
    .start 1 (.applyPush (AList.singleton "TOKEN" "v1") [] 2),
    .step 1 .proceed, .step 1 .proceed, .step 1 .proceed,
    .start 2 (.applyPush (AList.singleton "OTHER" "v2") [] 3),
    .step 2 .proceed, .step 2 .proceed, .step 2 .proceed, .step 2 .write, .step 2 .proceed,
    .step 1 .write, .step 1 .proceed]

/-- The write of an earlier push can replace the one of a later push, and the store is left without
a value the daemon holds. -/
theorem pushOvertaken_lost :
    (writeSystem.run (Config.idle (.new .keychain none)) pushOvertaken).Every
      (·.isOver = true) ∧
    (writeSystem.run (Config.idle (.new .keychain none)) pushOvertaken).shared.degraded = false ∧
    ¬(writeSystem.run (Config.idle (.new .keychain none)) pushOvertaken).shared.Persisted := by
  refine ⟨System.every_run_idle (by decide +kernel), by decide +kernel, fun hpersisted => ?_⟩
  exact absurd (hpersisted "OTHER") (by decide +kernel)

end Awman.Squad
