import Awman.EnvState
import Awman.Library.HexPairs

/-!
# The client's half of the environment protocol

The daemon reports a salted digest of each value it holds, a client compares them with the digests
of its own values, and sends the values that differ.  The daemon keeps of them what it asked for.
-/

namespace Awman.Squad

open Awman.HexPairs

/-! ## The salt -/

/-- The salt of a daemon. -/
structure Salt where
  bytes : List UInt8
  size : bytes.length = 32

/-- The salt as 64 lowercase hexadecimal digits. -/
def Salt.toHex (salt : Salt) : List Char :=
  salt.bytes.flatMap hexPair

/-- Read a salt, unless the text is not 32 bytes in hexadecimal digits. -/
def Salt.fromHex (text : List Char) : Option Salt :=
  if text.length = 64 then
    match readBytes text with
    | some bytes => if hsize : bytes.length = 32 then some ⟨bytes, hsize⟩ else none
    | none => none
  else none

/-- A salt is read back. -/
theorem Salt.fromHex_toHex (salt : Salt) : Salt.fromHex salt.toHex = some salt := by
  have hlength : salt.toHex.length = 64 := by
    rw [toHex, length_hexPair, salt.size]
  rw [fromHex, if_pos hlength, toHex, readBytes_hexPair]
  dsimp only
  rw [dif_pos salt.size]

/-! ## Planning a push -/

/-- What the daemon reports. -/
structure EnvCoverage where
  /-- Its salt in hexadecimal digits. -/
  salt : List Char
  required : List RequiredEnvEntry

/-- What a client sends. -/
structure EnvPush where
  /-- Values by name. -/
  vars : DaemonEnvMap
  /-- The names it was asked for and does not have. -/
  absent : List String

/-- The digest of a value under a salt and a name. -/
abbrev CoverageDigest : Type := Salt → String → String → String

variable (coverageDigest : CoverageDigest)

/-- The daemon's report. -/
def DaemonEnvState.coverage (salt : Salt) (state : DaemonEnvState) : EnvCoverage :=
  ⟨salt.toHex, state.requiredEntries (coverageDigest salt)⟩

/-- Whether the daemon holds the value already, as far as the client can tell. -/
def heldAlready (salt : Option Salt) (entry : RequiredEnvEntry) (value : String) : Bool :=
  match salt, entry.digest with
  | some salt, some digest => coverageDigest salt entry.name value == digest
  | _, _ => false

/-- Decide about one required name: a variable that is not set or empty is absent. -/
def planEntry (salt : Option Salt) (lookup : String → Option String) (force : Bool)
    (push : EnvPush) (entry : RequiredEnvEntry) : EnvPush :=
  match (lookup entry.name).filter (· ≠ "") with
  | none => { push with absent := push.absent ++ [entry.name] }
  | some value =>
    if !force && heldAlready coverageDigest salt entry value then push
    else { push with vars := push.vars.insert entry.name value }

/-- Decide what to send. -/
def planPush (coverage : EnvCoverage) (lookup : String → Option String) (force : Bool) : EnvPush :=
  let salt := Salt.fromHex coverage.salt
  let planned := coverage.required.foldl (planEntry coverageDigest salt lookup force) ⟨∅, []⟩
  { planned with absent := planned.absent.insertionSort (· ≤ ·) }

/-! ## A call on its own -/

/-- Take steps of one call. -/
def DaemonEnvState.call (position : Position) (state : DaemonEnvState) :
    List Choice → Option (Position × DaemonEnvState)
  | [] => some (position, state)
  | choice :: choices =>
    match DaemonEnvState.step position choice state with
    | some (position, state) => DaemonEnvState.call position state choices
    | none => none

/-- The call has answered; a helper thread may go on. -/
def Position.answered : Position → Bool
  | .finished _ => true
  | .detached .. => true
  | _ => false

/-- A push takes the daemon from a state to another. -/
def DaemonEnvState.Pushes (push : EnvPush) (state after : DaemonEnvState) : Prop :=
  ∃ now choices position, position.answered = true ∧
    DaemonEnvState.call (.applyPush push.vars push.absent now) state choices = some (position, after)

/-- What a push does: it adds the values of required names to what is held. -/
structure DaemonEnvState.Applied (landing : DaemonEnvMap) (state after : DaemonEnvState) : Prop where
  entries : ∀ name, name ∈ after.entries ↔ name ∈ state.entries
  /-- What lands is held, and the rest as before. -/
  overlay : ∀ name, after.overlay.lookup name =
    (landing.lookup name).or (state.overlay.lookup name)
  /-- The secret store has what it had, or what is held. -/
  stored : after.stored = state.stored ∨ after.stored = some after.overlay

variable {coverageDigest}

/-! ## What is planned -/

section Planning

variable {salt : Option Salt} {lookup : String → Option String} {force : Bool} {push : EnvPush}
  {entry : RequiredEnvEntry} {entries : List RequiredEnvEntry} {name value : String}

/-- The value that is sent for a required name. -/
def sent (coverageDigest : CoverageDigest) (salt : Option Salt) (lookup : String → Option String)
    (force : Bool) (entry : RequiredEnvEntry) : Option String :=
  ((lookup entry.name).filter (· ≠ "")).filter fun value =>
    force || !heldAlready coverageDigest salt entry value

theorem planEntry_vars :
    (planEntry coverageDigest salt lookup force push entry).vars =
      match sent coverageDigest salt lookup force entry with
      | some value => push.vars.insert entry.name value
      | none => push.vars := by
  unfold planEntry sent
  cases (lookup entry.name).filter (· ≠ "") with
  | none => rfl
  | some value =>
    dsimp only
    rw [Option.filter_some]
    cases force <;> cases heldAlready coverageDigest salt entry value <;> rfl

/-- A name for which nothing is sent is planned as before. -/
theorem lookup_unsent
    (h : ∀ entry ∈ entries, entry.name = name → sent coverageDigest salt lookup force entry = none)
    (push : EnvPush) :
    (entries.foldl (planEntry coverageDigest salt lookup force) push).vars.lookup name =
      push.vars.lookup name := by
  induction entries generalizing push with
  | nil => rfl
  | cons entry entries ih =>
    have hrest := ih fun other hother => h other (List.mem_cons_of_mem _ hother)
    rw [List.foldl_cons, hrest, planEntry_vars]
    cases hsent : sent coverageDigest salt lookup force entry with
    | none => rfl
    | some value =>
      have hne : name ≠ entry.name := by
        intro hname
        rw [h entry List.mem_cons_self hname.symm] at hsent
        cases hsent
      exact AList.lookup_insert_ne hne

/-- A value that is sent for a name is planned for it. -/
theorem lookup_sent (hthere : ∃ entry ∈ entries, entry.name = name)
    (h : ∀ entry ∈ entries, entry.name = name →
      sent coverageDigest salt lookup force entry = some value) (push : EnvPush) :
    (entries.foldl (planEntry coverageDigest salt lookup force) push).vars.lookup name =
      some value := by
  induction entries generalizing push with
  | nil =>
    obtain ⟨entry, hentry, _⟩ := hthere
    cases hentry
  | cons entry entries ih =>
    have hlater : ∀ other ∈ entries, other.name = name →
        sent coverageDigest salt lookup force other = some value :=
      fun other hother => h other (List.mem_cons_of_mem _ hother)
    rw [List.foldl_cons]
    by_cases hmore : ∃ other ∈ entries, other.name = name
    · exact ih hmore hlater _
    · have hunsent : ∀ other ∈ entries, other.name = name →
          sent coverageDigest salt lookup force other = none :=
        fun other hother hname => absurd ⟨other, hother, hname⟩ hmore
      have hname : entry.name = name := by
        obtain ⟨other, hother, hname⟩ := hthere
        cases List.mem_cons.mp hother with
        | inl hsame => rw [← hsame, hname]
        | inr hrest => exact absurd ⟨other, hrest, hname⟩ hmore
      rw [lookup_unsent hunsent, planEntry_vars, h entry List.mem_cons_self hname]
      rw [hname, AList.lookup_insert]

end Planning

/-! ## What a push does -/

section Applying

variable {landing : DaemonEnvMap} {state after : DaemonEnvState} {position next : Position}
  {choice : Choice} {push : EnvPush}

/-- Where a call stands that has put its values into the overlay and writes it to the store. -/
def Position.saves (overlay : DaemonEnvMap) : Position → Prop
  | .persisting vars _ => vars = overlay
  | .storing vars _ => vars = overlay
  | .written _ => True
  | .degrading running _ => running = none ∨ running = some overlay
  | .detached vars _ => vars = overlay
  | .finished _ => True
  | _ => False

/-- A step leaves the overlay and the required set, and the store has what it had or the overlay. -/
structure DaemonEnvState.Saved (state after : DaemonEnvState) : Prop where
  overlay : after.overlay = state.overlay
  /-- The required set. -/
  entries : after.entries = state.entries
  stored : after.stored = state.stored ∨ after.stored = some state.overlay

theorem saved_degrade (state : DaemonEnvState) : state.Saved state.degrade := by
  unfold DaemonEnvState.degrade
  split
  · exact ⟨rfl, rfl, Or.inl rfl⟩
  · exact ⟨rfl, rfl, Or.inl rfl⟩

/-- A call that writes the overlay to the store goes on doing so. -/
theorem saves_step (hposition : position.saves state.overlay)
    (hstep : DaemonEnvState.step position choice state = some (next, after)) :
    next.saves state.overlay ∧ state.Saved after := by
  have hsame : state.Saved state := ⟨rfl, rfl, Or.inl rfl⟩
  have hwritten : state.Saved { state with stored := some state.overlay } :=
    ⟨rfl, rfl, Or.inr rfl⟩
  cases position with
  | persisting vars answer =>
    cases choice with
    | proceed =>
      obtain rfl : vars = state.overlay := hposition
      simp only [DaemonEnvState.step] at hstep
      split at hstep
      · cases hstep
        exact ⟨trivial, hsame⟩
      · cases hstep
        exact ⟨rfl, hsame⟩
    | _ => cases hstep
  | storing vars answer =>
    obtain rfl : vars = state.overlay := hposition
    cases choice with
    | proceed => cases hstep
    | write =>
      cases hstep
      exact ⟨trivial, hwritten⟩
    | fail =>
      cases hstep
      exact ⟨Or.inl rfl, hsame⟩
    | timeOut =>
      cases hstep
      exact ⟨Or.inr rfl, hsame⟩
  | written answer =>
    cases choice with
    | write => cases hstep
    | proceed =>
      cases hstep
      exact ⟨trivial, hsame⟩
    | _ =>
      cases hstep
      exact ⟨Or.inl rfl, hsame⟩
  | degrading running answer =>
    cases running with
    | none =>
      cases choice with
      | proceed =>
        cases hstep
        exact ⟨trivial, saved_degrade state⟩
      | _ => cases hstep
    | some vars =>
      obtain rfl : vars = state.overlay := by simpa [Position.saves] using hposition
      cases choice with
      | proceed =>
        cases hstep
        exact ⟨rfl, saved_degrade state⟩
      | write =>
        cases hstep
        exact ⟨Or.inl rfl, hwritten⟩
      | fail =>
        cases hstep
        exact ⟨Or.inl rfl, hsame⟩
      | timeOut => cases hstep
  | detached vars answer =>
    obtain rfl : vars = state.overlay := hposition
    cases choice with
    | write =>
      cases hstep
      exact ⟨trivial, hwritten⟩
    | fail =>
      cases hstep
      exact ⟨trivial, hsame⟩
    | _ => cases hstep
  | finished answer => cases choice <;> cases hstep
  | _ => cases hposition

/-- However a call that writes the overlay goes on, the overlay and the required set stay. -/
theorem saves_call {choices : List Choice} (hposition : position.saves state.overlay)
    (hcall : DaemonEnvState.call position state choices = some (next, after)) :
    state.Saved after := by
  induction choices generalizing position state with
  | nil =>
    obtain ⟨-, rfl⟩ := Prod.mk.inj (Option.some.inj hcall)
    exact ⟨rfl, rfl, Or.inl rfl⟩
  | cons choice choices ih =>
    rw [DaemonEnvState.call] at hcall
    cases hstep : DaemonEnvState.step position choice state with
    | none =>
      rw [hstep] at hcall
      cases hcall
    | some result =>
      rw [hstep] at hcall
      obtain ⟨hsaves, hsaved⟩ := saves_step hposition hstep
      rw [← hsaved.overlay] at hsaves
      have hrest := ih hsaves hcall
      refine ⟨hrest.overlay.trans hsaved.overlay, hrest.entries.trans hsaved.entries, ?_⟩
      rcases hrest.stored with hstored | hstored
      · rw [hstored]
        exact hsaved.stored
      · rw [hstored, hsaved.overlay]
        exact Or.inr rfl

/-- Values that were accepted are put into the overlay before the call answers. -/
theorem applied_of_landing {answer : Answer} {now : Time} {choices : List Choice}
    (hanswered : position.answered = true)
    (hcall : DaemonEnvState.call (.landing landing answer) (state.accept landing now) choices =
      some (position, after)) : state.Applied landing after := by
  cases choices with
  | nil =>
    obtain ⟨rfl, -⟩ := Prod.mk.inj (Option.some.inj hcall)
    cases hanswered
  | cons choice choices =>
    cases choice with
    | proceed =>
      rw [DaemonEnvState.call] at hcall
      simp only [DaemonEnvState.step] at hcall
      have hsaved := saves_call (by rfl) hcall
      refine ⟨fun name => ?_, fun name => ?_, ?_⟩
      · rw [hsaved.entries]
        exact NameMap.mem_mapEntries
      · rw [hsaved.overlay]
        exact NameMap.lookup_union
      · rw [hsaved.overlay]
        exact hsaved.stored
    | _ => cases hcall

/-- A push adds the values it sends for required names to what is held. -/
theorem applied_of_pushes (h : DaemonEnvState.Pushes push state after) :
    state.Applied (state.provided push.vars) after := by
  obtain ⟨now, choices, position, hanswered, hcall⟩ := h
  cases choices with
  | nil =>
    obtain ⟨rfl, -⟩ := Prod.mk.inj (Option.some.inj hcall)
    cases hanswered
  | cons choice choices =>
    cases choice with
    | proceed =>
      rw [DaemonEnvState.call] at hcall
      simp only [DaemonEnvState.step] at hcall
      split at hcall
      · rename_i result position' state' hstep
        split at hstep
        · -- Nothing lands, and the call is over.
          rename_i hempty
          cases hstep
          have hsaved := @saves_call state after (.finished _) _ _ trivial hcall
          have hnone := NameMap.isEmpty_iff.mp hempty
          refine ⟨fun name => by rw [hsaved.entries], fun name => ?_, ?_⟩
          · rw [hsaved.overlay, hnone, Option.none_or]
          · rw [hsaved.overlay]
            exact hsaved.stored
        · cases hstep
          exact applied_of_landing hanswered hcall
      · cases hcall
    | _ => cases hcall

end Applying

/-! ## The steady state -/

/-- Different values of a variable have different digests under every salt. -/
def DigestInjective (coverageDigest : CoverageDigest) : Prop :=
  ∀ salt name value other,
    coverageDigest salt name value = coverageDigest salt name other → value = other

/-- What the client has is held, and all else is as it was. -/
structure Synced (lookup : String → Option String) (state after : DaemonEnvState) : Prop where
  held : ∀ name ∈ state.entries, ∀ value, lookup name = some value → value ≠ "" →
    after.overlay.lookup name = some value
  /-- Other values stay, and no value is held that was not. -/
  kept : ∀ name, name ∉ state.entries ∨ (lookup name).filter (· ≠ "") = none →
    after.overlay.lookup name = state.overlay.lookup name
  /-- What is stored was stored before, or is for every name that is not required as the overlay was. -/
  stored : ∀ item, after.stored = some item → state.stored = some item ∨
    ∀ name, name ∉ state.entries → item.lookup name = state.overlay.lookup name

section Steady

variable {salt : Salt} {lookup : String → Option String} {force : Bool}
  {state after : DaemonEnvState} {entry : RequiredEnvEntry} {name : String}

theorem exists_requiredEntries (h : name ∈ state.entries) :
    ∃ entry ∈ state.requiredEntries (coverageDigest salt), entry.name = name := by
  obtain ⟨stored, hstored⟩ := NameMap.mem_iff_lookup.mp h
  have hname : name ∈ sortedNames state.entries :=
    (List.mem_insertionSort _).mpr (AList.mem_keys.mpr h)
  refine ⟨state.report (coverageDigest salt) name stored, ?_, rfl⟩
  exact List.mem_filterMap.mpr ⟨name, hname, by rw [hstored]; rfl⟩

section

variable (hdigest : DigestInjective coverageDigest)
include hdigest

/-- A reported value is the client's exactly when it is the same. -/
theorem heldAlready_report {value : String} (hvalue : value ≠ "")
    (hentry : entry ∈ state.requiredEntries (coverageDigest salt)) :
    heldAlready coverageDigest (some salt) entry value = true ↔
      state.overlay.lookup entry.name = some value := by
  obtain ⟨name, stored, -, rfl⟩ := DaemonEnvState.mem_requiredEntries hentry
  unfold heldAlready DaemonEnvState.report
  cases hheld : state.overlay.lookup name with
  | none => simp
  | some other =>
    by_cases hother : other = ""
    · have hne : "" ≠ value := fun h => hvalue h.symm
      simp [hother, hne]
    · have hsame : coverageDigest salt name value = coverageDigest salt name other ↔
          other = value := by
        constructor
        · exact fun h => (hdigest salt name value other h).symm
        · exact fun h => by rw [h]
      simp [Option.filter_some, hother, hsame]

/-- What is sent for a required name: the client's value, unless it is held. -/
theorem sent_report (hentry : entry ∈ state.requiredEntries (coverageDigest salt)) :
    sent coverageDigest (some salt) lookup force entry =
      ((lookup entry.name).filter (· ≠ "")).filter fun value =>
        force || state.overlay.lookup entry.name != some value := by
  unfold sent
  cases hvalue : (lookup entry.name).filter (· ≠ "") with
  | none => rfl
  | some value =>
    have hfull : value ≠ "" := by simpa using (Option.filter_eq_some_iff.mp hvalue).2
    have hheld := heldAlready_report hdigest hfull hentry
    have hsame : heldAlready coverageDigest (some salt) entry value =
        (state.overlay.lookup entry.name == some value) := by
      rw [Bool.eq_iff_iff, hheld, beq_iff_eq]
    rw [Option.filter_some, Option.filter_some, hsame]
    rfl

/-- What a push from the daemon's report sends for a name. -/
theorem lookup_planPush (name : String) :
    (planPush coverageDigest (state.coverage coverageDigest salt) lookup force).vars.lookup name =
      if name ∈ state.entries then
        ((lookup name).filter (· ≠ "")).filter fun value =>
          force || state.overlay.lookup name != some value
      else none := by
  unfold planPush DaemonEnvState.coverage
  rw [Salt.fromHex_toHex]
  by_cases hname : name ∈ state.entries
  · rw [if_pos hname]
    have hsent : ∀ entry ∈ state.requiredEntries (coverageDigest salt), entry.name = name →
        sent coverageDigest (some salt) lookup force entry =
          ((lookup name).filter (· ≠ "")).filter fun value =>
            force || state.overlay.lookup name != some value := by
      rintro entry hentry rfl
      exact sent_report hdigest hentry
    cases hvalue : ((lookup name).filter (· ≠ "")).filter fun value =>
        force || state.overlay.lookup name != some value with
    | none =>
      rw [hvalue] at hsent
      rw [lookup_unsent hsent]
      rfl
    | some value =>
      rw [hvalue] at hsent
      exact lookup_sent (exists_requiredEntries hname) hsent _
  · rw [if_neg hname, lookup_unsent]
    · rfl
    · intro entry hentry hsame
      obtain ⟨other, stored, hstored, rfl⟩ := DaemonEnvState.mem_requiredEntries hentry
      obtain rfl : other = name := hsame
      exact absurd (NameMap.mem_iff_lookup.mpr ⟨stored, hstored⟩) hname

/-- What lands of a planned push is what was planned. -/
theorem lookup_provided_planPush (name : String) :
    (state.provided (planPush coverageDigest (state.coverage coverageDigest salt) lookup
        force).vars).lookup name =
      if name ∈ state.entries then
        ((lookup name).filter (· ≠ "")).filter fun value =>
          force || state.overlay.lookup name != some value
      else none := by
  rw [DaemonEnvState.provided, NameMap.lookup_retain, lookup_planPush hdigest]
  by_cases hname : name ∈ state.entries
  · rw [if_pos hname]
    cases hvalue : (lookup name).filter (· ≠ "") with
    | none => rfl
    | some value =>
      have hfull : value ≠ "" := by simpa using (Option.filter_eq_some_iff.mp hvalue).2
      rw [Option.filter_some]
      split
      · simp [Option.filter_some, hfull, hname]
      · rfl
  · rw [if_neg hname]
    rfl

/-- After a planned push the client's values are held. -/
theorem synced_of_pushes (hpush : DaemonEnvState.Pushes
      (planPush coverageDigest (state.coverage coverageDigest salt) lookup force) state after) :
    Synced lookup state after := by
  have happlied := applied_of_pushes hpush
  have hoverlay := happlied.overlay
  simp only [lookup_provided_planPush hdigest] at hoverlay
  have hkept : ∀ name, name ∉ state.entries ∨ (lookup name).filter (· ≠ "") = none →
      after.overlay.lookup name = state.overlay.lookup name := by
    intro name hname
    rw [hoverlay]
    rcases hname with hname | hnone
    · rw [if_neg hname, Option.none_or]
    · rw [hnone, Option.filter_none, ite_self, Option.none_or]
  refine ⟨?_, hkept, ?_⟩
  · intro name hname value hvalue hfull
    rw [hoverlay, if_pos hname, hvalue, Option.filter_some, if_pos (by simpa using hfull),
      Option.filter_some]
    split
    · rfl
    · rename_i hheld
      rw [Option.none_or]
      simp only [Bool.not_eq_true, Bool.or_eq_false_iff, bne_eq_false_iff_eq] at hheld
      exact hheld.2
  · intro item hitem
    rcases happlied.stored with hsame | hwritten
    · exact Or.inl (hsame ▸ hitem)
    · rw [hwritten] at hitem
      cases hitem
      exact Or.inr fun name hname => hkept name (Or.inl hname)

end

/-- Env sync reaches a steady state: after a push of the planned values every required name for which
the client has a value is held with it, all else is as it was, and a plan from the state that is
reached sends nothing. -/
theorem push_reaches_steady_state (hdigest : DigestInjective coverageDigest)
    (hpush : DaemonEnvState.Pushes
      (planPush coverageDigest (state.coverage coverageDigest salt) lookup force) state after) :
    Synced lookup state after ∧
      (planPush coverageDigest (after.coverage coverageDigest salt) lookup false).vars.isEmpty =
        true := by
  have hsynced := synced_of_pushes hdigest hpush
  have happlied := applied_of_pushes hpush
  refine ⟨hsynced, NameMap.isEmpty_iff.mpr fun name => ?_⟩
  rw [lookup_planPush hdigest]
  split
  · rename_i hname
    have hrequired := (happlied.entries name).mp hname
    cases hvalue : (lookup name).filter (· ≠ "") with
    | none => rfl
    | some value =>
      obtain ⟨hlookup, hfull⟩ := Option.filter_eq_some_iff.mp hvalue
      have hheld := hsynced.held name hrequired value hlookup (by simpa using hfull)
      rw [Option.filter_some, hheld]
      simp
  · rfl

end Steady

/-- A daemon that requires one variable and holds none. -/
def daemonWaiting : DaemonEnvState :=
  { DaemonEnvState.new .noStore none with
    entries := AList.singleton "TOKEN" ⟨OrderedSet.ofList ["nightly"], 0, none, some 0⟩ }

theorem push_reaches_steady_state_waiting :
    ∃ after,
      Synced (fun name => if name = "TOKEN" then some "secret" else none) daemonWaiting after ∧
        (planPush (fun _ _ value => value)
          (after.coverage (fun _ _ value => value) ⟨List.replicate 32 0, rfl⟩)
          (fun name => if name = "TOKEN" then some "secret" else none) false).vars.isEmpty = true :=
  ⟨_, @push_reaches_steady_state (fun _ _ value => value) ⟨List.replicate 32 0, rfl⟩
    (fun name => if name = "TOKEN" then some "secret" else none) false daemonWaiting _
    (fun _ _ _ _ h => h) ⟨0, [.proceed, .proceed, .proceed], .finished _, rfl, rfl⟩⟩

end Awman.Squad
