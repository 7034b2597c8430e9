import Awman.Library.Interleaving
import Awman.Library.NameMaps
import Awman.Library.OrderedSets
import Mathlib.Data.String.Basic

/-!
# The payload environment of the squad daemon

The daemon holds the values of the names its tasks require in a process-wide overlay, and keeps
next to it what it knows about each name.  Coverage refreshes, pushes and the load at startup work
on both in several steps, each under its own lock, and write the overlay through to a secret store
in a helper thread that may outlive the call.
-/

namespace Awman.Squad

open Interleaving

/-- Values by name. -/
abbrev DaemonEnvMap : Type := NameMap String String

/-- A point in time. -/
abbrev Time : Type := Nat

/-- Where the value the daemon holds for a name came from. -/
inductive EnvSource where
  /-- A client pushed it over the socket. -/
  | pushed
  /-- It came back from the OS keychain at startup. -/
  | keychain
deriving DecidableEq, Repr

/-- The stored half of an entry: what survives across refreshes. -/
structure StoredEntry where
  /-- The tasks that declare the name. -/
  requiredBy : OrderedSet String
  /-- When the name first became required. -/
  requiredSince : Time
  /-- When a push last supplied a value for it. -/
  lastProvidedAt : Option Time
  /-- Since when the daemon has had no usable value, `none` when covered. -/
  unmetSince : Option Time

/-- The backend of the secret store. -/
inductive Backend where
  /-- One item in the OS keychain. -/
  | keychain
  /-- Nothing is persisted. -/
  | noStore
deriving DecidableEq, Repr

/-- What a call did to the environment. -/
inductive Note where
  | required (names : NameMap String (OrderedSet String))
  /-- A push was accepted for these names. -/
  | accepted (values : DaemonEnvMap)
  /-- The values of a push reached the overlay. -/
  | landed (values : DaemonEnvMap)

/-- The state of the daemon, its overlay and the item in the secret store. -/
structure DaemonEnvState where
  entries : NameMap String StoredEntry
  /-- Where each value came from, also for names that are not required. -/
  sources : NameMap String EnvSource
  warned : NameMap String Unit
  store : Backend
  storeBeforeDegrade : Option Backend
  /-- Whether a call of the store has failed. -/
  degraded : Bool
  /-- The values the daemon holds. -/
  overlay : DaemonEnvMap
  /-- The item in the secret store. -/
  stored : Option DaemonEnvMap
  /-- What the calls did, the latest first. -/
  log : List Note

/-- What a call answers. -/
inductive Answer where
  /-- A refresh answers nothing. -/
  | refreshed
  | pushed (accepted ignored : List String)
  | loaded (values : Option DaemonEnvMap)

/-- Where a call stands. -/
inductive Position where
  /-- `set_required` starts. -/
  | setRequired (required : NameMap String (List String)) (now : Time)
  /-- It has read the overlay and takes the lock next. -/
  | refreshing (wanted : NameMap String (OrderedSet String)) (now : Time) (overlay : DaemonEnvMap)
  /-- It has replaced the required set and collects the overlay next. -/
  | retaining (wanted : NameMap String (OrderedSet String))
  /-- `apply_push` starts. -/
  | applyPush (vars : DaemonEnvMap) (absent : List String) (now : Time)
  /-- It has accepted values and puts them into the overlay next. -/
  | landing (landing : DaemonEnvMap) (answer : Answer)
  /-- `load_from_store` starts. -/
  | loadFromStore (probed : Option DaemonEnvMap)
  | loading (store : Backend)
  | merging (loaded : DaemonEnvMap)
  /-- It records where the merged values came from next. -/
  | noting (merged loaded : DaemonEnvMap)
  /-- `persist` takes the lock next. -/
  | persisting (overlay : DaemonEnvMap) (answer : Answer)
  /-- A helper thread writes to the store while the call waits. -/
  | storing (vars : DaemonEnvMap) (answer : Answer)
  /-- The helper thread has written, the call does not know yet. -/
  | written (answer : Answer)
  /-- The call of the store failed or took too long; its helper may still have to write. -/
  | degrading (running : Option DaemonEnvMap) (answer : Answer)
  /-- The call is over, its helper is not. -/
  | detached (vars : DaemonEnvMap) (answer : Answer)
  /-- The call and its helper are over. -/
  | finished (answer : Answer)

/-- What a step chooses. -/
inductive Choice where
  /-- The call goes on. -/
  | proceed
  /-- The helper thread writes to the store. -/
  | write
  /-- The call of the store fails. -/
  | fail
  /-- The call of the store takes too long. -/
  | timeOut
deriving DecidableEq, Repr

/-- Whether a variable is usable: set, and not empty. -/
def isSetAndNonEmpty (overlay : DaemonEnvMap) (name : String) : Bool :=
  (overlay.lookup name).any fun value => value ≠ ""

/-- The names of a map in order. -/
def sortedNames {β : Type} (map : NameMap String β) : List String :=
  map.keys.insertionSort (· ≤ ·)

namespace DaemonEnvState

/-- A daemon that has just started, with the item its store holds. -/
def new (store : Backend) (stored : Option DaemonEnvMap) : DaemonEnvState :=
  ⟨∅, ∅, ∅, store, none, false, ∅, stored, []⟩

/-- The entry of a wanted name: an existing one keeps its history, and its unmet clock unless the
overlay that was read covers it. -/
def refreshedEntry (overlay : DaemonEnvMap) (now : Time) (name : String)
    (requiredBy : OrderedSet String) : Option StoredEntry → StoredEntry
  | some entry =>
    { entry with
      requiredBy
      unmetSince :=
        if isSetAndNonEmpty overlay name then none
        else some (entry.unmetSince.getD now) }
  | none => ⟨requiredBy, now, none, if isSetAndNonEmpty overlay name then none else some now⟩

/-- A refreshed entry has no unmet clock exactly when the overlay that was read covers the name. -/
theorem refreshedEntry_unmetSince (overlay : DaemonEnvMap) (now : Time) (name : String)
    (requiredBy : OrderedSet String) (before : Option StoredEntry) :
    (refreshedEntry overlay now name requiredBy before).unmetSince = none ↔
      isSetAndNonEmpty overlay name = true := by
  cases before <;> simp [refreshedEntry]

/-- The locked part of `set_required`. -/
def refresh (state : DaemonEnvState) (wanted : NameMap String (OrderedSet String)) (now : Time)
    (overlay : DaemonEnvMap) : DaemonEnvState :=
  let removed (name : String) : Bool := decide (name ∈ state.entries) && decide (name ∉ wanted)
  { state with
    entries := wanted.mapEntries fun name requiredBy =>
      refreshedEntry overlay now name requiredBy (state.entries.lookup name)
    sources := state.sources.retain fun name _ => !removed name
    warned := state.warned.retain fun name _ => !removed name
    log := .required wanted :: state.log }

/-- The locked part of `apply_push`: the values of required names are accepted. -/
def accept (state : DaemonEnvState) (landing : DaemonEnvMap) (now : Time) : DaemonEnvState :=
  { state with
    entries := state.entries.mapEntries fun name entry =>
      if name ∈ landing then { entry with lastProvidedAt := some now, unmetSince := none }
      else entry
    sources := (landing.mapEntries fun _ _ => EnvSource.pushed) ∪ state.sources
    log := .accepted landing :: state.log }

/-- A failed call of the store takes the store away from this daemon for its lifetime. -/
def degrade (state : DaemonEnvState) : DaemonEnvState :=
  if state.degraded then state
  else
    { state with
      degraded := true
      storeBeforeDegrade := some state.store
      store := .noStore }

/-- The values of a push that are kept: those that are not empty, of required names. -/
def provided (state : DaemonEnvState) (vars : DaemonEnvMap) : DaemonEnvMap :=
  vars.retain fun name value => value ≠ "" && decide (name ∈ state.entries)

/-- The values of a push for names that nothing asked for. -/
def unasked (state : DaemonEnvState) (vars : DaemonEnvMap) : DaemonEnvMap :=
  vars.retain fun name value => value ≠ "" && decide (name ∉ state.entries)

theorem mem_provided {state : DaemonEnvState} {vars : DaemonEnvMap} {name : String}
    (h : name ∈ state.provided vars) : name ∈ state.entries := by
  obtain ⟨value, -, hkept⟩ := NameMap.mem_retain.mp h
  simp only [Bool.and_eq_true, decide_eq_true_eq] at hkept
  exact hkept.2

theorem lookup_provided {state : DaemonEnvState} {vars : DaemonEnvMap} {name value : String}
    (h : (state.provided vars).lookup name = some value) : value ≠ "" := by
  rw [provided, NameMap.lookup_retain, Option.filter_eq_some_iff, Bool.and_eq_true] at h
  exact of_decide_eq_true h.2.1

/-- What a load adds to the overlay: usable values for names that hold none. -/
def fresh (state : DaemonEnvState) (loaded : DaemonEnvMap) : DaemonEnvMap :=
  loaded.retain fun name value => value ≠ "" && decide (name ∉ state.overlay)

theorem lookup_fresh {state : DaemonEnvState} {loaded : DaemonEnvMap} {name value : String}
    (h : (state.fresh loaded).lookup name = some value) : value ≠ "" ∧ name ∉ state.overlay := by
  rw [fresh, NameMap.lookup_retain, Option.filter_eq_some_iff, Bool.and_eq_true] at h
  exact ⟨of_decide_eq_true h.2.1, of_decide_eq_true h.2.2⟩

/-- One step of a call. -/
def step : Position → Choice → DaemonEnvState → Option (Position × DaemonEnvState)
  | .setRequired required now, .proceed, state =>
    let wanted := required.mapEntries fun _ names => OrderedSet.ofList names
    some (.refreshing wanted now state.overlay, state)
  | .refreshing wanted now overlay, .proceed, state =>
    some (.retaining wanted, state.refresh wanted now overlay)
  | .retaining wanted, .proceed, state =>
    let overlay := state.overlay.retain fun name _ => decide (name ∈ wanted)
    let dropped := state.overlay.retain fun name _ => decide (name ∉ wanted)
    if dropped.isEmpty then some (.finished .refreshed, state)
    else some (.persisting overlay .refreshed, { state with overlay })
  | .applyPush vars _absent now, .proceed, state =>
    let landing := state.provided vars
    let answer := Answer.pushed (sortedNames landing) (sortedNames (state.unasked vars))
    if landing.isEmpty then some (.finished answer, state)
    else some (.landing landing answer, state.accept landing now)
  | .landing landing answer, .proceed, state =>
    let overlay := landing ∪ state.overlay
    some (.persisting overlay answer, { state with overlay, log := .landed landing :: state.log })
  | .loadFromStore (some loaded), .proceed, state =>
    if state.degraded then some (.finished (.loaded none), state)
    else if loaded.isEmpty then some (.finished (.loaded (some loaded)), state)
    else some (.merging loaded, state)
  | .loadFromStore none, .proceed, state =>
    if state.degraded then some (.finished (.loaded none), state)
    else some (.loading state.store, state)
  | .loading store, .proceed, state =>
    let loaded := match store with
      | .keychain => state.stored.getD ∅
      | .noStore => ∅
    if loaded.isEmpty then some (.finished (.loaded (some loaded)), state)
    else some (.merging loaded, state)
  | .loading _, .fail, state => some (.degrading none (.loaded none), state)
  | .loading _, .timeOut, state => some (.degrading none (.loaded none), state)
  | .merging loaded, .proceed, state =>
    let merged := state.fresh loaded
    if merged.isEmpty then some (.finished (.loaded (some loaded)), state)
    else some (.noting merged loaded, { state with overlay := state.overlay ∪ merged })
  | .noting merged loaded, .proceed, state =>
    let noted := merged.mapEntries fun _ _ => EnvSource.keychain
    some (.finished (.loaded (some loaded)), { state with sources := noted ∪ state.sources })
  | .persisting overlay answer, .proceed, state =>
    if state.degraded ∨ state.store = .noStore then some (.finished answer, state)
    else some (.storing overlay answer, state)
  | .storing vars answer, .write, state => some (.written answer, { state with stored := some vars })
  | .storing _ answer, .fail, state => some (.degrading none answer, state)
  | .storing vars answer, .timeOut, state => some (.degrading (some vars) answer, state)
  | .written answer, .proceed, state => some (.finished answer, state)
  -- The helper wrote, but reports a failure or comes too late.
  | .written answer, .fail, state => some (.degrading none answer, state)
  | .written answer, .timeOut, state => some (.degrading none answer, state)
  | .degrading none answer, .proceed, state => some (.finished answer, state.degrade)
  | .degrading (some vars) answer, .proceed, state => some (.detached vars answer, state.degrade)
  | .degrading (some vars) answer, .write, state =>
    some (.degrading none answer, { state with stored := some vars })
  | .degrading (some _) answer, .fail, state => some (.degrading none answer, state)
  | .detached vars answer, .write, state => some (.finished answer, { state with stored := some vars })
  | .detached _ answer, .fail, state => some (.finished answer, state)
  | _, _, _ => none

end DaemonEnvState

/-- The calls that change the environment start here. -/
def Position.isCall : Position → Bool
  | .setRequired .. => true
  | .applyPush .. => true
  | .loadFromStore _ => true
  | _ => false

/-- A call that is over, and its helper thread too. -/
def Position.isOver : Position → Bool
  | .finished _ => true
  | _ => false

/-- Refreshes, pushes and loads of one daemon. -/
def envSystem : System Choice DaemonEnvState Position where
  starts := Position.isCall
  step := DaemonEnvState.step

/-! ## What the daemon reports -/

/-- One required name, as reported to a client. -/
structure RequiredEnvEntry where
  name : String
  requiredBy : OrderedSet String
  requiredSince : Time
  lastProvidedAt : Option Time
  unmetSince : Option Time
  source : Option EnvSource
  digest : Option String

/-- How a required name is reported; `coverageDigest` hashes a name and its value with the salt of
this daemon. -/
def DaemonEnvState.report (coverageDigest : String → String → String) (state : DaemonEnvState)
    (name : String) (stored : StoredEntry) : RequiredEnvEntry :=
  let held := (state.overlay.lookup name).filter (· ≠ "")
  { name
    requiredBy := stored.requiredBy
    requiredSince := stored.requiredSince
    lastProvidedAt := stored.lastProvidedAt
    unmetSince := stored.unmetSince
    source := held.bind fun _ => state.sources.lookup name
    digest := held.map (coverageDigest name) }

/-- Every required name with its live coverage, sorted by name. -/
def DaemonEnvState.requiredEntries (coverageDigest : String → String → String)
    (state : DaemonEnvState) : List RequiredEnvEntry :=
  (sortedNames state.entries).filterMap fun name =>
    (state.entries.lookup name).map (state.report coverageDigest name)

theorem DaemonEnvState.mem_requiredEntries {coverageDigest : String → String → String}
    {state : DaemonEnvState} {entry : RequiredEnvEntry}
    (h : entry ∈ state.requiredEntries coverageDigest) :
    ∃ name stored, state.entries.lookup name = some stored ∧
      state.report coverageDigest name stored = entry := by
  obtain ⟨name, -, hentry⟩ := List.mem_filterMap.mp h
  obtain ⟨stored, hstored, hreport⟩ := Option.map_eq_some_iff.mp hentry
  exact ⟨name, stored, hstored, hreport⟩

end Awman.Squad
