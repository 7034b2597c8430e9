import Awman.Library.ClaimFlags

/-!
# Refreshing staged credentials

A launch stages the host credential of its agent into a directory of its own and registers a lease;
the monitor's refreshes, from its tick loop or before a step, read the host credential, let the host
rotate it when it is about to expire, and bring the staged file of every live lease of the agent up
to it.  One gate lets one refresh through at a time.  Launches, refreshes, rotations of the host and
changes a container makes to its staged file interleave at the steps below; a refresh is cut off by
its timeout only where it awaits: at the gate, or during the ping.
-/

namespace Awman.Credentials

open Interleaving

/-- What the descriptor of an agent's credential says. -/
structure RefreshableCredentialSpec (β : Type) where
  expiry : β → Option Nat
  /-- The contents of the staged file. -/
  materialize : β → List UInt8

/-- The monitor's configuration, and the descriptors of the agents that have one. -/
structure Monitor (β : Type) where
  refreshThreshold : Nat
  refreshableSpecFor : String → Option (RefreshableCredentialSpec β)

/-- A host credential, and which read of the host it is from. -/
structure Snapshot (β : Type) where
  value : β
  read : Nat

/-- The contents a staged file got from a read of the host. -/
structure Write where
  contents : List UInt8
  read : Nat

/-- A staged credential file. -/
structure StagedFile where
  directory : Bool
  /-- What the container left in it. -/
  contents : Option (List UInt8)
  /-- What it was first written with. -/
  planted : Option Write
  /-- What the monitor wrote to it, the latest first. -/
  rewrites : List Write

/-- Everything that was written to it, the latest first. -/
def StagedFile.writes (file : StagedFile) : List Write :=
  file.rewrites ++ file.planted.toList

/-- What reading the file finds. -/
def StagedFile.found (file : StagedFile) : Option (List UInt8) :=
  if file.directory then file.contents else none

/-- A lease as the registry records it; `generation` is never given twice. -/
structure Lease where
  generation : Nat
  agent : String
  stagedPath : Nat
deriving DecidableEq

/-- What the launches and refreshes of a process share. -/
structure Shared (β : Type) where
  /-- A refresh is past the gate. -/
  gate : Bool
  /-- The host credential of each agent; none is unreadable. -/
  host : String → Option β
  /-- What was read of the host, in order. -/
  reads : List (String × β)
  entries : List Lease
  nextGeneration : Nat
  dropped : List Nat
  /-- The staged files by their paths; each staging has a directory of its own. -/
  files : Nat → StagedFile
  nextPath : Nat

variable {β : Type}

namespace Shared

/-- `LeaseRegistry::is_live` -/
def isLive (shared : Shared β) (generation : Nat) : Bool :=
  shared.entries.any (·.generation = generation)

/-- A credential is read for an agent. -/
def noteRead (shared : Shared β) (agent : String) (value : β) : Shared β :=
  { shared with reads := shared.reads ++ [(agent, value)] }

/-- `LeaseRegistry::register` -/
def register (shared : Shared β) (agent : String) (stagedPath : Nat) : Shared β :=
  { shared with
    entries := shared.entries ++ [⟨shared.nextGeneration, agent, stagedPath⟩]
    nextGeneration := shared.nextGeneration + 1 }

/-- `RegistryShared::deregister` -/
def deregister (shared : Shared β) (generation : Nat) : Shared β :=
  { shared with
    entries := shared.entries.filter (·.generation ≠ generation)
    dropped := generation :: shared.dropped }

/-- A staged file changes. -/
def setFile (shared : Shared β) (path : Nat) (file : StagedFile) : Shared β :=
  { shared with files := Function.update shared.files path file }

end Shared

/-- What a refresh reports. -/
inductive RefreshOutcome where
  | notNeeded
  | refreshed (leasesWritten : Nat)
  | stale
  | unavailable
deriving DecidableEq

/-- The refresh says that every staged file is up to date. -/
def RefreshOutcome.current : RefreshOutcome → Bool
  | .notNeeded | .refreshed _ => true
  | .stale | .unavailable => false

/-- What a refresh is for. -/
structure Refresh where
  agent : String
  liveAtStart : List Nat

/-- What a refresh brings the leases up to, and how far it is. -/
structure Pass (β : Type) where
  snapshot : Snapshot β
  /-- The host did not rotate a credential about to expire. -/
  stale : Bool
  written : Nat
  failures : Nat
  /-- The leases whose file was found or made up to date, or missing, and what was in it. -/
  reconciled : List (Nat × Option (List UInt8))

/-- Where a refresh is. -/
inductive RefreshPhase (β : Type) where
  | waiting
  | reading
  | looking (snapshot : Snapshot β)
  /-- In `refresh_credential`, before the ping. -/
  | readingBefore (snapshot : Snapshot β)
  | pinging (snapshot : Snapshot β) (before : Option Nat)
  /-- In `refresh_credential`, after the ping. -/
  | readingAfter (snapshot : Snapshot β) (before : Option Nat)
  /-- The host has rotated. -/
  | rereading
  /-- About to list the live leases. -/
  | listing (snapshot : Snapshot β) (stale : Bool)
  | rewriting (pass : Pass β) (todo : List Lease)
  /-- About to read the staged file of a lease that was live. -/
  | opening (pass : Pass β) (lease : Lease) (todo : List Lease)
  /-- The file is not up to date. -/
  | rechecking (pass : Pass β) (lease : Lease) (todo : List Lease)
  /-- About to write; `dropped` are the leases dropped before the last check. -/
  | writing (pass : Pass β) (lease : Lease) (todo : List Lease) (dropped : List Nat)
  | returned (outcome : RefreshOutcome) (pass : Option (Pass β))
  | timedOut

/-- Where a launch is. -/
inductive LaunchPhase (β : Type) where
  /-- About to read the host credential. -/
  | staging
  | planting (snapshot : Snapshot β)
  | registering (stagedPath : Nat)
  | leased (generation : Nat)
  | over

/-- What a container does to its staged file. -/
inductive Tampering where
  | replaces (contents : Option (List UInt8))
  | removesDirectory

/-- Where a call is. -/
inductive Position (β : Type) where
  | refreshCalled (agent : String)
  | refresh (call : Refresh) (phase : RefreshPhase β)
  | launch (agent : String) (phase : LaunchPhase β)
  | rotating (agent : String) (value : Option β)
  | tampering (path : Nat) (change : Tampering)
  | over

/-- What a step depends on that the program does not decide. -/
inductive Choice where
  | proceed
  /-- The read or the write fails. -/
  | fails
  | timeout
  | now (time : Nat)
  /-- The ping ends, well or not. -/
  | pinged (ok : Bool)
  | listed (leases : List Lease)

/-- `expiry <= now || expiry - now < threshold`; no expiry is never near. -/
def nearExpiry (threshold : Nat) (expiry : Option Nat) (now : Nat) : Bool :=
  expiry.any fun at_ => at_ ≤ now || at_ - now < threshold

/-- The host credential expires later than before the ping. -/
def advanced : Option Nat → Option Nat → Bool
  | some before, some after => before < after
  | _, _ => false

namespace Pass

/-- What the staged files are brought up to. -/
def file (pass : Pass β) (spec : RefreshableCredentialSpec β) : List UInt8 :=
  spec.materialize pass.snapshot.value

/-- A file was found or made to hold this. -/
def reconcile (pass : Pass β) (lease : Lease) (contents : Option (List UInt8)) : Pass β :=
  { pass with reconciled := (lease.generation, contents) :: pass.reconciled }

/-- What `refresh_agent` returns after the last lease. -/
def outcome (pass : Pass β) : RefreshOutcome :=
  if pass.stale then .stale
  else if 0 < pass.failures then .stale
  else if 0 < pass.written then .refreshed pass.written
  else .notNeeded

end Pass

/-- The gate is opened for the next refresh. -/
def leave (shared : Shared β) (outcome : RefreshOutcome) (pass : Option (Pass β)) :
    RefreshPhase β × Shared β :=
  (.returned outcome pass, { shared with gate := false })

/-- One step of a refresh with a descriptor. -/
def RefreshPhase.step (spec : RefreshableCredentialSpec β) (threshold : Nat) (call : Refresh)
    (shared : Shared β) : RefreshPhase β → Choice → Option (RefreshPhase β × Shared β)
  | .reading, .proceed =>
    match shared.host call.agent with
    | none => some (leave shared .unavailable none)
    | some value =>
      some (.looking ⟨value, shared.reads.length⟩, shared.noteRead call.agent value)
  | .reading, .fails => some (leave shared .unavailable none)
  | .looking snapshot, .now time =>
    some (if nearExpiry threshold (spec.expiry snapshot.value) time then .readingBefore snapshot
      else .listing snapshot false, shared)
  | .readingBefore snapshot, .proceed =>
    match shared.host call.agent with
    | none => some (.listing snapshot true, shared)
    | some value =>
      some (.pinging snapshot (spec.expiry value), shared.noteRead call.agent value)
  | .readingBefore snapshot, .fails => some (.listing snapshot true, shared)
  | .pinging snapshot before, .pinged true => some (.readingAfter snapshot before, shared)
  | .pinging snapshot _, .pinged false => some (.listing snapshot true, shared)
  -- Dropping the ping kills its process and gives up the gate.
  | .pinging _ _, .timeout => some (.timedOut, { shared with gate := false })
  | .readingAfter snapshot before, .proceed =>
    match shared.host call.agent with
    | none => some (.listing snapshot true, shared)
    | some value =>
      some (if advanced before (spec.expiry value) then .rereading else .listing snapshot true,
        shared.noteRead call.agent value)
  | .readingAfter snapshot _, .fails => some (.listing snapshot true, shared)
  | .rereading, .proceed =>
    match shared.host call.agent with
    | none => some (leave shared .unavailable none)
    | some value =>
      some (.listing ⟨value, shared.reads.length⟩ false, shared.noteRead call.agent value)
  | .rereading, .fails => some (leave shared .unavailable none)
  | .listing snapshot stale, .listed leases =>
    if leases.Perm shared.entries then some (.rewriting ⟨snapshot, stale, 0, 0, []⟩ leases, shared)
    else none
  | .rewriting pass [], .proceed => some (leave shared pass.outcome (some pass))
  | .rewriting pass (lease :: todo), .proceed =>
    some (if lease.agent = call.agent ∧ shared.isLive lease.generation then
      .opening pass lease todo else .rewriting pass todo, shared)
  | .opening pass lease todo, .proceed =>
    match (shared.files lease.stagedPath).found with
    | none => some (.rewriting (pass.reconcile lease none) todo, shared)
    | some contents =>
      some (if contents = pass.file spec then
        .rewriting (pass.reconcile lease (some contents)) todo
      else .rechecking pass lease todo, shared)
  | .opening pass lease todo, .fails => some (.rechecking pass lease todo, shared)
  | .rechecking pass lease todo, .proceed =>
    some (if shared.isLive lease.generation then .writing pass lease todo shared.dropped
      else .rewriting pass todo, shared)
  | .writing pass lease todo _, .proceed =>
    if (shared.files lease.stagedPath).directory then
      some (.rewriting { pass.reconcile lease (some (pass.file spec)) with
          written := pass.written + 1 } todo,
        shared.setFile lease.stagedPath { shared.files lease.stagedPath with
          contents := some (pass.file spec)
          rewrites := ⟨pass.file spec, pass.snapshot.read⟩ ::
            (shared.files lease.stagedPath).rewrites })
    else some (.rewriting (pass.reconcile lease none) todo, shared)
  | .writing pass _ todo _, .fails =>
    some (.rewriting { pass with failures := pass.failures + 1 } todo, shared)
  | _, _ => none

/-- One step of a launch with a descriptor. -/
def LaunchPhase.step (spec : RefreshableCredentialSpec β) (agent : String) (shared : Shared β) :
    LaunchPhase β → Choice → Option (LaunchPhase β × Shared β)
  | .staging, .proceed =>
    match shared.host agent with
    | none => some (.over, shared)
    | some value => some (.planting ⟨value, shared.reads.length⟩, shared.noteRead agent value)
  | .planting snapshot, .proceed =>
    some (.registering shared.nextPath,
      { shared.setFile shared.nextPath {
          directory := true
          contents := some (spec.materialize snapshot.value)
          planted := some ⟨spec.materialize snapshot.value, snapshot.read⟩
          rewrites := [] } with
        nextPath := shared.nextPath + 1 })
  | .planting _, .fails => some (.over, shared)
  | .registering stagedPath, .proceed =>
    some (.leased shared.nextGeneration, shared.register agent stagedPath)
  -- A launch that fails before its container is built drops the directory.
  | .registering _, .fails => some (.over, shared)
  | .leased generation, .proceed => some (.over, shared.deregister generation)
  | _, _ => none

/-- The staged file after a container changed it. -/
def Tampering.apply (file : StagedFile) : Tampering → StagedFile
  | .replaces contents => { file with contents }
  | .removesDirectory => { file with directory := false }

/-- One step of a call. -/
def Position.step (monitor : Monitor β) :
    Position β → Choice → Shared β → Option (Position β × Shared β)
  | .refreshCalled agent, .proceed, shared =>
    some (.refresh ⟨agent, shared.entries.map (·.generation)⟩ .waiting, shared)
  | .refresh call .waiting, .proceed, shared =>
    if shared.gate then none else some (.refresh call .reading, { shared with gate := true })
  | .refresh call .waiting, .timeout, shared => some (.refresh call .timedOut, shared)
  | .refresh call phase, choice, shared =>
    match monitor.refreshableSpecFor call.agent with
    | none =>
      match phase with
      | .reading => some (.refresh call (leave shared .unavailable none).1,
          (leave shared .unavailable none).2)
      | _ => none
    | some spec =>
      (phase.step spec monitor.refreshThreshold call shared choice).map fun moved =>
        (.refresh call moved.1, moved.2)
  | .launch agent phase, choice, shared =>
    (monitor.refreshableSpecFor agent).bind fun spec =>
      (phase.step spec agent shared choice).map fun moved => (.launch agent moved.1, moved.2)
  | .rotating agent value, _, shared =>
    some (.over, { shared with host := Function.update shared.host agent value })
  | .tampering path change, _, shared =>
    some (.over, shared.setFile path (change.apply (shared.files path)))
  | _, _, _ => none

/-- A process with a monitor. -/
def process (monitor : Monitor β) : System Choice (Shared β) (Position β) where
  starts position :=
    match position with
    | .refreshCalled _ | .launch _ .staging | .rotating _ _ | .tampering _ _ => true
    | _ => false
  step := Position.step monitor

/-- A process that has launched nothing, on a host with these credentials. -/
def Shared.initial (host : String → Option β) : Shared β where
  gate := false
  host
  reads := []
  entries := []
  nextGeneration := 0
  dropped := []
  files _ := ⟨false, none, none, []⟩
  nextPath := 0

end Awman.Credentials
