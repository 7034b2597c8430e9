import Awman.Library.NameMaps
import Awman.OverlayGrammar
import Mathlib.Data.List.Sort

/-!
# From overlay sources to mounts

Six sources name overlays.  `collectedOverlays` merges them in their order, the context overlays are
resolved to host directories, and `buildOverlays` merges everything that is to be mounted by the
place it comes from.
-/

namespace Awman.Overlay

/-! ## Collecting -/

/-- The overlays of all sources. -/
structure CollectedOverlays where
  /-- Directory mounts, in the order of their sources. -/
  directories : List DirectorySpec := []
  includeAllSkills : Bool := false
  namedSkills : List (List Char) := []
  /-- The environment variables that are passed through. -/
  envPassthrough : List (List Char) := []
  contextOverlays : List ContextOverlaySpec := []

/-- Add an overlay; the first one that names a skill, a variable or a scope counts. -/
def CollectedOverlays.processTyped (collected : CollectedOverlays) :
    TypedOverlay → CollectedOverlays
  | .directory spec => { collected with directories := collected.directories ++ [spec] }
  | .skill .all => { collected with includeAllSkills := true }
  | .skill (.named name) =>
    if collected.namedSkills.contains name then collected
    else { collected with namedSkills := collected.namedSkills ++ [name] }
  | .env var =>
    if collected.envPassthrough.contains var then collected
    else { collected with envPassthrough := collected.envPassthrough ++ [var] }
  | .context spec =>
    if collected.contextOverlays.any (·.scope = spec.scope) then collected
    else { collected with contextOverlays := collected.contextOverlays ++ [spec] }

/-- An overlay list that could not be parsed. -/
structure InvalidOverlaySpec where
  spec : List Char
  reason : String

/-- What the six sources hold. -/
structure OverlaySources where
  global : Option (List (List Char))
  /-- The lists in the repository config. -/
  repo : Option (List (List Char))
  /-- The value of `AWMAN_OVERLAYS`. -/
  env : Option (List Char)
  cli : List TypedOverlay
  workflow : Option (List (List Char))
  step : Option (List (List Char))

section collecting

variable (host : Host)

/-- Add the overlays of one list; `spec` stands for the list in an error. -/
def collectList (collected : CollectedOverlays) (list spec : List Char) :
    Except InvalidOverlaySpec CollectedOverlays :=
  match parseOverlayList host list with
  | .ok parsed => .ok (parsed.foldl CollectedOverlays.processTyped collected)
  | .error reason => .error ⟨spec, reason⟩

/-- Add the overlays of the lists of one source. -/
def collectLists (collected : CollectedOverlays) (lists : Option (List (List Char))) :
    Except InvalidOverlaySpec CollectedOverlays :=
  (lists.getD []).foldlM (fun collected list => collectList host collected list list) collected

/-- Add the overlays of `AWMAN_OVERLAYS`. -/
def collectEnv (collected : CollectedOverlays) :
    Option (List Char) → Except InvalidOverlaySpec CollectedOverlays
  | some list => collectList host collected list ("AWMAN_OVERLAYS: ".toList ++ list)
  | none => .ok collected

/-- Collect every overlay source. -/
def collectedOverlays (sources : OverlaySources) :
    Except InvalidOverlaySpec CollectedOverlays := do
  let collected ← collectLists host {} sources.global
  let collected ← collectLists host collected sources.repo
  let collected ← collectEnv host collected sources.env
  let collected := sources.cli.foldl CollectedOverlays.processTyped collected
  let collected ← collectLists host collected sources.workflow
  collectLists host collected sources.step

end collecting

/-! ## Resolving -/

/-- A directory of the host mounted into the container. -/
structure OverlaySpec where
  hostPath : HostPath
  containerPath : List Char
  permission : OverlayPermission
  deriving DecidableEq

/-- Where a context directory is mounted. -/
def ContextScope.containerPath : ContextScope → List Char
  | global => "/awman/context/global".toList
  | repo => "/awman/context/repo".toList
  | workflow => "/awman/context/workflow".toList

/-- The mounts of context overlays; a directory that cannot be created is left out.  `dirs` are the
directories of the scopes, if they are known. -/
def resolveContextOverlays (host : Host) (dirs : Except String (ContextScope → HostPath))
    (specs : List ContextOverlaySpec) : Except String (List OverlaySpec) :=
  if specs.isEmpty then .ok []
  else
    match dirs with
    | .error reason => .error s!"context dir resolver: {reason}"
    | .ok dir => .ok (specs.filterMap fun spec =>
      if host.createDirAll (dir spec.scope) then
        some ⟨dir spec.scope, spec.scope.containerPath, spec.permission⟩
      else none)

/-- What is to be mounted for a command. -/
structure OverlayRequest where
  directories : List DirectorySpec
  includeAllSkills : Bool
  namedSkills : List (List Char)
  /-- The agent whose settings are mounted. -/
  agent : Option (List Char)
  containerHome : Option (List Char)
  contextOverlays : List OverlaySpec

/-- What the other parts of the engine mount for an agent. -/
structure Staging where
  agentSettingsOverlays : List Char → Except String (List OverlaySpec)
  /-- The agent's skills: all of them, or those named. -/
  skillOverlays : List Char → Bool → List (List Char) → Except String (List OverlaySpec)

/-- Resolve a directory spec into its canonical form. -/
def resolveUserOverlay (host : Host) (spec : DirectorySpec) (cwd : HostPath)
    (containerHome : Option (List Char)) : Except String OverlaySpec :=
  let inHome := "~/".toList.isPrefixOf spec.container
  if spec.container.head? ≠ some '/' ∧ inHome = false then
    .error s!"overlay container path '{shown spec.container}' must be absolute"
  else
    let hostCanon := host.canonicalizeLossy (host.makeAbsoluteWithCwd spec.host cwd)
    if host.pathExists hostCanon = false then
      .error (s!"overlay host path '{shown spec.host}' does not exist (resolved to " ++
        s!"'{shown (Utf8Text.fromUtf8Lossy hostCanon)}')")
    else
      let containerPath := if inHome then
        containerHome.getD "/root".toList ++ spec.container.tail else spec.container
      .ok ⟨hostCanon, containerPath, spec.permission⟩

/-! ## Building -/

/-- The mount of two overlays of one place: the first one, with the more restrictive permission. -/
def OverlaySpec.merge (existing spec : OverlaySpec) : OverlaySpec :=
  if spec.permission = .readOnly ∧ existing.permission = .readWrite then
    { existing with permission := .readOnly }
  else existing

/-- The key of a mount. -/
def mountKey (host : Host) (spec : OverlaySpec) : List Char := host.conflictKey spec.hostPath

/-- Add a mount, or merge it with the mount of the same place. -/
def insertOrMerge (host : Host) :
    NameMap (List Char) OverlaySpec → OverlaySpec → NameMap (List Char) OverlaySpec :=
  NameMap.mergeInto (mountKey host) OverlaySpec.merge

/-- The numbers by which the parts of a path are ordered. -/
def Component.rank : Component → List Nat
  | rootDir => [1]
  | curDir => [2]
  | parentDir => [3]
  | normal name => 4 :: name.map UInt8.toNat

/-- The order of paths. -/
def pathLe (first second : HostPath) : Bool :=
  decide ((components first).map Component.rank ≤ (components second).map Component.rank)

section building

variable (host : Host) (staging : Staging)

/-- Add the directory overlays of a request. -/
def addDirectories (cwd : HostPath) (request : OverlayRequest) :
    Except String (NameMap (List Char) OverlaySpec) :=
  request.directories.foldlM (fun byKey spec => do
    let resolved ← resolveUserOverlay host spec cwd request.containerHome
    return insertOrMerge host byKey resolved) ∅

/-- Add the mounts some part of the engine stages. -/
def addStaged (byKey : NameMap (List Char) OverlaySpec) (staged : Except String (List OverlaySpec)) :
    Except String (NameMap (List Char) OverlaySpec) :=
  staged.map fun overlays => overlays.foldl (insertOrMerge host) byKey

/-- Add the settings of the agent. -/
def addAgentSettings (byKey : NameMap (List Char) OverlaySpec) (request : OverlayRequest) :
    Except String (NameMap (List Char) OverlaySpec) :=
  match request.agent with
  | some agent => addStaged host byKey (staging.agentSettingsOverlays agent)
  | none => .ok byKey

/-- Add the skills, if there are any to mount and an agent to mount them for. -/
def addSkills (byKey : NameMap (List Char) OverlaySpec) (request : OverlayRequest) :
    Except String (NameMap (List Char) OverlaySpec) :=
  match request.agent with
  | some agent =>
    if request.includeAllSkills || !request.namedSkills.isEmpty then
      addStaged host byKey
        (staging.skillOverlays agent request.includeAllSkills request.namedSkills)
    else .ok byKey
  | none => .ok byKey

/-- The mounts of a request, sorted by host path. -/
def buildOverlays (cwd : HostPath) (request : OverlayRequest) :
    Except String (List OverlaySpec) := do
  let byKey ← addDirectories host cwd request
  let byKey ← addAgentSettings host staging byKey request
  let byKey ← addSkills host staging byKey request
  let byKey := request.contextOverlays.foldl (insertOrMerge host) byKey
  return (byKey.entries.map (·.2)).insertionSort fun first second =>
    pathLe first.hostPath second.hostPath

end building

/-- What a launch depends on besides the overlay sources. -/
structure Launch where
  host : Host
  /-- What else is mounted. -/
  staging : Staging
  /-- The working directory of the session. -/
  cwd : HostPath
  contextDirs : Except String (ContextScope → HostPath)
  agent : Option (List Char)
  containerHome : Option (List Char)

/-- The mounts of a launch with the given overlay sources. -/
def Launch.mounts (launch : Launch) (sources : OverlaySources) :
    Except String (List OverlaySpec) := do
  let collected ← (collectedOverlays launch.host sources).mapError fun error =>
    s!"invalid overlay spec '{shown error.spec}': {error.reason}"
  let contextOverlays ← resolveContextOverlays launch.host launch.contextDirs
    collected.contextOverlays
  buildOverlays launch.host launch.staging launch.cwd ⟨collected.directories,
    collected.includeAllSkills, collected.namedSkills, launch.agent, launch.containerHome,
    contextOverlays⟩

end Awman.Overlay
