import Awman.ContainerNaming
import Awman.Library.SortedMaps
import Awman.OverlayGrammar
import Awman.PrerequisitePolicies
import Mathlib.Data.List.Lex

/-!
# Task requests over the wire

A client creates or edits a task through a gateway.  The local gateway validates the request; the
remote gateway writes it as the arguments of `squad add` or `squad edit`, which the daemon parses
like any other invocation and maps back to a request.
-/

namespace Awman.Squad

open Awman.Naming (validateTaskSlug)
open Awman.Network (trim)
open Awman.TextCuts (byteLength splitOnce stripSuffix)
open Awman.Overlay (Host HostPath parseOverlayList textBytes)
open Awman.Utf8Text (fromUtf8Lossy)
open Awman.RawArgs

/-- The agents a task may use, with the models of each. -/
abbrev AgentPool := SortedMap Text (List Text)

/-- The workspace a task is bound to. -/
inductive TaskWorkspace where
  /-- The directory that belongs to the task. -/
  | default
  /-- A folder or repository. -/
  | custom (path : HostPath)
  deriving DecidableEq

/-- What of the workspace is mounted. -/
inductive MountScope where
  | cwd
  | gitRoot
  /-- A directory without a repository. -/
  | directory
  deriving DecidableEq

/-- A request to create a task. -/
@[ext] structure CreateTask where
  name : Text
  /-- What the task is to do. -/
  description : Text
  workspace : TaskWorkspace
  mountScope : MountScope
  /-- The seconds between two evaluations. -/
  intervalSecs : Nat
  agent : Option Text
  model : Option Text
  overlays : List Text
  agentsToModels : AgentPool
  /-- The decisions about credentials. -/
  prerequisites : Option PrerequisitePolicy

/-- A request to edit a task; a field that is absent is left alone. -/
@[ext] structure UpdateTask where
  /-- What the task is to do. -/
  description : Option Text := none
  /-- The seconds between two evaluations. -/
  intervalSecs : Option Nat := none
  /-- The leader agent; none within clears it. -/
  agent : Option (Option Text) := none
  /-- The leader model; none within clears it. -/
  model : Option (Option Text) := none
  overlays : Option (List Text) := none
  agentsToModels : Option AgentPool := none
  /-- The decisions about credentials. -/
  prerequisites : Option PrerequisitePolicy := none

/-! ## The local gateway -/

/-- The fewest seconds between two evaluations. -/
def minIntervalSecs : Nat := 60

/-- The most seconds between two evaluations. -/
def maxIntervalSecs : Nat := 86400

/-- A name of an agent. -/
def isAgentName (name : Text) : Bool :=
  !name.isEmpty && decide (byteLength name ≤ 64) &&
    name.all fun character => character.isAlphanum || character == '-' || character == '_'

/-- Check the agents and models of a pool. -/
def validateAgentsToModels (debug : Text → String) (pool : AgentPool) : Except String Unit :=
  pool.entries.forM fun (agent, models) =>
    if !isAgentName agent then
      .error (s!"squad.agentsToModels key {debug agent} is not a valid agent name: only ASCII " ++
        "alphanumerics, '-', and '_' are allowed, length 1..=64")
    else if models.isEmpty then
      .error (s!"squad.agentsToModels.{shown agent} has an empty model list. " ++
        "Provide at least one model name.")
    else if models.any fun model => (trim model).isEmpty then
      .error s!"squad.agentsToModels.{shown agent} contains an empty model name."
    else .ok ()

/-- What the local gateway sees of its surroundings. -/
structure LocalGateway where
  /-- The file system. -/
  host : Host
  /-- The root of the repository a directory is in. -/
  gitRootOf : HostPath → Option HostPath
  globalAgents : List Text
  /-- Whether the agents can be used in the repository; what is wrong with them otherwise. -/
  validateTaskAgents : HostPath → List Text → Except String Unit
  /-- The tasks by their names: repository, scope and agent. -/
  tasks : Text → Option (HostPath × MountScope × Option Text)
  /-- A task is only stored under a valid name. -/
  slug_of_task : ∀ name, (tasks name).isSome = true → validateTaskSlug host.debug name = .ok ()

namespace LocalGateway

variable (gateway : LocalGateway)

/-- The repository of the workspace, if the workspace is the root of one. -/
def repositoryOf : TaskWorkspace → Except String (Option HostPath)
  | .default => .ok none
  | .custom path =>
    match gateway.host.canonicalize path with
    | none => .error (s!"task workspace {shown (fromUtf8Lossy path)} does not exist or cannot be " ++
        "resolved")
    | some canonical =>
      if gateway.host.isDir canonical = false then
        .error s!"task workspace {shown (fromUtf8Lossy canonical)} is not a directory"
      else if gateway.gitRootOf canonical = some canonical then .ok (some canonical)
      else .ok none

/-- Check the interval of a task. -/
def validateInterval (intervalSecs : Nat) : Except String Unit :=
  if minIntervalSecs ≤ intervalSecs ∧ intervalSecs ≤ maxIntervalSecs then .ok ()
  else .error s!"task interval must be between {minIntervalSecs} and {maxIntervalSecs} seconds"

/-- Check the syntax of overlay lists. -/
def validateOverlays (overlays : List Text) : Except String Unit :=
  overlays.forM fun spec =>
    match parseOverlayList gateway.host spec with
    | .ok _ => .ok ()
    | .error reason => .error s!"invalid overlay spec '{shown spec}': {reason}"

/-- Check the agents of a request in the repository of its workspace, if it has one. -/
def validateAgents (gitRoot : Option HostPath) (agents : List Text) : Except String Unit :=
  match gitRoot with
  | some gitRoot => gateway.validateTaskAgents gitRoot agents
  | none => .ok ()

/-- Check the fields of a new task. -/
def checkFields (req : CreateTask) : Except String Unit := do
  validateTaskSlug gateway.host.debug req.name
  validateInterval req.intervalSecs
  gateway.validateOverlays req.overlays

/-- Check the agents a new task may use: its own, those of its pool and those of every task. -/
def checkAgents (gitRoot : Option HostPath) (req : CreateTask) : Except String Unit :=
  gateway.validateAgents gitRoot
    (req.agent.toList ++ req.agentsToModels.entries.map Prod.fst ++ gateway.globalAgents)

/-- Check the fields an edit of a task carries. -/
def checkUpdate (repoScope : HostPath) (mountScope : MountScope) (existing : Option Text)
    (req : UpdateTask) : Except String Unit := do
  req.intervalSecs.toList.forM validateInterval
  gateway.validateOverlays (req.overlays.getD [])
  gateway.validateAgents (if mountScope = .directory then none else some repoScope)
    ((req.agent.getD existing).toList ++
      ((req.agentsToModels.map fun pool => pool.entries.map Prod.fst).getD []))

/-- Check a request to create a task, with its config file. -/
def acceptCreate (req : CreateTask) : Except String Unit := do
  gateway.checkFields req
  let gitRoot ← gateway.repositoryOf req.workspace
  gateway.checkAgents gitRoot req
  validateAgentsToModels gateway.host.debug req.agentsToModels

/-- Check a request to edit the task of the given name, with its config file. -/
def acceptUpdate (name : Text) (req : UpdateTask) : Except String Unit :=
  match gateway.tasks name with
  | none => .error s!"task {gateway.host.debug name} was not found"
  | some (repoScope, mountScope, existing) => do
    gateway.checkUpdate repoScope mountScope existing req
    validateAgentsToModels gateway.host.debug (req.agentsToModels.getD .empty)

end LocalGateway

/-! ## The remote gateway -/

/-- The value of `--workspace` that stands for the directory of the task. -/
def defaultWorkspaceFlagValue : Text := "default".toList

/-- Write a pool as the specs it is parsed from. -/
def formatAgentModelsSpecs (pool : AgentPool) : List Text :=
  pool.entries.map fun (agent, models) => agent ++ '=' :: List.intercalate [','] models

/-- A flag with its value, if it has one. -/
def flagArgs (flag : Text) (value : Option Text) : List Text :=
  (value.map fun value => [flag, value]).getD []

/-- The arguments of `squad add` for a request. -/
def createArgs (req : CreateTask) : List Text :=
  ["--name".toList, req.name, "--description".toList, req.description,
    "--workspace".toList,
    match req.workspace with
    | .default => defaultWorkspaceFlagValue
    | .custom path => fromUtf8Lossy path,
    "--interval".toList, Nat.toDigits 10 req.intervalSecs,
    "--mount-scope".toList,
    match req.mountScope with
    | .cwd => "cwd".toList
    -- The catalogue knows no third value; the daemon decides it again.
    | .gitRoot | .directory => "gitroot".toList] ++
  flagArgs "--agent".toList req.agent ++ flagArgs "--model".toList req.model ++
  req.overlays.flatMap (fun overlay => ["--overlay".toList, overlay]) ++
  (formatAgentModelsSpecs req.agentsToModels).flatMap
    (fun spec => ["--agent-models".toList, spec]) ++
  (req.prerequisites.map prerequisiteFlagArgs).getD []

/-- A value to set, a flag to clear it, or nothing. -/
def setOrClear (flag clearFlag : Text) : Option (Option Text) → List Text
  | some (some value) => [flag, value]
  | some none => [clearFlag]
  | none => []

/-- Values to set, a flag to clear them all, or nothing. -/
def replaceOrClear (flag clearFlag : Text) : Option (List Text) → List Text
  | some [] => [clearFlag]
  | some values => values.flatMap fun value => [flag, value]
  | none => []

/-- The arguments of `squad edit` for a request. -/
def updateArgs (name : Text) (req : UpdateTask) : List Text :=
  [name] ++ flagArgs "--description".toList req.description ++
  flagArgs "--interval".toList (req.intervalSecs.map (Nat.toDigits 10)) ++
  setOrClear "--agent".toList "--clear-agent".toList req.agent ++
  setOrClear "--model".toList "--clear-model".toList req.model ++
  replaceOrClear "--overlay".toList "--clear-overlays".toList req.overlays ++
  replaceOrClear "--agent-models".toList "--clear-agent-models".toList
    (req.agentsToModels.map formatAgentModelsSpecs) ++
  (req.prerequisites.map prerequisiteFlagArgs).getD []

/-! ## The commands -/

/-- The flags of `squad add` and `squad edit`. -/
inductive SquadFlag where
  | name
  | description
  | repo
  | interval
  | agent
  | clearAgent
  | model
  | clearModel
  | workspace
  | overlay
  | clearOverlays
  | mountScope
  | agentModels
  | clearAgentModels
  | interview
  | nonInteractive
  | prerequisiteIdentity
  | prerequisiteSsh
  | prerequisiteToken
  | prerequisiteUnresolved
  deriving DecidableEq

/-- The agent pool, shared by both commands. -/
def squadAgentModelsFlag : FlagSpec SquadFlag :=
  { key := .agentModels, long := "agent-models".toList, kind := .vecString, default := .emptyVec }

/-- The flags of both commands that decide who is asked. -/
def interactionFlags : List (FlagSpec SquadFlag) :=
  [{ key := .interview, long := "interview".toList, kind := .bool, default := .bool false,
     frontends := .cliAndTui, conflictsWith := [.nonInteractive] },
   { key := .nonInteractive, long := "non-interactive".toList, short := some 'n', kind := .bool,
     default := .bool false, frontends := .cliAndTui, conflictsWith := [.interview] }]

/-- The flags that grant or deny credentials. -/
def prerequisiteGrantFlags : List (FlagSpec SquadFlag) :=
  [{ key := .prerequisiteIdentity, long := "prerequisite-identity".toList, kind := .optionalString },
   { key := .prerequisiteSsh, long := "prerequisite-ssh".toList, kind := .optionalString },
   { key := .prerequisiteToken, long := "prerequisite-token".toList, kind := .optionalString },
   { key := .prerequisiteUnresolved, long := "prerequisite-unresolved".toList,
     kind := .enum ["warn".toList, "fail".toList] }]

/-- The command `squad add`. -/
def squadAdd : CommandSpec SquadFlag where
  arguments := []
  flags :=
    [{ key := .name, long := "name".toList, kind := .string },
     { key := .description, long := "description".toList, kind := .string },
     { key := .repo, long := "repo".toList, kind := .path },
     { key := .interval, long := "interval".toList, kind := .string, default := .str "6h".toList },
     { key := .agent, long := "agent".toList, kind := .string },
     { key := .model, long := "model".toList, kind := .string },
     { key := .workspace, long := "workspace".toList, kind := .string },
     { key := .overlay, long := "overlay".toList, kind := .vecString, default := .emptyVec },
     { key := .mountScope, long := "mount-scope".toList,
       kind := .enum ["cwd".toList, "gitroot".toList], default := .str "gitroot".toList },
     squadAgentModelsFlag] ++ interactionFlags ++ prerequisiteGrantFlags

/-- The command `squad edit`. -/
def squadEdit : CommandSpec SquadFlag where
  arguments := [⟨"name".toList, .string⟩]
  flags :=
    [{ key := .description, long := "description".toList, kind := .string },
     { key := .interval, long := "interval".toList, kind := .string },
     { key := .agent, long := "agent".toList, kind := .string, conflictsWith := [.clearAgent] },
     { key := .clearAgent, long := "clear-agent".toList, kind := .bool, default := .bool false,
       conflictsWith := [.agent] },
     { key := .model, long := "model".toList, kind := .string, conflictsWith := [.clearModel] },
     { key := .clearModel, long := "clear-model".toList, kind := .bool, default := .bool false,
       conflictsWith := [.model] },
     { key := .overlay, long := "overlay".toList, kind := .vecString, default := .emptyVec,
       conflictsWith := [.clearOverlays] },
     { key := .clearOverlays, long := "clear-overlays".toList, kind := .bool,
       default := .bool false, conflictsWith := [.overlay] },
     squadAgentModelsFlag,
     { key := .clearAgentModels, long := "clear-agent-models".toList, kind := .bool,
       default := .bool false, conflictsWith := [.agentModels] }] ++
    interactionFlags ++ prerequisiteGrantFlags

/-! ## What the daemon reads -/

/-- Read an interval: seconds, or a duration such as `5m`. -/
def parseSquadInterval (command : List Text) (raw : Text) : Except CommandError Nat :=
  let value := trim raw
  let (number, multiplier) :=
    match stripSuffix ['s'] value, stripSuffix ['m'] value, stripSuffix ['h'] value with
    | some number, _, _ => (number, 1)
    | none, some number, _ => (number, 60)
    | none, none, some number => (number, 3600)
    | none, none, none => (value, 1)
  match (parseUnsigned (2 ^ 64) number).filter (· * multiplier < 2 ^ 64) with
  | some seconds => .ok (seconds * multiplier)
  | none => .error (.invalidFlagValue command "interval".toList
      "expected seconds or a duration such as 5m")

/-- Add the models of a spec to those of an agent, each once. -/
def addModels (models : List Text) (entry : List Text) : List Text :=
  models.foldl (fun entry model =>
    if (trim model).isEmpty ∨ trim model ∈ entry then entry else entry ++ [trim model]) entry

/-- Add a spec of the form `agent=model,model` to a pool. -/
def addAgentModelsSpec (debug : Text → String) (pool : AgentPool) (spec : Text) :
    Except String AgentPool :=
  let spec := trim spec
  if spec.isEmpty then .ok pool
  else
    match splitOnce '=' spec with
    | none =>
      .error s!"agent-models spec {debug spec} must be written <agent>=<model>[,<model>...]"
    | some (agent, models) =>
      let agent := trim agent
      if agent.isEmpty then .error s!"agent-models spec {debug spec} names no agent"
      else .ok (pool.upsert agent fun entry => addModels (models.splitOn ',') (entry.getD []))

/-- The pool specs describe. -/
def parseAgentModelsSpecs (debug : Text → String) (specs : List Text) : Except String AgentPool :=
  specs.foldlM (addAgentModelsSpec debug) SortedMap.empty

/-- What the daemon decides with, besides the arguments. -/
structure Server where
  /-- The words of the command. -/
  path : List Text
  /-- The policy of the server for its own tasks. -/
  policy : PrerequisitePolicy
  /-- How a text is quoted in a message. -/
  debug : Text → String

section reading

variable (server : Server) (ctx : BuildContext SquadFlag)

/-- Turn what is wrong with the value of a flag into an error of the command. -/
def orInvalid {α : Type} (flag : SquadFlag) (result : Except String α) : Except CommandError α :=
  result.mapError fun reason => .invalidFlagValue ctx.path (ctx.spec.longOf flag) reason

/-- Read the value of a flag that may be absent. -/
def readFlag {α : Type} (flag : SquadFlag) (parse : Text → Except String α) :
    Except CommandError (Option α) :=
  match ctx.str flag with
  | none => .ok none
  | some raw => (orInvalid ctx flag (parse raw)).map some

/-- Refuse a token that is a secret of the command. -/
def refuseSecret (token : Option TokenFlag) : Except CommandError (Option TokenFlag) :=
  match token with
  | some (.secret _) => .error (.prerequisiteFlagUnsupported
      (shown flagToken ++ " " ++ shown ((ctx.str .prerequisiteToken).getD [])))
  | other => .ok other

/-- Read what an unsatisfied prerequisite does. -/
def parseUnresolved (raw : Text) : Except String UnresolvedMode :=
  if raw = "warn".toList then .ok .warn
  else if raw = "fail".toList then .ok .fail
  else .error s!"unknown mode {server.debug raw}"

/-- Read the `--prerequisite-*` flags. -/
def parsePrerequisiteFlags : Except CommandError PrerequisiteFlags := do
  let identity ← readFlag ctx .prerequisiteIdentity parseIdentity
  let ssh ← readFlag ctx .prerequisiteSsh parseSsh
  let token ← readFlag ctx .prerequisiteToken (parseToken server.debug)
  let token ← refuseSecret ctx token
  let unresolved ← readFlag ctx .prerequisiteUnresolved (parseUnresolved server)
  return { identity, ssh, token, unresolved }

/-- The policy the flags describe; a remote client may only narrow that of the server. -/
def squadPrerequisitePolicy : Except CommandError (Option PrerequisitePolicy) := do
  let flags ← parsePrerequisiteFlags server ctx
  if flags.isEmpty then return none
  else
    checkFlagWidening ctx.frontend flags server.policy
    let policy := PrerequisitePolicy.fromFlags flags
    return some (if ctx.frontend.isLocalUser then policy else policy.remote)

/-- The request of `squad add`. -/
structure SquadAddRequest where
  /-- The fields are collected in a conversation. -/
  interview : Bool
  /-- Nobody is asked. -/
  nonInteractive : Bool
  /-- The task, unless its fields are collected. -/
  prefilled : Option CreateTask

/-- The workspace the flags name. -/
def squadWorkspace : TaskWorkspace :=
  match ctx.str .workspace with
  | some path => if path = defaultWorkspaceFlagValue then .default else .custom (textBytes path)
  | none =>
    match ctx.pathFlag .repo with
    | some repo => .custom (textBytes repo)
    | none => .default

/-- Assemble the request of `squad add`. -/
def squadAddRequest : Except CommandError SquadAddRequest :=
  let nonInteractive := ctx.bool .nonInteractive
  if ctx.bool .interview then .ok ⟨true, nonInteractive, none⟩
  else do
    -- The command admits no value but `cwd` and `gitroot`.
    let mountScope := if ctx.str .mountScope = some "cwd".toList then .cwd else .gitRoot
    let name ← ctx.requireStr .name
    let description ← ctx.requireStr .description
    let interval ← ctx.requireStr .interval
    let intervalSecs ← parseSquadInterval ctx.path interval
    let agentsToModels ← orInvalid ctx .agentModels
      (parseAgentModelsSpecs server.debug (ctx.strs .agentModels))
    let prerequisites ← squadPrerequisitePolicy server ctx
    return ⟨false, nonInteractive, some
      { name, description, workspace := squadWorkspace ctx, mountScope, intervalSecs,
        agent := ctx.str .agent, model := ctx.str .model, overlays := ctx.strs .overlay,
        agentsToModels, prerequisites }⟩

/-- A value that is set, or cleared, or left alone. -/
def setOrCleared (flag clearFlag : SquadFlag) : Option (Option Text) :=
  match ctx.str flag with
  | some value => some (some value)
  | none => if ctx.bool clearFlag then some none else none

/-- The agent pool that is set, or cleared, or left alone. -/
def updatedPool : Except CommandError (Option AgentPool) :=
  if ctx.strs .agentModels ≠ [] then
    (orInvalid ctx .agentModels
      (parseAgentModelsSpecs server.debug (ctx.strs .agentModels))).map some
  else .ok (if ctx.bool .clearAgentModels then some .empty else none)

/-- The interval that is set, or left alone. -/
def updatedInterval : Except CommandError (Option Nat) :=
  match ctx.str .interval with
  | some raw => (parseSquadInterval ctx.path raw).map some
  | none => .ok none

/-- Assemble the update of `squad edit`. -/
def squadUpdate : Except CommandError UpdateTask :=
  if ctx.bool .interview then .ok {}
  else do
    let overlays := if ctx.strs .overlay ≠ [] then some (ctx.strs .overlay)
      else if ctx.bool .clearOverlays then some [] else none
    let agentsToModels ← updatedPool server ctx
    let intervalSecs ← updatedInterval ctx
    let prerequisites ← squadPrerequisitePolicy server ctx
    return { description := ctx.str .description, intervalSecs,
             agent := setOrCleared ctx .agent .clearAgent,
             model := setOrCleared ctx .model .clearModel,
             overlays, agentsToModels, prerequisites }

end reading

/-- The context in which the daemon builds a command from its arguments. -/
def daemonContext (server : Server) (spec : CommandSpec SquadFlag) (args : List Text) :
    Except CommandError (BuildContext SquadFlag) := do
  let parsed ← parseRawArgsWithProfile spec server.path args .squadDaemon
  let ctx : BuildContext SquadFlag := ⟨server.path, spec, parsed, .squadDaemon⟩
  ctx.validateConflicts
  return ctx

/-- The request the daemon reads from the arguments of `squad add`. -/
def readCreate (server : Server) (args : List Text) : Except CommandError SquadAddRequest := do
  let ctx ← daemonContext server squadAdd args
  squadAddRequest server ctx

/-- The name and the update the daemon reads from the arguments of `squad edit`. -/
def readUpdate (server : Server) (args : List Text) : Except CommandError (Text × UpdateTask) := do
  let ctx ← daemonContext server squadEdit args
  let name ← ctx.requireArgument "name".toList
  let update ← squadUpdate server ctx
  return (name, update)

end Awman.Squad
