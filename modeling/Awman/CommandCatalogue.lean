import Awman.ArgumentProfiles
import Awman.TaskRequests
import Mathlib.Data.List.Find

/-!
# The command catalogue

Every command with its positional arguments, its flags and its subcommands, as data.  Some lists of flags
are derived from others, so that the commands that share them cannot drift apart.
-/

namespace Awman.Catalogue

open Awman.RawArgs

/-- A command with its subcommands. -/
inductive CommandNode where
  | mk (name : Text) (aliases : List Text) (spec : CommandSpec Text) (subcommands : List CommandNode)

/-- A command of the catalogue. -/
def command (name : String) (aliases : List String) (arguments : List ArgumentSpec)
    (flags : List (FlagSpec Text)) (subcommands : List CommandNode) : CommandNode :=
  .mk name.toList (aliases.map String.toList) ⟨arguments, flags⟩ subcommands

/-- The names of other flags. -/
def names (flags : List String) : List Text := flags.map String.toList

/-- The kind of a flag with these values. -/
def enumOf (values : List String) : FlagKind := .enum (values.map String.toList)

/-- A flag that takes a value. -/
def valued (long : String) (kind : FlagKind) : FlagSpec Text :=
  { key := long.toList, long := long.toList, kind }

/-- A flag without a value. -/
def switch (long : String) : FlagSpec Text :=
  { valued long .bool with default := .bool false }

/-- A flag that may be repeated. -/
def repeated (long : String) : FlagSpec Text :=
  { valued long .vecString with default := .emptyVec }

/-- A command of the squad, its flags named as they are written. -/
def written (spec : CommandSpec Squad.SquadFlag) : CommandSpec Text where
  arguments := spec.arguments
  flags := spec.flags.map fun flag =>
    { key := flag.long, long := flag.long, short := flag.short, kind := flag.kind,
      default := flag.default, frontends := flag.frontends,
      conflictsWith := flag.conflictsWith.map spec.longOf,
      implies := flag.implies.map spec.longOf }

/-! ## Shared flags -/

/-- How a remote host is reached. -/
def remoteTransportFlags : List (FlagSpec Text) :=
  [valued "remote-addr" .optionalString, valued "session" .optionalString,
   valued "api-key" .optionalString, { switch "follow" with short := some 'f' }]

/-- What a single agent run takes. -/
def agentRunFlagsNoWorktree : List (FlagSpec Text) :=
  [{ switch "non-interactive" with short := some 'n' },
   { switch "plan" with conflictsWith := names ["yolo"] }, switch "allow-docker",
   valued "launch-mode" (enumOf ["stdio", "acp"]),
   { switch "yolo" with conflictsWith := names ["plan"] }, switch "auto",
   valued "agent" .optionalString, valued "model" .optionalString, repeated "overlay",
   repeated "agent-flag"]

/-- What selects a persistent worktree; it can select a directory of the host. -/
def sessionWorktreeFlags : List (FlagSpec Text) :=
  [{ valued "branch" .optionalString with
     frontends := .cliAndTui, conflictsWith := names ["pr", "worktree"] },
   { valued "pr" .optionalString with
     frontends := .cliAndTui, conflictsWith := names ["branch", "worktree"] },
   { valued "worktree" .optionalString with
     frontends := .cliAndTui, conflictsWith := names ["branch", "pr"] }]

def execPromptExtraFlags : List (FlagSpec Text) :=
  [valued "issue" .optionalString]

/-- What `chat` takes. -/
def chatFlags : List (FlagSpec Text) := agentRunFlagsNoWorktree ++ sessionWorktreeFlags

/-- What `exec prompt` takes. -/
def execPromptFlags : List (FlagSpec Text) :=
  agentRunFlagsNoWorktree ++ execPromptExtraFlags ++ sessionWorktreeFlags

def execWorkflowLeadingFlags : List (FlagSpec Text) :=
  [{ valued "work-item" .optionalString with conflictsWith := names ["issue"] }]

def execWorkflowWorktreeFlag : List (FlagSpec Text) :=
  [switch "worktree"]

def execWorkflowTrailingFlags : List (FlagSpec Text) :=
  [{ valued "issue" .optionalString with conflictsWith := names ["work-item"] }, switch "dynamic",
   valued "leader" .optionalString, valued "max-concurrent" .usizeAtLeastOne,
   valued "on-dirty-merge-target" (enumOf ["ask", "commit", "stash", "fail"]),
   valued "on-merge-failure" (enumOf ["ask", "agent", "keep"]),
   valued "on-existing-worktree" (enumOf ["ask", "resume", "recreate", "fail"])]

def checkPrerequisitesFlag : List (FlagSpec Text) :=
  [switch "check-prerequisites"]

/-- The flags of a single run that a workflow declares differently. -/
def execWorkflowBaseOverrides : List (FlagSpec Text) :=
  [valued "agent" .optionalString,
   { switch "yolo" with conflictsWith := names ["plan"], implies := names ["worktree"] },
   { switch "auto" with implies := names ["worktree"] }]

/-- The list with some of its flags replaced. -/
def overrideFlags (base overrides : List (FlagSpec Text)) : List (FlagSpec Text) :=
  base.map fun flag => (overrides.filter (·.long = flag.long)).getLastD flag

def execWorkflowBase : List (FlagSpec Text) :=
  overrideFlags agentRunFlagsNoWorktree execWorkflowBaseOverrides

/-- What `exec workflow` takes. -/
def execWorkflowFlags : List (FlagSpec Text) :=
  execWorkflowLeadingFlags ++ execWorkflowBase.take 4 ++ execWorkflowWorktreeFlag ++
    execWorkflowBase.drop 4 ++ execWorkflowTrailingFlags ++
    (written ⟨[], Squad.prerequisiteGrantFlags⟩).flags ++ checkPrerequisitesFlag ++
    [{ switch "json" with implies := names ["non-interactive"] }]

/-- The flags that make no sense on a remote host. -/
def remoteExecExcludedFlagNames : List Text := names ["workdir", "worktree", "branch", "pr", "json"]

/-- The flags of a command for its remote form. -/
def buildRemoteFlags (base : List (FlagSpec Text)) (excluded : List Text) : List (FlagSpec Text) :=
  remoteTransportFlags ++ base.filter (·.long ∉ excluded)

def remoteExecWorkflowFlags : List (FlagSpec Text) :=
  buildRemoteFlags execWorkflowFlags remoteExecExcludedFlagNames

def remoteExecPromptFlags : List (FlagSpec Text) :=
  buildRemoteFlags execPromptFlags remoteExecExcludedFlagNames

/-! ## Project and configuration -/

def init : CommandNode :=
  command "init" [] []
    [{ valued "agent" .string with default := .str "claude".toList }, switch "aspec"] []

def ready : CommandNode :=
  command "ready" [] []
    [switch "refresh", switch "build", switch "no-cache",
     { switch "non-interactive" with short := some 'n' }, switch "allow-docker",
     { switch "json" with implies := names ["non-interactive"] }, valued "agent" .optionalString] []

def chat : CommandNode := command "chat" [] [] chatFlags []

def specsAmend : CommandNode :=
  command "amend" [] [⟨"work_item".toList, .string⟩]
    [{ switch "non-interactive" with short := some 'n' }, switch "allow-docker"] []

def specs : CommandNode := command "specs" [] [] [] [specsAmend]

def configShow : CommandNode := command "show" [] [] [] []

def configGet : CommandNode := command "get" [] [⟨"field".toList, .string⟩] [] []

def configSet : CommandNode :=
  command "set" [] [⟨"field".toList, .string⟩, ⟨"value".toList, .string⟩] [switch "global"] []

def configMigrate : CommandNode :=
  command "migrate" [] []
    [{ switch "yes" with short := some 'y' }, switch "dry-run", switch "global",
     { switch "non-interactive" with short := some 'n' }] []

def configPrerequisiteGrantsList : CommandNode := command "list" [] [] [] []

def configPrerequisiteGrantsRevoke : CommandNode :=
  command "revoke" [] [⟨"selector".toList, .string⟩] [] []

def configPrerequisiteGrants : CommandNode :=
  command "prerequisite-grants" [] [] [] [configPrerequisiteGrantsList, configPrerequisiteGrantsRevoke]

def config : CommandNode :=
  command "config" [] [] [] [configShow, configGet, configSet, configMigrate, configPrerequisiteGrants]

def clean : CommandNode :=
  command "clean" [] [] [{ switch "yes" with short := some 'y' }, switch "dry-run"] []

/-! ## Running agents -/

def execPrompt : CommandNode :=
  command "prompt" [] [⟨"prompt".toList, .trailingVarArgs⟩] execPromptFlags []

def execWorkflow : CommandNode :=
  command "workflow" ["wf"] [⟨"workflow".toList, .path⟩] execWorkflowFlags []

def exec : CommandNode := command "exec" [] [] [] [execPrompt, execWorkflow]

/-! ## Running containers -/

def agentIdArgument : ArgumentSpec := ⟨"id".toList, .string⟩

def agentsStatus : CommandNode :=
  command "status" [] []
    [{ switch "watch" with frontends := .cliAndTui, conflictsWith := names ["json"] },
     { switch "json" with conflictsWith := names ["watch"] }] []

def agentsList : CommandNode :=
  command "list" ["ps", "ls"] []
    [{ switch "all" with short := some 'a' },
     { switch "quiet" with short := some 'q', conflictsWith := names ["json"] },
     { switch "json" with conflictsWith := names ["quiet"] }, switch "no-trunc"] []

def agentsDetail : CommandNode := command "detail" ["inspect"] [agentIdArgument] [switch "json"] []

def agentsKill : CommandNode :=
  command "kill" ["rm"] [agentIdArgument] [switch "json", { switch "yes" with short := some 'y' }] []

def agentsAttach : CommandNode := command "attach" [] [agentIdArgument] [] []

def agents : CommandNode :=
  command "agents" [] [] [] [agentsStatus, agentsList, agentsDetail, agentsKill, agentsAttach]

/-! ## The API server -/

def apiServerStart : CommandNode :=
  command "start" [] []
    [{ valued "port" .u16 with default := .u16 9876, frontends := .cliOnly },
     { repeated "workdirs" with frontends := .cliOnly },
     { repeated "workdir-root" with frontends := .cliOnly },
     { switch "background" with frontends := .cliOnly },
     { switch "refresh-key" with frontends := .cliOnly },
     { switch "dangerously-skip-auth" with frontends := .cliOnly },
     { switch "dangerously-skip-tls" with frontends := .cliOnly }] []

def apiServerKill : CommandNode := command "kill" [] [] [] []

def apiServerLogs : CommandNode := command "logs" [] [] [] []

def apiServerStatus : CommandNode := command "status" [] [] [] []

def apiServer : CommandNode :=
  command "api" [] [] [] [apiServerStart, apiServerKill, apiServerLogs, apiServerStatus]

/-! ## Scaffolding -/

def newSpec : CommandNode :=
  command "spec" [] []
    [switch "interview", { switch "non-interactive" with short := some 'n' },
     valued "issue" .optionalString] []

def newWorkflow : CommandNode :=
  command "workflow" [] []
    [switch "interview", { switch "non-interactive" with short := some 'n' }, switch "global",
     { valued "format" (enumOf ["toml", "yaml"]) with default := .str "toml".toList }] []

def newSkill : CommandNode :=
  command "skill" [] []
    [switch "interview", { switch "non-interactive" with short := some 'n' }, switch "global",
     { valued "pull" .optionalString with conflictsWith := names ["pull-all", "interview", "global"] },
     { switch "pull-all" with conflictsWith := names ["pull", "subdir", "interview", "global"] },
     { valued "subdir" .optionalString with conflictsWith := names ["pull-all"] }] []

def newAgent : CommandNode :=
  command "agent" [] [⟨"name".toList, .string⟩]
    [switch "global", valued "from" (enumOf ["crush", "maki"]), switch "force"] []

def newCommands : CommandNode := command "new" [] [] [] [newSpec, newWorkflow, newSkill, newAgent]

/-! ## Remote hosts -/

def remoteSessionStartFlags : List (FlagSpec Text) :=
  [valued "remote-addr" .optionalString, valued "api-key" .optionalString,
   { valued "type" (enumOf ["local", "remote"]) with default := .str "local".toList },
   valued "workdir" .optionalString, valued "repo-url" .optionalString, valued "branch" .optionalString]

def remoteSessionKillFlags : List (FlagSpec Text) :=
  [valued "remote-addr" .optionalString, valued "api-key" .optionalString]

def remoteSessionStart : CommandNode := command "start" [] [] remoteSessionStartFlags []

def remoteSessionKill : CommandNode :=
  command "kill" [] [⟨"session_id".toList, .optionalString⟩] remoteSessionKillFlags []

def remoteSession : CommandNode := command "session" [] [] [] [remoteSessionStart, remoteSessionKill]

def remoteExecWorkflow : CommandNode :=
  command "workflow" ["wf"] [⟨"workflow".toList, .path⟩] remoteExecWorkflowFlags []

def remoteExecPrompt : CommandNode :=
  command "prompt" [] [⟨"prompt".toList, .trailingVarArgs⟩] remoteExecPromptFlags []

def remoteExec : CommandNode := command "exec" [] [] [] [remoteExecWorkflow, remoteExecPrompt]

def remote : CommandNode := command "remote" [] [] [] [remoteSession, remoteExec]

/-! ## The squad -/

def squadNameArgument : ArgumentSpec := ⟨"name".toList, .string⟩

def squadStart : CommandNode :=
  command "start" [] []
    [{ valued "port" .u16 with default := .u16 0 }, switch "background", switch "refresh-key",
     switch "dangerously-skip-auth"] []

def squadStop : CommandNode := command "stop" ["kill"] [] [] []

def squadStatus : CommandNode := command "status" [] [] [switch "json"] []

def squadLogs : CommandNode := command "logs" [] [] [{ switch "follow" with short := some 'f' }] []

def squadAdd : CommandNode := .mk "add".toList [] (written Squad.squadAdd) []

def squadEdit : CommandNode := .mk "edit".toList [] (written Squad.squadEdit) []

def squadList : CommandNode := command "list" [] [] [switch "json"] []

def squadShow : CommandNode := command "show" [] [squadNameArgument] [switch "json"] []

def squadRemove : CommandNode :=
  command "remove" [] [squadNameArgument]
    [{ switch "yes" with short := some 'y', frontends := .cliAndTui }] []

def squadPause : CommandNode := command "pause" [] [squadNameArgument] [] []

def squadResume : CommandNode := command "resume" [] [squadNameArgument] [] []

def squadTrigger : CommandNode := command "trigger" [] [squadNameArgument] [] []

def squadCancel : CommandNode := command "cancel" [] [squadNameArgument] [] []

def squadAttach : CommandNode :=
  command "attach" [] [squadNameArgument] [{ valued "container" .string with frontends := .cliAndTui }] []

def squadEnv : CommandNode := command "env" [] [] [switch "push", switch "clear", switch "json"] []

def squad : CommandNode :=
  command "squad" [] []
    [{ switch "non-interactive" with short := some 'n', frontends := .cliAndTui },
     { switch "json" with implies := names ["non-interactive"] }]
    [squadStart, squadStop, squadStatus, squadLogs, squadAdd, squadEdit, squadList, squadShow,
     squadRemove, squadPause, squadResume, squadTrigger, squadCancel, squadAttach, squadEnv]

/-! ## The tree -/

/-- The command without a subcommand. -/
def root : CommandNode :=
  command "awman" [] []
    [switch "build", switch "no-cache", switch "refresh"]
    [init, ready, chat, specs, agents, config, exec, apiServer, squad, remote, newCommands, clean]

/-! ## Looking a command up -/

namespace CommandNode

def name : CommandNode → Text
  | mk name _ _ _ => name

def aliases : CommandNode → List Text
  | mk _ aliases _ _ => aliases

def spec : CommandNode → CommandSpec Text
  | mk _ _ spec _ => spec

def subcommands : CommandNode → List CommandNode
  | mk _ _ _ subcommands => subcommands

/-- A subcommand goes by its name and its aliases. -/
def findSubcommand (node : CommandNode) (name : Text) : Option CommandNode :=
  node.subcommands.find? fun sub => sub.name = name ∨ name ∈ sub.aliases

/-- Walk a path of names. -/
def lookup : CommandNode → List Text → Option CommandNode
  | node, [] => some node
  | node, segment :: rest => (node.findSubcommand segment).bind fun sub => sub.lookup rest

/-- The names of the commands on a path; an unknown one ends it. -/
def canonical : CommandNode → List Text → List Text
  | _, [] => []
  | node, segment :: rest =>
    match node.findSubcommand segment with
    | some sub => sub.name :: sub.canonical rest
    | none => [segment]

mutual

/-- The specifications of a command and everything below it. -/
def specs : CommandNode → List (CommandSpec Text)
  | mk _ _ spec subcommands => spec :: specsOf subcommands

/-- The commands of some subtrees. -/
def specsOf : List CommandNode → List (CommandSpec Text)
  | [] => []
  | node :: rest => node.specs ++ specsOf rest

end

/-- A command is one of its own tree. -/
theorem spec_mem_specs (node : CommandNode) : node.spec ∈ node.specs := by
  cases node with
  | mk name aliases spec subcommands =>
    rw [specs]
    exact List.mem_cons_self

/-- The commands of a subtree are among those of all. -/
theorem specs_subset_specsOf {node : CommandNode} {nodes : List CommandNode} (hnode : node ∈ nodes) :
    node.specs ⊆ specsOf nodes := by
  induction nodes with
  | nil => cases hnode
  | cons first rest ih =>
    rw [specsOf]
    rcases List.mem_cons.mp hnode with hhere | hrest
    · rw [hhere]
      exact List.subset_append_left _ _
    · exact List.subset_append_of_subset_right _ (ih hrest)

/-- A command that is found is one of the tree. -/
theorem spec_mem_of_lookup {node found : CommandNode} {path : List Text}
    (hfound : node.lookup path = some found) : found.spec ∈ node.specs := by
  induction path generalizing node with
  | nil =>
    rw [lookup, Option.some.injEq] at hfound
    rw [← hfound]
    exact spec_mem_specs node
  | cons segment rest ih =>
    rw [lookup, Option.bind_eq_some_iff] at hfound
    obtain ⟨sub, hsub, hrest⟩ := hfound
    have hmem : sub ∈ node.subcommands := List.mem_of_find?_eq_some hsub
    cases node with
    | mk name aliases spec subcommands =>
      rw [specs]
      exact List.mem_cons_of_mem spec (specs_subset_specsOf hmem (ih hrest))

end CommandNode

/-- Paths that stand for other paths. -/
def pathAliases : List (List Text × List Text) := []

/-- The path with its aliases resolved. -/
def canonicalPath (path : List Text) : List Text :=
  match pathAliases.find? (·.1 = path) with
  | some (_, canonical) => canonical
  | none => root.canonical path

/-- The command at a path. -/
def lookupWithAliases (path : List Text) : Option CommandNode := root.lookup (canonicalPath path)

/-- Parse an argument vector for the command at a path. -/
def parseRawArgs (path args : List Text) : Except CommandError (ParsedArgs Text) :=
  match lookupWithAliases path with
  | none => .error (.unknownCommand path)
  | some node => parseAgainstSpec node.spec (canonicalPath path) args

/-- Parse an argument vector, and give the values of the front end. -/
def parseRawArgsWithProfile (path args : List Text) (frontend : FrontendKind) :
    Except CommandError (ParsedArgs Text) :=
  match lookupWithAliases path with
  | none => .error (.unknownCommand path)
  | some node => RawArgs.parseRawArgsWithProfile node.spec (canonicalPath path) args frontend

/-! ## What every command of the catalogue has -/

def nonInteractive : Text := "non-interactive".toList

/-- The flags are named as they are written and differ, so do the arguments, and the flags suit the
front ends that run unattended. -/
def Sound (spec : CommandSpec Text) : Prop :=
  (∀ flag ∈ spec.flags, flag.key = flag.long ∧ flag.long ≠ [] ∧ '=' ∉ flag.long ∧
      (flag.long = nonInteractive → flag.kind = .bool)) ∧
    (spec.flags.map FlagSpec.long).Nodup ∧ (spec.arguments.map ArgumentSpec.name).Nodup ∧
    spec.Suits .api ∧ spec.Suits .squadDaemon

instance (spec : CommandSpec Text) (frontend : FrontendKind) : Decidable (spec.Suits frontend) :=
  inferInstanceAs (Decidable (∀ entry ∈ frontendFlagDefaults frontend, ∀ flag ∈ spec.flags,
    flag.long = entry.flag → flag.key ∉ flag.conflictsWith ∧
      if entry.forced then
        ∀ other ∈ spec.flags, flag.key ∈ other.conflictsWith ∨ other.key ∈ flag.conflictsWith →
          other.frontends.allows frontend = false ∧
            ∀ given ∈ frontendFlagDefaults frontend, given.flag ≠ other.long
      else ∀ other ∈ spec.flags, flag.key ∈ other.conflictsWith → other.key ∈ flag.conflictsWith))

instance (spec : CommandSpec Text) : Decidable (Sound spec) :=
  inferInstanceAs (Decidable ((∀ flag ∈ spec.flags, flag.key = flag.long ∧ flag.long ≠ [] ∧
      '=' ∉ flag.long ∧ (flag.long = nonInteractive → flag.kind = .bool)) ∧
    (spec.flags.map FlagSpec.long).Nodup ∧ (spec.arguments.map ArgumentSpec.name).Nodup ∧
    spec.Suits .api ∧ spec.Suits .squadDaemon))

/-- Every command of the catalogue is sound. -/
theorem sound_root : ∀ spec ∈ root.specs, Sound spec := by decide +kernel

/-- Every command that is found is sound. -/
theorem sound_of_lookup {path : List Text} {node : CommandNode}
    (hnode : lookupWithAliases path = some node) : Sound node.spec :=
  sound_root node.spec (CommandNode.spec_mem_of_lookup hnode)

/-- Among flags with different names a flag is found by its name. -/
theorem find_eq_some {flags : List (FlagSpec Text)} (hdistinct : (flags.map FlagSpec.long).Nodup)
    {flag : FlagSpec Text} (hflag : flag ∈ flags) :
    flags.find? (·.long = flag.long) = some flag := by
  induction flags with
  | nil => cases hflag
  | cons first rest ih =>
    rw [List.map_cons, List.nodup_cons] at hdistinct
    rcases List.mem_cons.mp hflag with hhere | hrest
    · rw [hhere, List.find?_cons_of_pos (by simp)]
    · have hother : first.long ≠ flag.long := by
        intro hsame
        exact hdistinct.1 (hsame ▸ List.mem_map_of_mem hrest)
      rw [List.find?_cons_of_neg (by simpa using hother), ih hdistinct.2 hrest]

section Sound

variable {spec : CommandSpec Text}

/-- A flag is the one flag with its name. -/
theorem Sound.find_eq (hsound : Sound spec) {flag : FlagSpec Text} (hflag : flag ∈ spec.flags) :
    spec.flags.find? (·.long = flag.long) = some flag :=
  find_eq_some hsound.2.1 hflag

/-- The flags of a sound command are told apart. -/
theorem Sound.regular (hsound : Sound spec) : spec.Regular where
  found := fun flag hflag => hsound.find_eq hflag
  named := by
    intro flag hflag
    have hkeys : ∀ other ∈ spec.flags,
        decide (other.key = flag.key) = decide (other.long = flag.long) := by
      intro other hother
      rw [(hsound.1 other hother).1, (hsound.1 flag hflag).1]
    rw [List.find?_congr hkeys]
    exact hsound.find_eq hflag
  written := fun flag hflag => ⟨(hsound.1 flag hflag).2.1, (hsound.1 flag hflag).2.2.1⟩

/-- A sound command suits every front end. -/
theorem Sound.suits (hsound : Sound spec) (frontend : FrontendKind) : spec.Suits frontend := by
  cases frontend with
  | api => exact hsound.2.2.2.1
  | squadDaemon => exact hsound.2.2.2.2
  | cli | tui =>
    intro entry hentry
    cases hentry

end Sound

end Awman.Catalogue
