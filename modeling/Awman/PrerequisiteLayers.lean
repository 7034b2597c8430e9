import Awman.PrerequisitePolicies

/-!
# Prerequisite policies from their layers

The policy of a run is resolved from the global configuration, the squad block of the global
configuration, the configuration of the repository, the decisions stored with a task, and the flags of
the invocation.
-/

namespace Awman.Squad

open Awman.Overlay (HostPath textBytes)
open Awman.RawArgs

/-! ## Configuration -/

/-- The git identity in a configuration. -/
structure GitIdentityConfig where
  /-- Whether it may be used. -/
  use : Option CredentialUse := none
  name : Option Text := none
  email : Option Text := none
  deriving DecidableEq

/-- SSH keys in a configuration. -/
structure SshConfig where
  /-- Whether one may be used. -/
  use : Option CredentialUse := none
  key : Option Text := none
  deriving DecidableEq

/-- A command in a configuration that acquires a token. -/
structure AcquireCommandConfig where
  argv : List Text
  /-- How long it may take. -/
  timeoutSecs : Option Nat := none
  /-- When it is run again. -/
  refresh : Option AcquireRefresh := none
  deriving DecidableEq

/-- Tokens in a configuration. -/
structure GithubTokenConfig where
  /-- Whether one may be used. -/
  use : Option CredentialUse := none
  /-- The variables it is read from. -/
  envVars : Option (List Text) := none
  acquire : Option AcquireCommandConfig := none
  verify : Option Bool := none
  deriving DecidableEq

/-- The block `workflows.prerequisites` of a configuration. -/
structure PrerequisitesConfig where
  /-- Whether the checks before a run are made. -/
  preflight : Option PreflightMode := none
  /-- What an unsatisfied prerequisite does. -/
  unresolved : Option UnresolvedMode := none
  gitIdentity : Option GitIdentityConfig := none
  /-- SSH keys. -/
  ssh : Option SshConfig := none
  githubToken : Option GithubTokenConfig := none
  /-- Whether clients may widen the policy. -/
  allowApiClientGrants : Option Bool := none
  deriving DecidableEq

/-! ## One layer of configuration -/

/-- The decision that gives less. -/
def narrowUse : CredentialUse → CredentialUse → CredentialUse
  | .deny, _ | _, .deny => .deny
  | .ask, _ | _, .ask => .ask
  | .allow, .allow => .allow

/-- The warning about a grant of a repository. -/
def repoWarning (key : String) : Text :=
  (s!"workflows.prerequisites.{key}: repo config cannot grant credentials; set this in " ++
    "~/.awman/config.json or answer the prompt").toList

/-- Apply the mode of the checks before a run.  A repository cannot turn them off. -/
def applyPreflight (repo : Bool) (requested : Option PreflightMode) (current : PreflightMode) :
    PreflightMode × List Text :=
  match requested with
  | none => (current, [])
  | some mode =>
    if repo ∧ mode = .off then
      (current, ["workflows.prerequisites.preflight: repo off ignored".toList])
    else (mode, [])

/-- Apply the mode of unsatisfied prerequisites.  A repository cannot loosen it. -/
def applyUnresolved (repo : Bool) (requested : Option UnresolvedMode)
    (current : Option UnresolvedMode) : Option UnresolvedMode × List Text :=
  match requested with
  | none => (current, [])
  | some mode =>
    if repo ∧ mode = .warn then
      (current, ["workflows.prerequisites.unresolved: repo warn cannot loosen fail".toList])
    else (some mode, [])

/-- The name and email, if both are there. -/
def GitIdentityConfig.fixed (config : GitIdentityConfig) : Option (Text × Text) :=
  match config.name, config.email with
  | some name, some email => some (name, email)
  | _, _ => none

/-- Apply a decision about the git identity; with a name and an email it is no grant. -/
def IdentityPolicy.applyUse (policy : IdentityPolicy) (fixed : Option (Text × Text))
    (source : PolicySource) (repo : Bool) : Option CredentialUse → IdentityPolicy × List Text
  | none => (policy, [])
  | some use =>
    if repo ∧ use = .allow ∧ fixed = none then (policy, [repoWarning "gitIdentity.use"])
    else ({ policy with
      use := if repo ∧ fixed = none then narrowUse policy.use use else use, source }, [])

/-- Apply the git identity of a configuration. -/
def IdentityPolicy.applyConfig (policy : IdentityPolicy) (config : GitIdentityConfig)
    (source : PolicySource) (repo : Bool) : IdentityPolicy × List Text :=
  let (policy, warnings) := policy.applyUse config.fixed source repo config.use
  match config.fixed with
  | none => (policy, warnings)
  | some fixed => ({ policy with fixed := some fixed, source }, warnings)

/-- Apply a decision about SSH keys. -/
def SshPolicy.applyUse (policy : SshPolicy) (source : PolicySource) (repo : Bool) :
    Option CredentialUse → SshPolicy × List Text
  | none => (policy, [])
  | some use =>
    if repo ∧ use = .allow then (policy, [repoWarning "ssh.use"])
    else ({ policy with use := if repo then narrowUse policy.use use else use, source }, [])

/-- Apply the SSH keys of a configuration.  The key of a repository is only suggested. -/
def SshPolicy.applyConfig (policy : SshPolicy) (config : SshConfig) (source : PolicySource)
    (repo : Bool) : SshPolicy × List Text :=
  let (policy, warnings) := policy.applyUse source repo config.use
  match config.key with
  | none => (policy, warnings)
  | some key =>
    ({ policy with
      key := some (textBytes key), keyIsSuggestion := repo, wholeDir := false, source }, warnings)

/-- The seconds a command may take when nothing is said. -/
def acquireTimeoutDefaultSecs : Nat := 30

/-- The command of a configuration; `sha256` hashes its words. -/
def AcquirePolicy.fromConfig (sha256 : List Text → Text) (config : AcquireCommandConfig)
    (scope : AcquireScope) : AcquirePolicy where
  argv := config.argv
  timeoutSecs := config.timeoutSecs.getD acquireTimeoutDefaultSecs
  refresh := config.refresh.getD .start
  scope := scope
  sha256 := sha256 config.argv

/-- Apply a decision about tokens. -/
def TokenPolicy.applyUse (policy : TokenPolicy) (source : PolicySource) (repo : Bool) :
    Option CredentialUse → TokenPolicy × List Text
  | none => (policy, [])
  | some use =>
    if repo ∧ use = .allow then (policy, [repoWarning "githubToken.use"])
    else ({ policy with use := if repo then narrowUse policy.use use else use, source }, [])

/-- Apply the variables of a token.  A repository can only leave some out. -/
def TokenPolicy.applyEnvVars (policy : TokenPolicy) (source : PolicySource) (repo : Bool) :
    Option (List Text) → TokenPolicy × List Text
  | none => (policy, [])
  | some vars =>
    if repo ∧ ¬ ∀ var ∈ vars, var ∈ policy.envVars then
      (policy, [("workflows.prerequisites.githubToken.envVars: repo names must be a subset of " ++
        "global names; ignored").toList])
    else ({ policy with envVars := vars, source }, [])

/-- Apply the command that acquires a token.  A repository cannot replace that of the operator. -/
def TokenPolicy.applyAcquire (sha256 : List Text → Text) (policy : TokenPolicy)
    (source : PolicySource) (repo : Bool) :
    Option AcquireCommandConfig → TokenPolicy × List Text
  | none => (policy, [])
  | some acquire =>
    if repo ∧ policy.acquire.any (·.scope = .global) then
      (policy, ["repository acquire ignored: trusted global command retained".toList])
    else
      let scope := if repo then AcquireScope.repo else .global
      ({ policy with acquire := some (.fromConfig sha256 acquire scope), source }, [])

/-- Apply whether tokens are verified.  A repository cannot turn that off. -/
def TokenPolicy.applyVerify (policy : TokenPolicy) (repo : Bool) :
    Option Bool → TokenPolicy × List Text
  | none => (policy, [])
  | some verify =>
    if repo ∧ policy.verify ∧ ¬ verify then
      (policy, [("workflows.prerequisites.githubToken.verify: repo cannot disable verification; " ++
        "ignored").toList])
    else ({ policy with verify }, [])

/-- Apply the tokens of a configuration. -/
def TokenPolicy.applyConfig (sha256 : List Text → Text) (policy : TokenPolicy)
    (config : GithubTokenConfig) (source : PolicySource) (repo : Bool) :
    TokenPolicy × List Text :=
  let (policy, useWarnings) := policy.applyUse source repo config.use
  let (policy, varWarnings) := policy.applyEnvVars source repo config.envVars
  let (policy, acquireWarnings) := policy.applyAcquire sha256 source repo config.acquire
  let (policy, verifyWarnings) := policy.applyVerify repo config.verify
  (policy, useWarnings ++ varWarnings ++ acquireWarnings ++ verifyWarnings)

/-- Apply a block that may be absent. -/
def applyBlock {α β : Type} (apply : β → α → β × List Text) (policy : β) (block : Option α) :
    β × List Text :=
  match block with
  | none => (policy, [])
  | some config => apply policy config

/-- The warning about a repository that lets clients widen the policy. -/
def grantsWarnings (repo : Bool) (allowed : Option Bool) : List Text :=
  if repo ∧ allowed.isSome then
    [("workflows.prerequisites.allowApiClientGrants is global-only; repo value " ++
      "ignored").toList]
  else []

namespace PrerequisitePolicy

section resolve

variable (sha256 : List Text → Text)

/-- Apply the block of a configuration. -/
def applyConfig (policy : PrerequisitePolicy) (config : PrerequisitesConfig) (source : PolicySource)
    (repo : Bool) : PrerequisitePolicy :=
  let (preflight, preflightWarnings) := applyPreflight repo config.preflight policy.preflight
  let (unresolved, unresolvedWarnings) := applyUnresolved repo config.unresolved policy.unresolved
  let (gitIdentity, identityWarnings) :=
    applyBlock (fun policy config => IdentityPolicy.applyConfig policy config source repo)
      policy.gitIdentity config.gitIdentity
  let (ssh, sshWarnings) :=
    applyBlock (fun policy config => SshPolicy.applyConfig policy config source repo)
      policy.ssh config.ssh
  let (githubToken, tokenWarnings) :=
    applyBlock (fun policy config => TokenPolicy.applyConfig sha256 policy config source repo)
      policy.githubToken config.githubToken
  { policy with
    preflight, unresolved, gitIdentity, ssh, githubToken
    warnings := policy.warnings ++ preflightWarnings ++ unresolvedWarnings ++ identityWarnings ++
      sshWarnings ++ tokenWarnings ++ grantsWarnings repo config.allowApiClientGrants }

/-- Where a decision of a task comes from. -/
def taskSource (source : PolicySource) : PolicySource :=
  if source = .remoteTask then .remoteTask else .task

/-- Apply the decisions stored with a task.  One that was never made overrides nothing, and a task can
only select the command of the operator. -/
def applyTask (policy task : PrerequisitePolicy) : PrerequisitePolicy :=
  { policy with
    gitIdentity := if task.gitIdentity.source ≠ .default then
        { task.gitIdentity with source := taskSource task.gitIdentity.source }
      else policy.gitIdentity
    ssh := if task.ssh.source ≠ .default then
        { task.ssh with source := taskSource task.ssh.source }
      else policy.ssh
    githubToken := if task.githubToken.source ≠ .default then
        { task.githubToken with
          acquire := policy.githubToken.acquire.filter (·.scope = .global)
          source := taskSource task.githubToken.source }
      else policy.githubToken
    unresolved := task.unresolved.or policy.unresolved }

/-- The decisions of a task after an edit. -/
def editedTask (task edit : PrerequisitePolicy) : PrerequisitePolicy := task.applyTask edit

end resolve

end PrerequisitePolicy

/-- What a policy is resolved from. -/
structure PrerequisitePolicyLayers where
  global : Option PrerequisitesConfig := none
  squadGlobal : Option PrerequisitesConfig := none
  /-- The configuration of the repository. -/
  repo : Option PrerequisitesConfig := none
  /-- The decisions stored with a task. -/
  task : Option PrerequisitePolicy := none
  flags : PrerequisiteFlags := {}
  remoteSession : Bool := false

namespace PrerequisitePolicyLayers

variable (sha256 : List Text → Text) (layers : PrerequisitePolicyLayers)

/-- The policy of the global configuration, which alone lets clients widen it. -/
def globalPolicy : PrerequisitePolicy :=
  match layers.global with
  | none => default
  | some config => { (default : PrerequisitePolicy).applyConfig sha256 config .global false with
      allowApiClientGrants := config.allowApiClientGrants.getD false }

/-- The policy of the operator: that of the global blocks. -/
def operator : PrerequisitePolicy :=
  match layers.squadGlobal with
  | none => layers.globalPolicy sha256
  | some config => (layers.globalPolicy sha256).applyConfig sha256 config .squadGlobal false

/-- The operator lets every run use SSH keys. -/
def globalSshAllow : Bool :=
  (layers.global.toList ++ layers.squadGlobal.toList).any fun config =>
    config.ssh.bind SshConfig.use = some .allow

/-- Deny SSH keys to a remote session, unless the operator allows them. -/
def restrictRemote (policy : PrerequisitePolicy) : PrerequisitePolicy :=
  if layers.remoteSession ∧ ¬ layers.globalSshAllow then
    { policy with ssh := { policy.ssh with use := .deny } }
  else policy

/-- The policy of a run. -/
def resolve : PrerequisitePolicy :=
  let policy := layers.operator sha256
  let policy := match layers.repo with
    | none => policy
    | some config => policy.applyConfig sha256 config .repo true
  let policy := match layers.task with
    | none => policy
    | some task => policy.applyTask task
  (layers.restrictRemote policy).applyFlags layers.flags

end PrerequisitePolicyLayers

/-! ## Decisions of a remote task -/

/-- The flags that grant what the remote decisions of a task grant. -/
def PrerequisitePolicy.remoteFlags (task : PrerequisitePolicy) : PrerequisiteFlags where
  identity :=
    if task.gitIdentity.source = .remoteTask ∧ task.gitIdentity.use = .allow then
      some (match task.gitIdentity.fixed with
        | some (name, email) => .fixed name email
        | none => .host)
    else none
  ssh :=
    if task.ssh.source = .remoteTask ∧ task.ssh.use = .allow then
      if task.ssh.wholeDir then some .all else task.ssh.key.map .key
    else none
  token :=
    if task.githubToken.source = .remoteTask ∧ task.githubToken.use = .allow then
      some (match task.githubToken.envVars.head? with
        | some var => .env var
        | none => .acquire)
    else none

/-- Check the remote decisions of a task against the policy of the operator once more. -/
def checkTaskWidening (task globalPolicy : PrerequisitePolicy) : Except CommandError Unit :=
  checkFlagWidening .squadDaemon task.remoteFlags globalPolicy

end Awman.Squad
