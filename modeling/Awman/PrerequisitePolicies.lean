import Awman.NetworkConfig
import Awman.OverlayPaths
import Awman.RawArgs

/-!
# Prerequisite flags and policies

The `--prerequisite-*` flags grant or deny the credentials a workflow needs.  A task stores them as a
policy; the remote gateway writes the policy back as flags, and the daemon reads those again.
-/

namespace Awman.Squad

open Awman.Network (trim)
open Awman.TextCuts (splitOnce stripSuffix)
open Awman.Overlay (HostPath textBytes)
open Awman.Utf8Text (fromUtf8Lossy)
open Awman.RawArgs

/-! ## Flags -/

/-- Which git identity a run may use. -/
inductive IdentityFlag where
  | host
  | fixed (name email : Text)
  | deny
  deriving DecidableEq

/-- Which SSH key a run may use. -/
inductive SshFlag where
  | key (path : HostPath)
  | all
  | deny
  deriving DecidableEq

/-- Which token a run may use. -/
inductive TokenFlag where
  | env (name : Text)
  | acquire
  | secret (name : Text)
  | deny
  deriving DecidableEq

/-- What a prerequisite that is not satisfied does. -/
inductive UnresolvedMode where
  | warn
  | fail
  deriving DecidableEq

/-- The flags of a command. -/
structure PrerequisiteFlags where
  identity : Option IdentityFlag := none
  /-- The SSH key. -/
  ssh : Option SshFlag := none
  token : Option TokenFlag := none
  /-- What an unsatisfied prerequisite does. -/
  unresolved : Option UnresolvedMode := none
  checkOnly : Bool := false
  deriving DecidableEq

/-- No flag is given. -/
def PrerequisiteFlags.isEmpty (flags : PrerequisiteFlags) : Bool := flags = {}

/-- A control character. -/
def isControl (character : Char) : Bool :=
  character.toNat < 0x20 || (0x7F ≤ character.toNat && character.toNat ≤ 0x9F)

/-- The rules of a fixed identity. -/
def validateIdentity (name email : Text) : Except String Unit :=
  if (trim name).isEmpty then .error "the name is empty"
  else if (trim email).isEmpty then .error "the email is empty"
  else if (name ++ email).any isControl then
    .error "the name and email must not contain newlines or control characters"
  else if !email.contains '@' then .error "the email must contain '@'"
  else .ok ()

/-- The error of a text that is no identity. -/
def identityExpected : String := "expected host, deny or \"Name <email>\""

/-- Read `host`, `deny` or `Name <email>`. -/
def parseIdentity (raw : Text) : Except String IdentityFlag :=
  let raw := trim raw
  if raw = "host".toList then .ok .host
  else if raw = "deny".toList then .ok .deny
  else
    match splitOnce '<' raw with
    | none => .error identityExpected
    | some (name, rest) =>
      match stripSuffix ['>'] rest with
      | none => .error identityExpected
      | some email =>
        (validateIdentity (trim name) (trim email)).map fun _ => .fixed (trim name) (trim email)

/-- Read `deny`, `all` or the path of a key. -/
def parseSsh (raw : Text) : Except String SshFlag :=
  let raw := trim raw
  if raw = [] then .error "expected a key path, all or deny"
  else if raw = "deny".toList then .ok .deny
  else if raw = "all".toList then .ok .all
  else .ok (.key (textBytes raw))

/-- A name a variable with a token may have. -/
def validEnvName (name : Text) : Bool :=
  let upper (character : Char) := character == '_' || character.isUpper
  name.head?.any upper && name.tail.all fun character => upper character || character.isDigit

/-- Read `deny`, `acquire`, `env:NAME` or `secret:NAME`; `debug` quotes a text in a message. -/
def parseToken (debug : Text → String) (raw : Text) : Except String TokenFlag :=
  let raw := trim raw
  if raw = "deny".toList then .ok .deny
  else if raw = "acquire".toList then .ok .acquire
  else if "env:".toList.isPrefixOf raw then
    if validEnvName (raw.drop 4) then .ok (.env (raw.drop 4))
    else .error s!"{debug (raw.drop 4)} is not a valid environment variable name"
  else if "secret:".toList.isPrefixOf raw then
    if (raw.drop 7).isEmpty then .error "secret: needs a name" else .ok (.secret (raw.drop 7))
  else .error "expected env:NAME, acquire, secret:NAME or deny"

/-! ## Policies -/

/-- Whether a credential may be used. -/
inductive CredentialUse where
  | ask
  | allow
  | deny
  deriving DecidableEq

/-- Where a decision comes from. -/
inductive PolicySource where
  | default
  | global
  | squadGlobal
  | repo
  | task
  | remoteTask
  | flag
  deriving DecidableEq

/-- The decision about the git identity. -/
structure IdentityPolicy where
  /-- Whether it may be used. -/
  use : CredentialUse
  /-- A name and an email in its place. -/
  fixed : Option (Text × Text)
  /-- Where the decision comes from. -/
  source : PolicySource
  deriving DecidableEq

/-- The decision about SSH keys. -/
structure SshPolicy where
  /-- Whether one may be used. -/
  use : CredentialUse
  key : Option HostPath
  /-- The key is only suggested. -/
  keyIsSuggestion : Bool
  /-- All keys may be used. -/
  wholeDir : Bool
  /-- Where the decision comes from. -/
  source : PolicySource
  deriving DecidableEq

/-- Whether a command that acquires a token is the operator's own or the repository's. -/
inductive AcquireScope where
  | global
  | repo
  deriving DecidableEq

/-- When a token is acquired again. -/
inductive AcquireRefresh where
  | start
  | beforeTeardown
  deriving DecidableEq

/-- A command that acquires a token. -/
structure AcquirePolicy where
  argv : List Text
  /-- How long it may take. -/
  timeoutSecs : Nat
  /-- When it is run again. -/
  refresh : AcquireRefresh
  scope : AcquireScope
  /-- The hash of the command. -/
  sha256 : Text
  deriving DecidableEq

/-- The decision about tokens. -/
structure TokenPolicy where
  /-- Whether one may be used. -/
  use : CredentialUse
  /-- The variables it is read from. -/
  envVars : List Text
  acquire : Option AcquirePolicy
  verify : Bool
  /-- Where the decision comes from. -/
  source : PolicySource
  deriving DecidableEq

/-- Whether the checks before a run may stop it. -/
inductive PreflightMode where
  | warn
  | off
  deriving DecidableEq

/-- The decisions about all credentials. -/
structure PrerequisitePolicy where
  version : Nat
  /-- Whether the checks before a run are made. -/
  preflight : PreflightMode
  /-- What an unsatisfied prerequisite does. -/
  unresolved : Option UnresolvedMode
  gitIdentity : IdentityPolicy
  /-- SSH keys. -/
  ssh : SshPolicy
  githubToken : TokenPolicy
  /-- Whether clients may widen the policy. -/
  allowApiClientGrants : Bool
  /-- What was ignored on the way. -/
  warnings : List Text
  deriving DecidableEq

/-- The policy nobody decided anything about. -/
instance : Inhabited PrerequisitePolicy where
  default :=
    { version := 1
      preflight := .warn
      unresolved := none
      gitIdentity := ⟨.ask, none, .default⟩
      ssh := ⟨.ask, none, false, false, .default⟩
      githubToken := ⟨.ask, ["GH_TOKEN".toList, "GITHUB_TOKEN".toList], none, true, .default⟩
      allowApiClientGrants := false
      warnings := [] }

/-- The decision of an identity flag. -/
def IdentityPolicy.applyFlag : IdentityFlag → IdentityPolicy
  | .host => ⟨.allow, none, .flag⟩
  | .fixed name email => ⟨.allow, some (name, email), .flag⟩
  | .deny => ⟨.deny, none, .flag⟩

/-- The decision of an SSH flag. -/
def SshPolicy.applyFlag : SshFlag → SshPolicy
  | .key path => ⟨.allow, some path, false, false, .flag⟩
  | .all => ⟨.allow, none, false, true, .flag⟩
  | .deny => ⟨.deny, none, false, false, .flag⟩

/-- The decision of a token flag. -/
def TokenPolicy.applyFlag (policy : TokenPolicy) : TokenFlag → TokenPolicy
  | .env name => { policy with use := .allow, envVars := [name], acquire := none, source := .flag }
  | .acquire => { policy with use := .allow, envVars := [], source := .flag }
  | .secret _ => { policy with use := .allow, envVars := [], acquire := none, source := .flag }
  | .deny => { policy with use := .deny, source := .flag }

/-- Apply the flags to a policy. -/
def PrerequisitePolicy.applyFlags (policy : PrerequisitePolicy) (flags : PrerequisiteFlags) :
    PrerequisitePolicy :=
  { policy with
    gitIdentity := (flags.identity.map IdentityPolicy.applyFlag).getD policy.gitIdentity
    ssh := (flags.ssh.map SshPolicy.applyFlag).getD policy.ssh
    githubToken := (flags.token.map policy.githubToken.applyFlag).getD policy.githubToken
    unresolved := flags.unresolved.or policy.unresolved }

/-- The policy of the flags alone. -/
def PrerequisitePolicy.fromFlags (flags : PrerequisiteFlags) : PrerequisitePolicy :=
  (default : PrerequisitePolicy).applyFlags flags

/-! ## A policy as flags -/

/-- The `--prerequisite-*` flags. -/
def flagIdentity : Text := "--prerequisite-identity".toList

/-- The flag of the SSH key. -/
def flagSsh : Text := "--prerequisite-ssh".toList

/-- The flag of the token. -/
def flagToken : Text := "--prerequisite-token".toList

/-- The flag of unsatisfied prerequisites. -/
def flagUnresolved : Text := "--prerequisite-unresolved".toList

/-- The value the identity flag takes for a decision, if it has one. -/
def IdentityPolicy.flagValue (policy : IdentityPolicy) : Option Text :=
  match policy.use, policy.fixed with
  | .deny, _ => some "deny".toList
  | .allow, some (name, email) => some (name ++ " <".toList ++ email ++ ">".toList)
  | .allow, none => some "host".toList
  | .ask, _ => none

/-- The value the SSH flag takes for a decision, if it has one. -/
def SshPolicy.flagValue (policy : SshPolicy) : Option Text :=
  match policy.use with
  | .deny => some "deny".toList
  | .allow =>
    if policy.wholeDir then some "all".toList
    else if policy.keyIsSuggestion then none
    else policy.key.map fromUtf8Lossy
  | .ask => none

/-- The value the token flag takes for a decision, if it has one. -/
def TokenPolicy.flagValue (policy : TokenPolicy) : Option Text :=
  match policy.use with
  | .deny => some "deny".toList
  | .allow =>
    match policy.envVars with
    | var :: _ => some ("env:".toList ++ var)
    | [] => if policy.acquire.isSome then some "acquire".toList else none
  | .ask => none

/-- The text of a mode. -/
def UnresolvedMode.asStr : UnresolvedMode → Text
  | warn => "warn".toList
  | fail => "fail".toList

/-- A stored policy as the flags that reproduce it.  Nothing stands for a question. -/
def prerequisiteFlagArgs (policy : PrerequisitePolicy) : List Text :=
  let args (flag : Text) (value : Option Text) := (value.map fun value => [flag, value]).getD []
  args flagIdentity policy.gitIdentity.flagValue ++ args flagSsh policy.ssh.flagValue ++
    args flagToken policy.githubToken.flagValue ++
    args flagUnresolved (policy.unresolved.map UnresolvedMode.asStr)

/-! ## Flags a client may use -/

/-- Refuse a flag of a remote client that grants beyond the policy of the server. -/
def checkFlagWidening (kind : FrontendKind) (flags : PrerequisiteFlags)
    (globalPolicy : PrerequisitePolicy) : Except CommandError Unit :=
  let refuse (flag : Text) (value : String) : Except CommandError Unit :=
    .error (.prerequisiteWideningRefused (shown flag ++ " " ++ value))
  let identity := match flags.identity with
    | none | some .deny => .ok ()
    | some (.fixed _ _) =>
      if globalPolicy.gitIdentity.use = .deny then refuse flagIdentity "<fixed identity>" else .ok ()
    | some .host =>
      if globalPolicy.gitIdentity.use ≠ .allow then refuse flagIdentity "host" else .ok ()
  let ssh := match flags.ssh with
    | none | some .deny => .ok ()
    | some .all =>
      if globalPolicy.ssh.use = .allow ∧ globalPolicy.ssh.wholeDir then .ok ()
      else refuse flagSsh "all"
    | some (.key path) =>
      let sameKey := globalPolicy.ssh.key = some path ∧ globalPolicy.ssh.keyIsSuggestion = false
      if globalPolicy.ssh.use = .allow ∧ sameKey then .ok ()
      else refuse flagSsh (shown (fromUtf8Lossy path))
  let token := match flags.token with
    | none | some .deny => .ok ()
    | some (.env name) =>
      if globalPolicy.githubToken.use = .allow ∧ name ∈ globalPolicy.githubToken.envVars then .ok ()
      else refuse flagToken s!"env:{shown name}"
    | some .acquire =>
      let globalAcquire := globalPolicy.githubToken.acquire.any (·.scope = .global)
      if globalPolicy.githubToken.use = .allow ∧ globalAcquire then .ok ()
      else refuse flagToken "acquire"
    | some (.secret name) =>
      .error (.prerequisiteFlagUnsupported s!"{shown flagToken} secret:{shown name}")
  let unresolved :=
    if flags.unresolved = some .warn ∧ globalPolicy.unresolved = some .fail then
      refuse flagUnresolved "warn"
    else .ok ()
  if kind.isLocalUser ∨ globalPolicy.allowApiClientGrants then .ok ()
  else do
    identity
    ssh
    token
    unresolved

/-- A decision of a remote client. -/
def PolicySource.remote : PolicySource → PolicySource
  | .default => .default
  | _ => .remoteTask

/-- The policy as decisions of a remote client. -/
def PrerequisitePolicy.remote (policy : PrerequisitePolicy) : PrerequisitePolicy :=
  { policy with
    gitIdentity := { policy.gitIdentity with source := policy.gitIdentity.source.remote }
    ssh := { policy.ssh with source := policy.ssh.source.remote }
    githubToken := { policy.githubToken with source := policy.githubToken.source.remote } }

end Awman.Squad
