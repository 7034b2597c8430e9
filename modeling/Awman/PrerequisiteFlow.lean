import Awman.Library.Interaction
import Awman.PrerequisiteGrants
import Awman.PrerequisiteLayers
import Awman.WorkflowGrants

/-!
# Deciding the checks of a run

A report says what the steps of a workflow need; here every check of it is decided, and what was
granted goes to the steps.  The answers are those of the person at the front end and of the commands
and files of the host, in the order in which they are needed.
-/

namespace Awman.Consent

open Awman.Grants (GrantKey GrantRecord RememberedGrant RememberedKind findRecord withRecord)
open Awman.Network (trim isWhiteSpace)
open Awman.Overlay (HostPath)
open Awman.Utf8Text (fromUtf8Lossy)
open Awman.Interaction
open Awman.Squad Awman.RawArgs

/-! ## Reports -/

/-- What a step needs. -/
inductive WorkflowPrerequisite where
  | gitIdentity
  | gitRemote (remote : Text)
  | pushAuth (remote : Text)
  | pushAuthSsh (remote host : Text)
  | pushAuthHttps (remote host : Text)
  | gitHubToken (host : Text)
  | containerTool (name : Text)
  | pushedBranch
  | notDetachedHead
deriving DecidableEq

/-- What a probe says of it. -/
inductive PrerequisiteStatus where
  | satisfied
  | needsConsent
  | missing
  | unknown
deriving DecidableEq

/-- What can be done about it; what is shown of each way is left out. -/
inductive Remediation where
  | replaceRejectedToken
  | useHostIdentity
  | useRepoConfigIdentity
  | enterIdentity
  | setLocalIdentity
  | mountSshKey
  | mountSshDir
  | useEnvToken
  | pasteToken
  | runGhAuthToken
  | runGhAuthLogin
  | runAcquireCommand
  | addDockerfileLine
  | addOverlayHint
  | continue
  | abort
deriving DecidableEq

/-- One line of a report. -/
structure PrerequisiteCheck where
  prerequisite : WorkflowPrerequisite
  status : PrerequisiteStatus
  explanation : String
  /-- What can be done about it. -/
  remediations : List Remediation
deriving DecidableEq

/-! ## What the answers are -/

/-- An answer about the identity. -/
inductive IdentityChoice where
  | useHost (name email : Text)
  | enter
  | setLocalFromHost (name email : Text)
  | continue
deriving DecidableEq

/-- Whether an identity is written to the configuration of the repository. -/
inductive IdentityPersist where
  | runOnly
  | writeLocal
deriving DecidableEq

/-- An answer about SSH keys. -/
inductive SshChoice where
  | key (path : HostPath) (remember : Bool)
  | wholeDir
  | decline
deriving DecidableEq

/-- An answer about the token in a variable. -/
inductive TokenConsent where
  | thisRun
  | remember
  | decline
deriving DecidableEq

/-- Where a token is to come from. -/
inductive TokenSourceChoice where
  | paste
  | ghAuthToken
  | ghAuthLogin
  | acquire
  | decline
deriving DecidableEq

/-- An answer about what no grant can mend. -/
inductive GapChoice where
  | continue
  | abort
deriving DecidableEq

/-- An answer about a command. -/
inductive TrustDecision where
  | approve
  | decline
deriving DecidableEq

/-- Why the checks are not decided to the end. -/
inductive FlowError where
  | aborted
  | prerequisiteFlagUnsupported (flag : String)
  /-- An error of the front end. -/
  | frontend (reason : String)
deriving DecidableEq

/-- One answer of the person at the front end or of the host. -/
inductive Answer where
  | shown
  | identity (choice : IdentityChoice)
  | identityText (text : Option Text)
  | identityPersist (choice : IdentityPersist)
  | ssh (choice : SshChoice)
  | tokenConsent (choice : TokenConsent)
  | tokenSource (choice : TokenSourceChoice)
  | secret (text : Option Text)
  | tool (choice : GapChoice)
  | gap (choice : GapChoice)
  | hostCommand (decision : TrustDecision)
  | refused (error : FlowError)
  /-- The identity was written to the configuration of the repository. -/
  | written (ok : Bool)
  /-- A decision was stored, and when. -/
  | stored (now : Option Text)
  /-- An approval was stored. -/
  | recorded (ok : Bool)
  /-- A command ended, and what it printed. -/
  | ran (secret : Option Text)
deriving DecidableEq

/-! ## What deciding keeps -/

/-- What is remembered about one remote. -/
structure RememberedGrants where
  sshKey : Option HostPath
  sshDir : Bool
  tokenEnv : Option Text
  identity : Option (Text × Text)

/-- What was answered, and which commands ran. -/
inductive Entry where
  | ssh (choice : SshChoice)
  | consented (var : Text) (choice : TokenConsent)
  | source (choice : TokenSourceChoice)
  | pasted (secret : Text)
  | reviewed (sha256 : Text) (decision : TrustDecision)
  | ran (sha256 : Text) (scope : AcquireScope)
deriving DecidableEq

/-- What is kept while the checks of a run are decided. -/
structure Deciding where
  grants : PrerequisiteGrants
  store : List GrantRecord
  /-- The hashes under which the repository's command is approved. -/
  trusted : List Text
  /-- What was answered and which commands ran, the latest first. -/
  log : List Entry := []

/-- What deciding a check does. -/
abbrev Flow (α : Type) : Type := Program Answer Deciding FlowError α

/-- Ask a question the front end may refuse. -/
def ask {α : Type} (accept : Answer → Option α) : Flow α := do
  let answer ← receive fun answer =>
    match answer with
    | .refused error => some (Except.error error)
    | answer => (accept answer).map Except.ok
  ofExcept answer

/-- Note an answer, or a command that runs. -/
def note (entry : Entry) : Flow Unit :=
  modifyState fun state => { state with log := entry :: state.log }

/-- Change what was granted. -/
def modifyGrants (change : PrerequisiteGrants → PrerequisiteGrants) : Flow Unit :=
  modifyState fun state => { state with grants := change state.grants }

/-! ## The host -/

/-- A command that prints a token. -/
structure HostSecretCommand where
  label : Text
  /-- The hash of its words, its program and the program's contents. -/
  sha256 : Text
  /-- Its program lies in the repository. -/
  insideRepository : Bool
deriving DecidableEq

/-- What the host has while the checks are decided. -/
structure Host where
  /-- The root of the repository. -/
  gitRoot : HostPath
  /-- The value of an environment variable. -/
  envVar : Text → Option Text
  /-- The name and the email of the global git configuration. -/
  identity : Option Text × Option Text
  /-- A key that may be used: its path, the known hosts and whether it has a passphrase. -/
  sshKey : HostPath → Except String (HostPath × Option HostPath × Option Bool)
  /-- The directory of the keys. -/
  sshDir : HostPath
  acquireCommand : AcquirePolicy → Option HostSecretCommand
  /-- `gh auth token` and `gh auth login` may be run for a host. -/
  gh : Text → Bool
  /-- The address of a remote without credentials. -/
  remoteUrl : Text → Option Text
  /-- How a key reaches a remote. -/
  sshDestination : Text → Option Text

namespace Host

variable (host : Host)

/-- The value of a variable, unless it is blank. -/
def envToken (var : Text) : Option Text := (host.envVar var).filter fun value => trim value ≠ []

/-- The first of the variables that has a value. -/
def envTokenName (vars : List Text) : Option Text := vars.find? fun var => (host.envToken var).isSome

/-- The identity of the host, if both parts are there. -/
def hostIdentity : Option (Text × Text) :=
  match host.identity with
  | (some name, some email) => if trim name ≠ [] ∧ trim email ≠ [] then some (name, email) else none
  | _ => none

/-- Mount one key. -/
def sshKeyGrant (requested : HostPath) : Except String SshGrant :=
  match host.sshKey requested with
  | .ok (path, knownHosts, passphraseProtected) => .ok (.key path knownHosts passphraseProtected)
  | .error reason => .error s!"SSH key {shown (fromUtf8Lossy requested)} cannot be used: {reason}"

/-- Mount all keys. -/
def wholeSshDir : SshGrant := .wholeDir host.sshDir

/-- Pass the token of a variable. -/
def envGrant (tokenHost var : Text) : Option TokenGrant :=
  (host.envToken var).map fun secret => ⟨secret, .env var, tokenHost, none⟩

end Host

/-- What is fixed while the checks are decided. -/
structure WorkflowPrerequisiteFlow where
  host : Host
  policy : PrerequisitePolicy
  flags : PrerequisiteFlags
  /-- A person is at the front end. -/
  canAsk : Bool

/-- What deciding a check comes to. -/
inductive Resolution where
  | satisfied (explanation : Option String)
  | declined (explanation : String)
  | unchanged
deriving DecidableEq

/-- Nobody is there to ask. -/
def headlessDeclined (check : PrerequisiteCheck) (what : String) : Resolution :=
  if check.status = .needsConsent then
    .declined (s!"{check.explanation}; nobody to ask, so the {what} was not used (pass a " ++
      "--prerequisite-* flag or set workflows.prerequisites in ~/.awman/config.json)")
  else .unchanged

namespace WorkflowPrerequisiteFlow

variable (flow : WorkflowPrerequisiteFlow)

/-- The key of a decision about a remote. -/
def grantKey (remote : Text) (kind : RememberedKind) : GrantKey :=
  ⟨flow.host.gitRoot, (flow.host.remoteUrl remote).getD [], kind⟩

/-- The decision that is remembered about a remote. -/
def lookup (state : Deciding) (remote : Text) (kind : RememberedKind) : Option RememberedGrant :=
  findRecord state.store (flow.grantKey remote kind)

/-- What is remembered about a remote. -/
def remembered (state : Deciding) (remote : Text) : RememberedGrants where
  sshKey :=
    match flow.lookup state remote .ssh with
    | some (.sshKey key) => some key
    | _ => none
  sshDir := flow.lookup state remote .ssh = some .sshDir
  tokenEnv :=
    match flow.lookup state remote .githubToken with
    | some (.tokenEnv var) => some var
    | _ => none
  identity :=
    match flow.lookup state remote .gitIdentity with
    | some (.identity name email) => some (name, email)
    | _ => none

/-- Remember a decision; when it cannot be stored, it is for this run only. -/
def remember (remote : Text) (kind : RememberedKind) (grant : RememberedGrant) : Flow Unit := do
  let stored ← receive fun answer =>
    match answer with
    | .stored now => some now
    | _ => none
  match stored with
  | some now =>
    modifyState fun state => { state with
      store := withRecord state.store ⟨flow.grantKey remote kind, grant, now⟩ }
  | none => pure ()

/-! ## Identity -/

/-- The remote of decisions that are about no remote. -/
def origin : Text := "origin".toList

/-- Inject an identity into the steps that commit. -/
def grantIdentity (name email : Text) (source : IdentitySource) : Flow Resolution := do
  modifyGrants fun grants => { grants with identity := some ⟨name, email, source⟩ }
  pure (.satisfied (some
    s!"identity \"{shown name} <{shown email}>\" injected into commit_changes containers"))

/-- No identity is granted. -/
def declinedIdentity : Resolution :=
  .declined "no git identity granted; commit_changes will fail"

/-- What an identity flag decides. -/
def resolveIdentityFlag (check : PrerequisiteCheck) : IdentityFlag → Flow Resolution
  | .deny =>
    pure (if check.status = .satisfied then .unchanged
      else .declined
        "identity injection denied by --prerequisite-identity deny; commit_changes will fail")
  | .fixed name email => grantIdentity name email .flag
  | .host =>
    match flow.host.hostIdentity with
    | some (name, email) => grantIdentity name email .flag
    | none =>
      pure (.declined
        "--prerequisite-identity host: the host has no global user.name/user.email")

/-- Ask for a name and an email. -/
def enterIdentity : Flow Resolution := do
  let text := fun answer =>
    match answer with
    | Answer.identityText text => some text
    | _ => none
  match ← ask text with
  | none => pure declinedIdentity
  | some name =>
    match ← ask text with
    | none => pure declinedIdentity
    | some email =>
      match validateIdentity (trim name) (trim email) with
      | .error _ => pure declinedIdentity
      | .ok () => grantIdentity (trim name) (trim email) .entered

/-- Write an identity to the configuration of the repository, or inject it. -/
def setLocalIdentity (name email : Text) : Flow Resolution := do
  let persist ← ask fun answer =>
    match answer with
    | .identityPersist choice => some choice
    | _ => none
  match persist with
  | .runOnly => grantIdentity name email .host
  | .writeLocal =>
    let ok ← receive fun answer =>
      match answer with
      | .written ok => some ok
      | _ => none
    if ok then
      pure (.satisfied (some
        s!"identity \"{shown name} <{shown email}>\" written to the repository's .git/config"))
    else grantIdentity name email .host

/-- Ask about the identity. -/
def askIdentity : Flow Resolution := do
  let choice ← ask fun answer =>
    match answer with
    | .identity choice => some choice
    | _ => none
  match choice with
  | .useHost name email => grantIdentity name email .host
  | .enter => enterIdentity
  | .setLocalFromHost name email => setLocalIdentity name email
  | .continue => pure declinedIdentity

/-- The source of a fixed identity. -/
def fixedSource : IdentitySource :=
  if flow.policy.gitIdentity.source = .repo then .repoConfig else .globalConfig

/-- Decide about an identity that is not granted yet. -/
def resolveNewIdentity (check : PrerequisiteCheck) (state : Deciding) : Flow Resolution :=
  match flow.flags.identity with
  | some flag => flow.resolveIdentityFlag check flag
  | none =>
    let policy := flow.policy.gitIdentity
    if policy.use = .deny then pure .unchanged
    else
      match if policy.use = .allow then policy.fixed else none with
      | some (name, email) => grantIdentity name email flow.fixedSource
      | none =>
        match (flow.remembered state origin).identity with
        | some (name, email) => grantIdentity name email .remembered
        | none =>
          -- The container sees an identity of the repository already.
          if check.status = .satisfied then pure .unchanged
          else
            match if policy.use = .allow then flow.host.hostIdentity else none with
            | some (name, email) => grantIdentity name email .host
            | none =>
              if !flow.canAsk then pure (headlessDeclined check "git identity")
              else if check.status = .unknown then pure .unchanged
              else askIdentity

/-- Decide about the identity. -/
def resolveIdentity (check : PrerequisiteCheck) : Flow Resolution := do
  let state ← getState
  if state.grants.identity.isSome then pure (.satisfied none)
  else flow.resolveNewIdentity check state

/-! ## SSH keys -/

/-- Mount keys into the steps that push. -/
def grantSsh (grant : SshGrant) : Flow Resolution := do
  modifyGrants fun grants => { grants with
    sshDestinations := if grants.ssh = some grant then grants.sshDestinations else []
    ssh := some grant }
  pure (.satisfied (some (match grant with
    | .key path _ _ =>
      s!"SSH key {shown (fromUtf8Lossy path)} mounted read-only into push containers"
    | .wholeDir _ => "~/.ssh mounted read-only into push containers")))

/-- What an SSH flag decides. -/
def resolveSshFlag : SshFlag → Flow Resolution
  | .deny => pure (.declined "SSH keys denied by --prerequisite-ssh deny; push_branch will fail")
  | .all => grantSsh flow.host.wholeSshDir
  | .key path =>
    match flow.host.sshKeyGrant path with
    | .ok grant => grantSsh grant
    | .error reason => pure (.declined reason)

/-- The keys that are remembered for a remote and may still be used. -/
def rememberedSsh (state : Deciding) (remote : Text) : Option SshGrant :=
  if (flow.remembered state remote).sshDir then some flow.host.wholeSshDir
  else (flow.remembered state remote).sshKey.bind fun key => (flow.host.sshKeyGrant key).toOption

/-- The keys the policy allows. -/
def allowedSsh : Option SshGrant :=
  let policy := flow.policy.ssh
  if policy.use ≠ .allow then none
  else if policy.wholeDir then some flow.host.wholeSshDir
  else if policy.keyIsSuggestion then none
  else policy.key.bind fun key => (flow.host.sshKeyGrant key).toOption

/-- Ask about SSH keys. -/
def askSsh (remote : Text) : Flow Resolution := do
  let choice ← ask fun answer =>
    match answer with
    | .ssh choice => some choice
    | _ => none
  note (.ssh choice)
  match choice with
  | .key path keep =>
    match flow.host.sshKeyGrant path with
    | .error reason => pure (.declined reason)
    | .ok grant =>
      match keep, grant with
      | true, .key keyPath _ _ =>
        flow.remember remote .ssh (.sshKey keyPath)
        grantSsh grant
      | _, _ => grantSsh grant
  | .wholeDir => grantSsh flow.host.wholeSshDir
  | .decline => pure (.declined "SSH keys declined; push_branch will fail")

/-- Decide about SSH keys for a remote. -/
def resolveSsh (check : PrerequisiteCheck) (remote : Text) : Flow Resolution := do
  let state ← getState
  if state.grants.ssh.isSome ∧
      (flow.host.remoteUrl remote).any (· ∈ state.grants.sshDestinations) then
    pure (.satisfied none)
  else
    match flow.flags.ssh with
    | some flag => flow.resolveSshFlag flag
    | none =>
      if flow.policy.ssh.use = .deny then pure .unchanged
      else
        match flow.rememberedSsh state remote with
        | some grant => grantSsh grant
        | none =>
          match flow.allowedSsh with
          | some grant => grantSsh grant
          | none =>
            if !flow.canAsk then pure (headlessDeclined check "SSH key")
            else if ¬(check.remediations.contains .mountSshKey ∨
                check.remediations.contains .mountSshDir) then pure .unchanged
            else flow.askSsh remote

/-! ## Tokens -/

/-- Pass a token to the steps. -/
def grantToken (grant : TokenGrant) : Flow Resolution := do
  modifyGrants fun grants => { grants with
    tokenDestinations :=
      if grants.token.any fun old => old.host ≠ grant.host ∨ old.secret ≠ grant.secret then []
      else grants.tokenDestinations
    token := some grant }
  pure (.satisfied (some (match grant.source with
    | .env var => s!"token from {shown var} granted to teardown steps"
    | .pasted => "pasted token granted to teardown steps"
    | .hostCommand label => s!"token from {shown label} granted to teardown steps"
    | .apiSecret name => s!"token from secret {shown name} granted to teardown steps"
    | .ghAuthToken => "token from gh auth token granted to teardown steps")))

/-- The repository's command is approved as it is now. -/
def repoAcquireApproved (state : Deciding) : Bool :=
  match flow.policy.githubToken.acquire with
  | none => false
  | some acquire =>
    acquire.scope = .repo ∧
      (flow.host.acquireCommand acquire).any fun command => command.sha256 ∈ state.trusted

/-- Run a command of the host. -/
def runHostCommand : Flow (Option Text) :=
  receive fun answer =>
    match answer with
    | .ran secret => some secret
    | _ => none

/-- Run the command of the policy. -/
def runAcquire (acquire : AcquirePolicy) (tokenHost : Text) (command : HostSecretCommand) :
    Flow (Option TokenGrant) := do
  note (.ran command.sha256 acquire.scope)
  let secret ← runHostCommand
  pure (secret.map fun secret => ⟨secret, .hostCommand command.label, tokenHost, some acquire⟩)

/-- Run the command of the policy; the repository's own only when it is approved. -/
def acquireToken (acquire : AcquirePolicy) (tokenHost : Text) : Flow (Option TokenGrant) :=
  match flow.host.acquireCommand acquire with
  | none => pure none
  | some command => do
    if command.insideRepository then pure none
    else
      let state ← getState
      if acquire.scope = .repo ∧ !flow.repoAcquireApproved state then
        if !flow.canAsk then pure none
        else
          let decision ← ask fun answer =>
            match answer with
            | .hostCommand decision => some decision
            | _ => none
          note (.reviewed command.sha256 decision)
          match decision with
          | .decline => pure none
          | .approve =>
            let recorded ← receive fun answer =>
              match answer with
              | .recorded ok => some ok
              | _ => none
            if recorded then
              modifyState fun state => { state with trusted := [command.sha256] }
              runAcquire acquire tokenHost command
            else runAcquire acquire tokenHost command
      else runAcquire acquire tokenHost command

/-- Ask for a token. -/
def pastedToken (tokenHost : Text) : Flow (Option TokenGrant) := do
  let secret ← ask fun answer =>
    match answer with
    | .secret text => some text
    | _ => none
  match secret with
  | none => pure none
  | some secret =>
    let value := trim secret
    if value = [] ∨ value.any fun character => isWhiteSpace character || isControl character then
      pure none
    else
      note (.pasted value)
      pure (some ⟨value, .pasted, tokenHost, none⟩)

/-- Run `gh auth token`. -/
def ghAuthToken (tokenHost : Text) : Flow (Option TokenGrant) := do
  if flow.host.gh tokenHost then
    let secret ← runHostCommand
    pure (secret.map fun secret => ⟨secret, .ghAuthToken, tokenHost, none⟩)
  else pure none

/-- Run `gh auth login` first. -/
def ghAuthLogin (tokenHost : Text) : Flow (Option TokenGrant) := do
  if flow.host.gh tokenHost then
    let _ ← runHostCommand
    flow.ghAuthToken tokenHost
  else pure none

/-- What a token flag decides. -/
def resolveTokenFlag (tokenHost : Text) : TokenFlag → Flow Resolution
  | .deny => pure (.declined "GitHub token denied by --prerequisite-token deny")
  | .env var =>
    match flow.host.envGrant tokenHost var with
    | some grant => grantToken grant
    | none =>
      pure (.declined s!"--prerequisite-token env:{shown var}: {shown var} is not set")
  | .acquire =>
    match flow.policy.githubToken.acquire with
    | none =>
      pure (.declined ("--prerequisite-token acquire: no " ++
        "workflows.prerequisites.githubToken.acquire command is configured"))
    | some acquire => do
      match ← flow.acquireToken acquire tokenHost with
      | some grant => grantToken grant
      | none => pure (.declined "the configured token command did not produce a token")
  | .secret name =>
    fail (.prerequisiteFlagUnsupported s!"--prerequisite-token secret:{shown name}")

/-- The token of the variable that is remembered for a remote. -/
def rememberedToken (state : Deciding) (tokenHost remote : Text) : Option TokenGrant :=
  ((flow.remembered state remote).tokenEnv.filter
    (· ∈ flow.policy.githubToken.envVars)).bind (flow.host.envGrant tokenHost)

/-- The variable a token is in. -/
def envVar : Option Text := flow.host.envTokenName flow.policy.githubToken.envVars

/-- The token the policy allows; none is allowed for other hosts. -/
def allowedToken (rejected : Bool) (tokenHost : Text) : Flow (Option TokenGrant) :=
  let policy := flow.policy.githubToken
  if !rejected ∧ policy.use = .allow ∧ tokenHost = "github.com".toList then
    match flow.envVar.bind (flow.host.envGrant tokenHost) with
    | some grant => pure (some grant)
    | none =>
      match policy.acquire with
      | some acquire => flow.acquireToken acquire tokenHost
      | none => pure none
  else pure none

/-- One attempt to get a token; none of it is for good. -/
def tokenFromSource (tokenHost : Text) : TokenSourceChoice → Flow (Option TokenGrant)
  | .paste => pastedToken tokenHost
  | .ghAuthToken => flow.ghAuthToken tokenHost
  | .ghAuthLogin => flow.ghAuthLogin tokenHost
  | .acquire =>
    match flow.policy.githubToken.acquire with
    | some acquire => flow.acquireToken acquire tokenHost
    | none => pure none
  | .decline => pure none

/-- How many times the source of a token is asked for. -/
def tokenSourceAttempts : Nat := 3

/-- Ask where a token is to come from. -/
def askTokenSource (tokenHost : Text) : Nat → Flow Resolution
  | 0 => pure (.declined "no GitHub token was obtained; create_pull_request will fail")
  | attempts + 1 => do
    let choice ← ask fun answer =>
      match answer with
      | .tokenSource choice => some choice
      | _ => none
    note (.source choice)
    if choice = .decline then
      pure (.declined "GitHub token declined; create_pull_request will fail")
    else
      match ← flow.tokenFromSource tokenHost choice with
      | some grant => grantToken grant
      | none => askTokenSource tokenHost attempts

/-- Ask about the token in a variable, then where another one is to come from. -/
def askToken (tokenHost remote : Text) (envVar : Option Text) : Flow Resolution :=
  match envVar with
  | none => flow.askTokenSource tokenHost tokenSourceAttempts
  | some var => do
    let choice ← ask fun answer =>
      match answer with
      | .tokenConsent choice => some choice
      | _ => none
    note (.consented var choice)
    match choice, flow.host.envGrant tokenHost var with
    | .thisRun, some grant => grantToken grant
    | .remember, some grant =>
      flow.remember remote .githubToken (.tokenEnv var)
      grantToken grant
    | _, _ => flow.askTokenSource tokenHost tokenSourceAttempts

/-- A token that is used already is no longer accepted. -/
def rejects (check : PrerequisiteCheck) : Bool := check.remediations.contains .replaceRejectedToken

/-- Give up a token that is no longer accepted. -/
def withdrawRejected (check : PrerequisiteCheck) : Flow Unit :=
  if rejects check then
    modifyGrants fun grants => { grants with token := none, tokenDestinations := [] }
  else pure ()

/-- Decide about a token for a host and a remote. -/
def resolveToken (check : PrerequisiteCheck) (tokenHost remote : Text) : Flow Resolution := do
  let rejected := rejects check
  withdrawRejected check
  let state ← getState
  if (state.grants.token.any fun token => token.host = tokenHost) ∧
      (flow.host.remoteUrl remote).any (· ∈ state.grants.tokenDestinations) then
    pure (.satisfied none)
  -- No token can help with this host.
  else if check.remediations.contains .addOverlayHint then pure .unchanged
  else
    match if rejected then none else flow.flags.token with
    | some flag => flow.resolveTokenFlag tokenHost flag
    | none =>
      if flow.policy.githubToken.use = .deny then pure .unchanged
      else
        match if rejected then none else flow.rememberedToken state tokenHost remote with
        | some grant => grantToken grant
        | none =>
          match ← flow.allowedToken rejected tokenHost with
          | some grant => grantToken grant
          | none =>
            if check.status = .satisfied then pure .unchanged
            else if !flow.canAsk then pure (headlessDeclined check "GitHub token")
            else flow.askToken tokenHost remote (if rejected then none else flow.envVar)

/-! ## All checks -/

/-- Ask about what no grant can mend. -/
def askGap (check : PrerequisiteCheck) (accept : Answer → Option GapChoice) : Flow Resolution :=
  if check.status = .missing ∧ flow.canAsk then do
    match ← ask accept with
    | .abort => fail .aborted
    | .continue => pure .unchanged
  else pure .unchanged

/-- The remote the decisions about a check are about. -/
def decisionRemote : WorkflowPrerequisite → Text
  | .pushAuthSsh remote _ | .pushAuthHttps remote _ => remote
  | _ => origin

/-- What a satisfied check lets the credentials be used for. -/
def noteDestination (prerequisite : WorkflowPrerequisite) (grants : PrerequisiteGrants) :
    PrerequisiteGrants :=
  match flow.host.remoteUrl (decisionRemote prerequisite) with
  | none => grants
  | some url =>
    match prerequisite with
    | .pushAuthSsh remote _ =>
      if grants.ssh.isSome then { grants with
        sshTransports :=
          match flow.host.sshDestination remote with
          | some transport => (url, transport) :: grants.sshTransports.filter (·.1 ≠ url)
          | none => grants.sshTransports
        sshDestinations := grants.sshDestinations.insert url }
      else grants
    | .pushAuthHttps _ _ | .gitHubToken _ =>
      if grants.token.isSome then
        { grants with tokenDestinations := grants.tokenDestinations.insert url }
      else grants
    | _ => grants

/-- The check after its decision. -/
def settle (check : PrerequisiteCheck) : Resolution → Flow PrerequisiteCheck
  | .satisfied explanation => do
    modifyGrants (flow.noteDestination check.prerequisite)
    pure { check with
      status := .satisfied
      explanation := explanation.getD check.explanation
      remediations := [] }
  | .declined explanation => pure { check with status := .missing, explanation }
  | .unchanged => pure check

/-- How each credential is decided. -/
structure Resolvers where
  identity : PrerequisiteCheck → Flow Resolution
  ssh : PrerequisiteCheck → Text → Flow Resolution
  token : PrerequisiteCheck → Text → Text → Flow Resolution

/-- How the program decides each credential. -/
def resolvers : Resolvers where
  identity := flow.resolveIdentity
  ssh := flow.resolveSsh
  token := flow.resolveToken

/-- Decide one check, and say whether a token was declined; a declined one is not asked for again. -/
def resolveCheck (resolvers : Resolvers) (check : PrerequisiteCheck) (tokenDeclined : Bool) :
    Flow (Resolution × Bool) :=
  match check.prerequisite with
  | .gitIdentity => do
    let resolution ← resolvers.identity check
    pure (resolution, tokenDeclined)
  | .pushAuthSsh remote _ => do
    let resolution ← resolvers.ssh check remote
    pure (resolution, tokenDeclined)
  | .gitHubToken tokenHost | .pushAuthHttps _ tokenHost => do
    let state ← getState
    if tokenDeclined ∧ state.grants.token = none then
      pure (.declined "no GitHub token was granted (declined above)", tokenDeclined)
    else
      let resolution ← resolvers.token check tokenHost (decisionRemote check.prerequisite)
      let declined := match resolution with
        | .declined _ => true
        | _ => false
      pure (resolution, tokenDeclined || declined)
  | .containerTool _ => do
    let resolution ← flow.askGap check fun answer =>
      match answer with
      | .tool choice => some choice
      | _ => none
    pure (resolution, tokenDeclined)
  | .gitRemote _ | .pushAuth _ | .pushedBranch | .notDetachedHead => do
    let resolution ← flow.askGap check fun answer =>
      match answer with
      | .gap choice => some choice
      | _ => none
    pure (resolution, tokenDeclined)

/-- Decide the checks in turn. -/
def decideChecks (resolvers : Resolvers) :
    List PrerequisiteCheck → Bool → Flow (List PrerequisiteCheck)
  | [], _ => pure []
  | check :: rest, tokenDeclined => do
    let (resolution, tokenDeclined) ← flow.resolveCheck resolvers check tokenDeclined
    let check ← flow.settle check resolution
    let rest ← decideChecks resolvers rest tokenDeclined
    pure (check :: rest)

/-- Show a report. -/
def showReport (shows : Bool) : Flow Unit :=
  if shows then ask fun answer => if answer = .shown then some () else none
  else pure ()

/-- What the checks of a run came to. -/
structure PrerequisiteOutcome where
  /-- The checks after their decisions. -/
  checks : List PrerequisiteCheck
  grants : PrerequisiteGrants
  /-- What still needs attention. -/
  unresolved : List WorkflowPrerequisite
deriving DecidableEq

/-- Decide every check of a report; it is shown before the questions, or after the headless answers. -/
def decideWith (resolvers : Resolvers) (checks : List PrerequisiteCheck) (shows : Bool) :
    Flow PrerequisiteOutcome := do
  showReport (shows && flow.canAsk)
  let checks ← flow.decideChecks resolvers checks false
  let state ← getState
  showReport (shows && !flow.canAsk)
  pure ⟨checks, state.grants, (checks.filter fun check =>
    check.status = .missing ∨ check.status = .needsConsent).map (·.prerequisite)⟩

/-- Decide every check of a report as the program does. -/
def decide (checks : List PrerequisiteCheck) (shows : Bool) : Flow PrerequisiteOutcome :=
  flow.decideWith flow.resolvers checks shows

end WorkflowPrerequisiteFlow

end Awman.Consent
