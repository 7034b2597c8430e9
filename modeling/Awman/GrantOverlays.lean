import Awman.PrerequisiteFlow
import Awman.RemoteApproval

/-!
# What a step is given of the grants

The grants of a run become mounts and variables of the containers of its steps: each step is given what
its kind needs, for the remote it works with and only if that remote was approved.
-/

namespace Awman.Consent

open Awman.Overlay (HostPath joinPath textBytes)
open Awman.Utf8Text (fromUtf8Lossy)
open Awman.Remotes
open Awman.TextCuts (splitOnce)

/-! ## Steps and what they are given -/

/-- What a step does. -/
inductive PrerequisiteStepKind where
  | commitChanges
  | pushBranch
  | createPullRequest
  | pollCi
  | pullBranch
  | cloneRepo
  | checkoutCreateBranch
  | runShell
  | runScript
  deriving DecidableEq

/-- A step that may be given something; `γ` is the trusted metadata of a repository. -/
structure GrantTarget (γ : Type) where
  /-- The checkout it works in. -/
  repo : Option HostPath
  /-- The metadata from before the agent. -/
  gitSource : Option γ
  stepKind : PrerequisiteStepKind
  containerHome : Option Text
  remote : Option GitRemoteUrl

/-- A mount. -/
structure GrantMount where
  hostPath : HostPath
  containerPath : HostPath
  /-- Whether the container may not write to it. -/
  readOnly : Bool
  deriving DecidableEq

/-- How a step authenticates to its remote. -/
inductive PushAuth where
  | none
  | ssh (keyPath : Text) (knownHosts : Option Text)
  | httpsToken (envVar : Text)
  deriving DecidableEq

/-- What a step is given. -/
structure GrantOverlays where
  /-- The metadata its transport uses. -/
  transport : Option HostPath
  overlays : List GrantMount
  envLiterals : List (Text × Text)
  secretEnv : List (Text × Text)
  pushAuth : PushAuth
  display : List Text
  /-- The directory of copies. -/
  scratch : Option HostPath
  deriving DecidableEq

/-- Nothing. -/
def GrantOverlays.nothing : GrantOverlays := ⟨none, [], [], [], .none, [], none⟩

/-- Why nothing can be given. -/
inductive GrantError where
  | other (message : String)
  | data (message : String)
  | git (message : String)

/-- The host, as far as giving needs it. -/
structure GrantHost (γ : Type) where
  homeDir : Option HostPath
  /-- The path without symbolic links of a file in the directory of keys. -/
  validateKeyPath : HostPath → HostPath → Except String HostPath
  makeScratch : Except String HostPath
  copyFile : HostPath → HostPath → Except String Unit
  /-- Let only the owner use a file. -/
  secureFile : HostPath → Except String Unit
  /-- Make metadata with one remote. -/
  isolateWorkflowTransport : γ → Text → Except GrantError HostPath

/-- The texts are the same but for the case of ASCII letters. -/
def eqIgnoreAsciiCase (first second : Text) : Bool :=
  toAsciiLowercase first == toAsciiLowercase second

/-- The file of the key in the container. -/
def grantSshKeyContainerName : Text := "awman_push_key".toList

/-- The variable of the token for the forge's own tool. -/
def grantTokenEnvGh : Text := "GH_TOKEN".toList

/-- The variable of the token for git. -/
def grantTokenEnvGit : Text := "AWMAN_GIT_TOKEN".toList

/-- The variable that names the repository of a pull request. -/
def ghRepo : Text := "GH_REPO".toList

/-! ## The parts -/

variable {γ : Type}

/-- The variables of an identity. -/
def identityLiterals (identity : GitIdentityGrant) : List (Text × Text) :=
  [("GIT_AUTHOR_NAME".toList, identity.name), ("GIT_AUTHOR_EMAIL".toList, identity.email),
    ("GIT_COMMITTER_NAME".toList, identity.name), ("GIT_COMMITTER_EMAIL".toList, identity.email)]

/-- Give the identity. -/
def giveIdentity (grants : PrerequisiteGrants) (out : GrantOverlays) : GrantOverlays :=
  match grants.identity with
  | some identity => { out with envLiterals := out.envLiterals ++ identityLiterals identity }
  | none => out

/-- The remote is reached by SSH and approved for it. -/
def sshAllowed (grants : PrerequisiteGrants) (remote : GitRemoteUrl) : Bool :=
  match remote.kind with
  | .ssh _ => grants.allowsSsh remote.redacted
  | _ => false

/-- The remote is reached by HTTPS at the host of the token and approved for it. -/
def httpsAllowed (grants : PrerequisiteGrants) (token : TokenGrant) (remote : GitRemoteUrl) : Bool :=
  match remote.kind with
  | .https host => eqIgnoreAsciiCase host token.host && grants.allowsToken remote.redacted
  | _ => false

/-- The remote is at the host of the token and approved for it. -/
def forgeAllowed (grants : PrerequisiteGrants) (token : TokenGrant) (remote : GitRemoteUrl) : Bool :=
  grants.allowsToken remote.redacted &&
    match remote.kind with
    | .https host => eqIgnoreAsciiCase host token.host
    | .ssh host => eqIgnoreAsciiCase host token.host
    | _ => false

/-- A path as it is shown. -/
def shownPath (path : HostPath) : Text := fromUtf8Lossy path

/-- Copy the known hosts, with the place in the container. -/
def copyKnownHosts (host : GrantHost γ) (hostHome : HostPath) (home : HostPath) (known : HostPath) :
    Except GrantError (HostPath × GrantMount) :=
  match host.validateKeyPath hostHome known with
  | .error message => .error (.data message)
  | .ok source =>
    match host.makeScratch with
    | .error message => .error (.other s!"create known_hosts copy: {message}")
    | .ok scratch =>
      let copy := joinPath scratch (textBytes "known_hosts".toList)
      match host.copyFile source copy with
      | .error message => .error (.other s!"copy known_hosts: {message}")
      | .ok () =>
        match host.secureFile copy with
        | .error message => .error (.other s!"secure known_hosts copy: {message}")
        | .ok () =>
          .ok (scratch, ⟨copy, joinPath home (textBytes ".ssh/known_hosts".toList), false⟩)

/-- Give the key, with a copy of the known hosts. -/
def giveSshKey (host : GrantHost γ) (home : HostPath) (target : GrantTarget γ)
    (grants : PrerequisiteGrants) (out : GrantOverlays) : Except GrantError GrantOverlays :=
  match grants.ssh, target.remote with
  | some (.key keyPath knownHosts _), some remote =>
    if sshAllowed grants remote then
      match host.homeDir with
      | none => .error (.other "cannot resolve host home for SSH key validation")
      | some hostHome =>
        match host.validateKeyPath hostHome keyPath with
        | .error message => .error (.data message)
        | .ok key =>
          let keyTarget := joinPath (joinPath home (textBytes ".ssh".toList))
            (textBytes grantSshKeyContainerName)
          let shown := "ssh key ".toList ++ shownPath key ++ " → ".toList ++ shownPath keyTarget ++
            " (ro)".toList
          match knownHosts with
          | none =>
            .ok { out with
              overlays := out.overlays ++ [⟨key, keyTarget, true⟩]
              display := out.display ++ [shown]
              pushAuth := .ssh (shownPath keyTarget) none }
          | some known =>
            match copyKnownHosts host hostHome home known with
            | .error error => .error error
            | .ok (scratch, mount) =>
              .ok { out with
                overlays := out.overlays ++ [⟨key, keyTarget, true⟩, mount]
                scratch := some scratch
                display := out.display ++ [shown]
                pushAuth := .ssh (shownPath keyTarget) (some (shownPath mount.containerPath)) }
    else .ok out
  | _, _ => .ok out

/-- Give the token to git. -/
def giveGitToken (target : GrantTarget γ) (grants : PrerequisiteGrants) (out : GrantOverlays) :
    GrantOverlays :=
  match grants.token, target.remote with
  | some token, some remote =>
    if httpsAllowed grants token remote then
      { out with
        secretEnv := out.secretEnv ++ [(grantTokenEnvGit, token.secret)]
        envLiterals := out.envLiterals ++ [("GIT_TERMINAL_PROMPT".toList, "0".toList)]
        display := out.display ++ ["AWMAN_GIT_TOKEN=***".toList]
        pushAuth := .httpsToken grantTokenEnvGit }
    else out
  | _, _ => out

/-- Give the directory of keys. -/
def giveSshDir (home : HostPath) (target : GrantTarget γ) (grants : PrerequisiteGrants)
    (out : GrantOverlays) : GrantOverlays :=
  match grants.ssh with
  | some (.wholeDir sshDir) =>
    if target.remote.any (sshAllowed grants) then
      { out with
        overlays := out.overlays ++ [⟨sshDir, joinPath home (textBytes ".ssh".toList), true⟩]
        display := out.display ++ ["ssh() ".toList ++ shownPath sshDir ++ " → ".toList ++
          shownPath home ++ "/.ssh (ro)".toList] }
    else out
  | _ => out

/-- The path in what is kept of a remote URL. -/
def redactedPath (redacted : Text) : Option Text :=
  match splitScheme redacted with
  | some (_, rest) => (splitOnce '/' rest).map fun parts => parts.2
  | none => (splitOnce ':' redacted).map fun parts => parts.2

/-- A path without slashes around it and without the ending of a repository. -/
def repositoryName (path : Text) : Text :=
  (dropGit ((path.dropWhile (· == '/')).rdropWhile (· == '/')).reverse).reverse

/-- Give the token to the forge's own tool, with the repository it is for. -/
def givePullRequest (target : GrantTarget γ) (grants : PrerequisiteGrants) (out : GrantOverlays) :
    GrantOverlays :=
  let out := { out with
    envLiterals := out.envLiterals ++ [("GH_PROMPT_DISABLED".toList, "1".toList)] }
  match grants.token, target.remote with
  | some token, some remote =>
    if forgeAllowed grants token remote then
      let repository := match redactedPath remote.redacted with
        | some path => [(ghRepo, token.host ++ '/' :: repositoryName path)]
        | none => []
      let forge := if eqIgnoreAsciiCase token.host "github.com".toList then []
        else [("GH_HOST".toList, token.host)]
      { out with
        secretEnv := out.secretEnv ++ [(grantTokenEnvGh, token.secret)]
        envLiterals := out.envLiterals ++ repository ++ forge
        display := out.display ++ ["GH_TOKEN=***".toList] }
    else out
  | _, _ => out

/-- The variables that keep git away from the configuration of the host. -/
def isolatingLiterals : List (Text × Text) :=
  [("GIT_CONFIG_NOSYSTEM".toList, "1".toList), ("GIT_CONFIG_GLOBAL".toList, "/dev/null".toList),
    ("GIT_CONFIG_SYSTEM".toList, "/dev/null".toList), ("GIT_TERMINAL_PROMPT".toList, "0".toList)]

/-- The URL by which a remote is reached. -/
def transportUrl (grants : PrerequisiteGrants) (remote : GitRemoteUrl) : Text :=
  (grants.sshTransports.lookup remote.redacted).getD remote.redacted

/-- Give metadata of its own to a step that was given a credential. -/
def giveTransport (host : GrantHost γ) (target : GrantTarget γ) (grants : PrerequisiteGrants)
    (out : GrantOverlays) : Except GrantError GrantOverlays :=
  if out.secretEnv ≠ [] ∨ out.pushAuth ≠ .none ∨ out.overlays ≠ [] then
    match target.repo, target.remote with
    | some repo, some remote =>
      let out := { out with envLiterals := out.envLiterals ++ isolatingLiterals }
      if target.stepKind = .cloneRepo then .ok out
      else
        match target.gitSource with
        | none => .error (.git "trusted pre-agent Git metadata is unavailable")
        | some source =>
          match host.isolateWorkflowTransport source (transportUrl grants remote) with
          | .error error => .error error
          | .ok path =>
            .ok { out with
              overlays := out.overlays ++ [⟨path, path, false⟩]
              envLiterals := out.envLiterals ++
                [("GIT_DIR".toList, shownPath path), ("GIT_WORK_TREE".toList, shownPath repo)]
              transport := some path }
    | _, _ => .ok out
  else .ok out

/-- What a step is given before its transport. -/
def giveByKind (host : GrantHost γ) (target : GrantTarget γ) (grants : PrerequisiteGrants) :
    Except GrantError GrantOverlays :=
  let home := textBytes (target.containerHome.getD "/root".toList)
  match target.stepKind with
  | .commitChanges => .ok (giveIdentity grants .nothing)
  | .pushBranch | .pullBranch | .cloneRepo =>
    match giveSshKey host home target grants .nothing with
    | .error error => .error error
    | .ok out => .ok (giveSshDir home target grants (giveGitToken target grants out))
  | .createPullRequest => .ok (givePullRequest target grants .nothing)
  | .pollCi | .checkoutCreateBranch | .runShell | .runScript => .ok .nothing

/-- Turn the grants of a run into the mounts and the variables of a step. -/
def prerequisiteGrantOverlays (host : GrantHost γ) (target : GrantTarget γ)
    (grants : PrerequisiteGrants) : Except GrantError GrantOverlays :=
  match giveByKind host target grants with
  | .error error => .error error
  | .ok out => giveTransport host target grants out

/-! ## Least privilege -/

/-- A step that pushes, pulls or clones. -/
def PrerequisiteStepKind.Moves (kind : PrerequisiteStepKind) : Prop :=
  kind = .pushBranch ∨ kind = .pullBranch ∨ kind = .cloneRepo

/-- A step that may be given anything. -/
def PrerequisiteStepKind.Served (kind : PrerequisiteStepKind) : Prop :=
  kind.Moves ∨ kind = .commitChanges ∨ kind = .createPullRequest

/-- The step moves commits by SSH, to or from a remote approved for it. -/
def SshApproved (target : GrantTarget γ) (grants : PrerequisiteGrants) : Prop :=
  target.stepKind.Moves ∧ ∃ remote host, target.remote = some remote ∧ remote.kind = .ssh host ∧
    remote.redacted ∈ grants.sshDestinations

/-- The step moves commits by HTTPS or creates a pull request, at the host of the token and with a
remote approved for it. -/
def TokenApproved (target : GrantTarget γ) (grants : PrerequisiteGrants) (token : TokenGrant) : Prop :=
  ∃ remote host, target.remote = some remote ∧ remote.redacted ∈ grants.tokenDestinations ∧
    toAsciiLowercase host = toAsciiLowercase token.host ∧
    (target.stepKind.Moves ∧ remote.kind = .https host ∨
      target.stepKind = .createPullRequest ∧ remote.host = some host)

/-- The variables of an identity. -/
def identityNames : List Text :=
  ["GIT_AUTHOR_NAME".toList, "GIT_AUTHOR_EMAIL".toList, "GIT_COMMITTER_NAME".toList,
    "GIT_COMMITTER_EMAIL".toList]

/-- The text names the repository at a path of a host. -/
def NamesRepository (value host path : Text) : Prop :=
  ∃ name, value = name ++ '/' :: repositoryName path ∧ toAsciiLowercase name = toAsciiLowercase host

/-- The path that is read in a remote URL. -/
def readPath (url : Text) : Text :=
  match splitScheme (Network.trim url) with
  | some (_, rest) => (rest.dropWhile inAuthority).takeWhile inPath
  | none =>
    match splitOnce ':' (Network.trim url) with
    | some (_, path) => path
    | none => []

/-- What a step is given is for its kind and for an approved remote. -/
structure LeastPrivilege (target : GrantTarget γ) (grants : PrerequisiteGrants) (out : GrantOverlays) :
    Prop where
  token : ∀ pair ∈ out.secretEnv, ∃ token, grants.token = some token ∧ pair.2 = token.secret ∧
    TokenApproved target grants token
  mounts : ∀ mount ∈ out.overlays, out.transport = some mount.hostPath ∨ SshApproved target grants
  sshAuth : ∀ key known, out.pushAuth = .ssh key known → SshApproved target grants
  /-- A token is named only where it is given. -/
  tokenAuth : ∀ envVar, out.pushAuth = .httpsToken envVar → out.secretEnv ≠ []
  /-- The identity is for a step that commits. -/
  identity : ∀ pair ∈ out.envLiterals, pair.1 ∈ identityNames →
    target.stepKind = .commitChanges ∧ ∃ identity, grants.identity = some identity ∧
      pair ∈ identityLiterals identity
  others : ¬ target.stepKind.Served → out = .nothing
  /-- A pull request names the repository of an approved remote, by its host and its path. -/
  repository : ∀ value, (ghRepo, value) ∈ out.envLiterals →
    target.stepKind = .createPullRequest ∧ ∃ remote host, target.remote = some remote ∧
      remote.redacted ∈ grants.tokenDestinations ∧ remote.host = some host ∧
      (∀ url, remote = parse url → NamesRepository value host (readPath url)) ∧
      ∀ url, Plain url → remote = parse url.render →
        url.host = some host ∧ NamesRepository value host url.place

variable {host : GrantHost γ} {target : GrantTarget γ} {grants : PrerequisiteGrants}
  {out final : GrantOverlays} {token : TokenGrant} {remote : GitRemoteUrl} {url path : Text}

/-! ## What is approved -/

theorem sshApproved_of_allowed (hmoves : target.stepKind.Moves) (hremote : target.remote = some remote)
    (h : sshAllowed grants remote = true) : SshApproved target grants := by
  unfold sshAllowed at h
  cases hkind : remote.kind with
  | ssh name =>
    rw [hkind] at h
    exact ⟨hmoves, remote, name, hremote, hkind, List.contains_iff_mem.mp h⟩
  | _ => simp [hkind] at h

theorem tokenApproved_of_https (hmoves : target.stepKind.Moves) (hremote : target.remote = some remote)
    (h : httpsAllowed grants token remote = true) : TokenApproved target grants token := by
  unfold httpsAllowed at h
  cases hkind : remote.kind with
  | https name =>
    simp only [hkind, Bool.and_eq_true, eqIgnoreAsciiCase, beq_iff_eq] at h
    exact ⟨remote, name, hremote, List.contains_iff_mem.mp h.2, h.1, Or.inl ⟨hmoves, hkind⟩⟩
  | _ => simp [hkind] at h

theorem forgeAllowed_host (h : forgeAllowed grants token remote = true) :
    remote.redacted ∈ grants.tokenDestinations ∧
      ∃ name, remote.host = some name ∧ toAsciiLowercase name = toAsciiLowercase token.host := by
  unfold forgeAllowed at h
  rw [Bool.and_eq_true] at h
  refine ⟨List.contains_iff_mem.mp h.1, ?_⟩
  cases hkind : remote.kind with
  | https name | ssh name =>
    simp only [hkind, eqIgnoreAsciiCase, beq_iff_eq] at h
    exact ⟨name, by rw [GitRemoteUrl.host, hkind], h.2⟩
  | _ => simp [hkind] at h

/-! ## The path of an approved remote -/

theorem repositoryName_slash (path : Text) : repositoryName ('/' :: path) = repositoryName path := by
  unfold repositoryName
  rw [List.dropWhile_cons_of_pos (by decide)]

/-- The path in what is kept of a URL is the one that is read in the URL. -/
theorem redactedPath_parse {name : Text} (hhost : (parse url).host = some name)
    (hpath : redactedPath (parse url).redacted = some path) :
    repositoryName path = repositoryName (readPath url) := by
  unfold readPath
  rcases parseTrimmed_cases (Network.trim url) with ⟨scheme, rest, hsplit, hparse⟩ |
    ⟨hnone, authority, place, hsplit, -, hparse⟩ | hparse
  · obtain ⟨-, hleads⟩ := splitScheme_eq_some hsplit
    have hslash : '/' ∉ withoutUserinfo (rest.takeWhile inAuthority) := by
      intro hmem
      exact absurd (inAuthority_of_mem_withoutUserinfo hmem) (by decide)
    rw [parse, hparse, parseScheme, redactedPath] at hpath
    rw [splitScheme_append hleads] at hpath
    dsimp only at hpath
    rw [hsplit]
    dsimp only
    rcases path_cases rest with hnil | ⟨tail, htail⟩
    · rw [hnil, List.append_nil, TextCuts.splitOnce_eq_none.mpr hslash] at hpath
      cases hpath
    · rw [htail, TextCuts.splitOnce_append hslash] at hpath
      obtain rfl : tail = path := Option.some.inj hpath
      rw [htail, repositoryName_slash]
  · obtain ⟨htext, hcolon⟩ := TextCuts.splitOnce_eq_some.mp hsplit
    have hplain := colon_notMem_host hcolon
    have hunmarked : splitScheme (toAsciiLowercase (withoutUserinfo authority) ++ ':' :: place) =
        none := by
      rw [splitScheme_eq_none, schemeMark_infix_append hplain]
      intro hinside
      refine splitScheme_eq_none.mp hnone (hinside.trans ?_)
      rw [htext]
      exact (List.suffix_append _ _).isInfix
    rw [parse, hparse, parseScp, redactedPath] at hpath
    rw [hunmarked, TextCuts.splitOnce_append hplain] at hpath
    rw [hnone, hsplit]
    obtain rfl : place = path := Option.some.inj hpath
    rfl
  · rw [parse, hparse] at hhost
    cases hhost

/-- The path in what is kept of a plain URL is the path on its host. -/
theorem redactedPath_plain {url : RemoteUrl} {name : Text} (hplain : Plain url)
    (hhost : (parse url.render).host = some name)
    (hpath : redactedPath (parse url.render).redacted = some path) :
    repositoryName path = repositoryName url.place := by
  have hredacts := (redacts_iff_plain url).mpr hplain
  have hcontacted := hredacts.host hhost
  rw [hredacts.stored, redactedPath] at hpath
  cases url with
  | scheme url =>
    have hslash : '/' ∉ url.hostPort := by
      intro hmem
      exact absurd (url.mem_hostPort hmem).1 (by decide)
    rw [splitScheme_stored] at hpath
    dsimp only at hpath
    rcases url.pathStart with hnil | hstart
    · rw [hnil, List.append_nil, TextCuts.splitOnce_eq_none.mpr hslash] at hpath
      cases hpath
    · obtain ⟨tail, htail⟩ : ∃ tail, url.path = '/' :: tail := by
        cases hcons : url.path with
        | nil => rw [hcons] at hstart; cases hstart
        | cons first tail =>
          rw [hcons] at hstart
          exact ⟨tail, by rw [Option.some.inj hstart]⟩
      rw [htail, TextCuts.splitOnce_append hslash] at hpath
      obtain rfl : tail = path := Option.some.inj hpath
      rw [RemoteUrl.place, htail, repositoryName_slash]
  | scp url =>
    have hcolon := hplain.colon_notMem
    rw [url.splitScheme_stored hcolon, url.splitOnce_stored hcolon] at hpath
    obtain rfl : url.path = path := Option.some.inj hpath
    rfl
  | path text valid => cases hcontacted

/-! ## Each part -/

theorem leastPrivilege_nothing : LeastPrivilege target grants .nothing where
  token := fun pair hmem => absurd hmem List.not_mem_nil
  mounts := fun mount hmem => absurd hmem List.not_mem_nil
  sshAuth := fun key known h => by cases h
  tokenAuth := fun envVar h => by cases h
  identity := fun pair hmem => absurd hmem List.not_mem_nil
  others := fun _ => rfl
  repository := fun value hmem => absurd hmem List.not_mem_nil

theorem served_of_moves (h : target.stepKind.Moves) : target.stepKind.Served := Or.inl h

/-- Mounts of keys and the way to use them are given for an approved remote. -/
theorem leastPrivilege_ssh (h : LeastPrivilege target grants out) (happroved : SshApproved target grants)
    {mounts : List GrantMount} {shown : List Text} {scratch : Option HostPath} {auth : PushAuth}
    (hauth : ∀ envVar, auth ≠ .httpsToken envVar) :
    LeastPrivilege target grants
      { out with
        overlays := out.overlays ++ mounts
        display := out.display ++ shown
        scratch := scratch
        pushAuth := auth } where
  token := h.token
  mounts := by
    intro mount hmem
    rcases List.mem_append.mp hmem with hold | hnew
    · exact h.mounts mount hold
    · exact Or.inr happroved
  sshAuth := fun _ _ _ => happroved
  tokenAuth := fun envVar heq => absurd heq (hauth envVar)
  identity := h.identity
  others := fun hnot => absurd (served_of_moves happroved.1) hnot
  repository := h.repository

/-- A step that is served may be given variables that tell neither an identity nor a repository. -/
theorem LeastPrivilege.append_literals (h : LeastPrivilege target grants out)
    (hserved : target.stepKind.Served) {literals : List (Text × Text)}
    (hplain : ∀ pair ∈ literals, pair.1 ∉ identityNames ∧ pair.1 ≠ ghRepo) :
    LeastPrivilege target grants { out with envLiterals := out.envLiterals ++ literals } where
  token := h.token
  mounts := h.mounts
  sshAuth := h.sshAuth
  tokenAuth := h.tokenAuth
  identity := by
    intro pair hmem hname
    rcases List.mem_append.mp hmem with hold | hnew
    · exact h.identity pair hold hname
    · exact absurd hname (hplain pair hnew).1
  others := fun hnot => absurd hserved hnot
  repository := by
    intro value hmem
    rcases List.mem_append.mp hmem with hold | hnew
    · exact h.repository value hold
    · exact absurd rfl (hplain _ hnew).2

theorem leastPrivilege_giveSshKey {home : HostPath} (hmoves : target.stepKind.Moves)
    (h : LeastPrivilege target grants out) (hgiven : giveSshKey host home target grants out = .ok final) :
    LeastPrivilege target grants final ∧ final.transport = out.transport := by
  unfold giveSshKey at hgiven
  split at hgiven
  · rename_i keyPath knownHosts passphrase remote hssh hremote
    split at hgiven
    · rename_i hallowed
      have happroved := sshApproved_of_allowed hmoves hremote hallowed
      split at hgiven
      · cases hgiven
      · split at hgiven
        · cases hgiven
        · split at hgiven
          · cases hgiven
            exact ⟨leastPrivilege_ssh h happroved (fun _ => by simp), rfl⟩
          · split at hgiven
            · cases hgiven
            · cases hgiven
              exact ⟨leastPrivilege_ssh h happroved (fun _ => by simp), rfl⟩
    · cases hgiven
      exact ⟨h, rfl⟩
  · cases hgiven
    exact ⟨h, rfl⟩

theorem leastPrivilege_giveGitToken (hmoves : target.stepKind.Moves)
    (h : LeastPrivilege target grants out) :
    LeastPrivilege target grants (giveGitToken target grants out) ∧
      (giveGitToken target grants out).transport = out.transport := by
  unfold giveGitToken
  split
  · rename_i token remote htoken hremote
    split
    · rename_i hallowed
      have happroved := tokenApproved_of_https hmoves hremote hallowed
      have hserved := served_of_moves hmoves
      have hquiet : ∀ pair ∈ [("GIT_TERMINAL_PROMPT".toList, "0".toList)],
          pair.1 ∉ identityNames ∧ pair.1 ≠ ghRepo := by decide
      have hliterals := h.append_literals hserved hquiet
      refine ⟨⟨?_, h.mounts, ?_, ?_, hliterals.identity, ?_, hliterals.repository⟩, rfl⟩
      · intro pair hmem
        rcases List.mem_append.mp hmem with hold | hnew
        · exact h.token pair hold
        · rw [List.mem_singleton.mp hnew]
          exact ⟨token, htoken, rfl, happroved⟩
      · intro key known hauth
        cases hauth
      · intro envVar _
        simp
      · exact fun hnot => absurd hserved hnot
    · exact ⟨h, rfl⟩
  · exact ⟨h, rfl⟩

theorem leastPrivilege_giveSshDir {home : HostPath} (hmoves : target.stepKind.Moves)
    (h : LeastPrivilege target grants out) :
    LeastPrivilege target grants (giveSshDir home target grants out) ∧
      (giveSshDir home target grants out).transport = out.transport := by
  unfold giveSshDir
  split
  · split
    · rename_i hallowed
      obtain ⟨remote, hremote, hallowed⟩ := (Option.any_eq_true _ _).mp hallowed
      have happroved := sshApproved_of_allowed hmoves hremote hallowed
      refine ⟨⟨h.token, ?_, h.sshAuth, h.tokenAuth, h.identity, ?_, h.repository⟩, rfl⟩
      · intro mount hmem
        rcases List.mem_append.mp hmem with hold | hnew
        · exact h.mounts mount hold
        · exact Or.inr happroved
      · exact fun hnot => absurd (served_of_moves hmoves) hnot
    · exact ⟨h, rfl⟩
  · exact ⟨h, rfl⟩

theorem leastPrivilege_giveIdentity (hcommits : target.stepKind = .commitChanges) :
    LeastPrivilege target grants (giveIdentity grants .nothing) ∧
      (giveIdentity grants .nothing).transport = none := by
  have hnothing := @leastPrivilege_nothing γ target grants
  unfold giveIdentity
  split
  · rename_i identity hidentity
    refine ⟨⟨hnothing.token, hnothing.mounts, hnothing.sshAuth, hnothing.tokenAuth, ?_, ?_, ?_⟩, rfl⟩
    · intro pair hmem _
      exact ⟨hcommits, identity, hidentity, hmem⟩
    · exact fun hnot => absurd (Or.inr (Or.inl hcommits)) hnot
    · intro value hmem
      have hname : ghRepo ∈ identityNames := List.mem_map_of_mem (f := Prod.fst) hmem
      exact absurd hname (by decide)
  · exact ⟨hnothing, rfl⟩

/-- The repository of a pull request is the one of the approved remote. -/
theorem repository_of_forgeAllowed (hpull : target.stepKind = .createPullRequest)
    (hremote : target.remote = some remote) (hallowed : forgeAllowed grants token remote = true)
    (hpath : redactedPath remote.redacted = some path) :
    target.stepKind = .createPullRequest ∧ ∃ remote host, target.remote = some remote ∧
      remote.redacted ∈ grants.tokenDestinations ∧ remote.host = some host ∧
      (∀ url, remote = parse url →
        NamesRepository (token.host ++ '/' :: repositoryName path) host (readPath url)) ∧
      ∀ url, Plain url → remote = parse url.render →
        url.host = some host ∧
          NamesRepository (token.host ++ '/' :: repositoryName path) host url.place := by
  obtain ⟨hdestination, name, hhost, hsame⟩ := forgeAllowed_host hallowed
  refine ⟨hpull, remote, name, hremote, hdestination, hhost, ?_, ?_⟩
  · rintro url rfl
    exact ⟨token.host, by rw [redactedPath_parse hhost hpath], hsame.symm⟩
  · rintro url hplain rfl
    refine ⟨((redacts_iff_plain url).mpr hplain).host hhost, token.host, ?_, hsame.symm⟩
    rw [redactedPath_plain hplain hhost hpath]

theorem leastPrivilege_givePullRequest (hpull : target.stepKind = .createPullRequest) :
    LeastPrivilege target grants (givePullRequest target grants .nothing) ∧
      (givePullRequest target grants .nothing).transport = none := by
  have hnothing := @leastPrivilege_nothing γ target grants
  have hserved : target.stepKind.Served := Or.inr (Or.inr hpull)
  have hprompt : ∀ pair ∈ [("GH_PROMPT_DISABLED".toList, "1".toList)],
      pair.1 ∉ identityNames ∧ pair.1 ≠ ghRepo := by decide
  have hprompted := hnothing.append_literals hserved hprompt
  unfold givePullRequest
  split
  · rename_i token remote htoken hremote
    split
    · rename_i hallowed
      obtain ⟨hdestination, name, hhost, hsame⟩ := forgeAllowed_host hallowed
      refine ⟨⟨?_, hnothing.mounts, hnothing.sshAuth, ?_, ?_, ?_, ?_⟩, rfl⟩
      · intro pair hmem
        rw [List.mem_singleton.mp hmem]
        exact ⟨token, htoken, rfl, remote, name, hremote, hdestination, hsame, Or.inr ⟨hpull, hhost⟩⟩
      · intro envVar hauth
        cases hauth
      · intro pair hmem hname
        rcases List.mem_append.mp hmem with hfront | hforge
        · rcases List.mem_append.mp hfront with hfirst | hrepository
          · exact absurd hname (hprompt pair hfirst).1
          · split at hrepository
            · rw [List.mem_singleton.mp hrepository] at hname
              change ghRepo ∈ identityNames at hname
              exact absurd hname (by decide)
            · cases hrepository
        · split at hforge
          · cases hforge
          · rw [List.mem_singleton.mp hforge] at hname
            change "GH_HOST".toList ∈ identityNames at hname
            exact absurd hname (by decide)
      · exact fun hnot => absurd hserved hnot
      · intro value hmem
        rcases List.mem_append.mp hmem with hfront | hforge
        · rcases List.mem_append.mp hfront with hfirst | hrepository
          · exact absurd rfl (hprompt _ hfirst).2
          · split at hrepository
            · rename_i path hpath
              obtain rfl : value = _ := congrArg Prod.snd (List.mem_singleton.mp hrepository)
              exact repository_of_forgeAllowed hpull hremote hallowed hpath
            · cases hrepository
        · split at hforge
          · cases hforge
          · have hname : ghRepo = "GH_HOST".toList :=
              congrArg Prod.fst (List.mem_singleton.mp hforge)
            cases hname
    · exact ⟨hprompted, rfl⟩
  · exact ⟨hprompted, rfl⟩

/-- What a step that moves commits is given. -/
theorem leastPrivilege_moves {home : HostPath} {after : GrantOverlays} (hmoves : target.stepKind.Moves)
    (hgiven : giveSshKey host home target grants .nothing = .ok after) :
    LeastPrivilege target grants (giveSshDir home target grants (giveGitToken target grants after)) ∧
      (giveSshDir home target grants (giveGitToken target grants after)).transport = none := by
  obtain ⟨hkey, hkeyTransport⟩ := leastPrivilege_giveSshKey hmoves leastPrivilege_nothing hgiven
  obtain ⟨htoken, htokenTransport⟩ := leastPrivilege_giveGitToken hmoves hkey
  obtain ⟨hdir, hdirTransport⟩ := @leastPrivilege_giveSshDir γ target grants _ home hmoves htoken
  exact ⟨hdir, hdirTransport.trans (htokenTransport.trans hkeyTransport)⟩

theorem leastPrivilege_giveByKind (h : giveByKind host target grants = .ok out) :
    LeastPrivilege target grants out ∧ out.transport = none := by
  unfold giveByKind at h
  cases hkind : target.stepKind <;> simp only [hkind] at h
  case commitChanges =>
    cases h
    exact leastPrivilege_giveIdentity hkind
  case createPullRequest =>
    cases h
    exact leastPrivilege_givePullRequest hkind
  case pushBranch =>
    split at h
    · cases h
    · next after hgiven =>
      cases h
      exact leastPrivilege_moves (Or.inl hkind) hgiven
  case pullBranch =>
    split at h
    · cases h
    · next after hgiven =>
      cases h
      exact leastPrivilege_moves (Or.inr (Or.inl hkind)) hgiven
  case cloneRepo =>
    split at h
    · cases h
    · next after hgiven =>
      cases h
      exact leastPrivilege_moves (Or.inr (Or.inr hkind)) hgiven
  all_goals
    cases h
    exact ⟨leastPrivilege_nothing, rfl⟩

/-- The metadata of the transport and its variables are no credential. -/
theorem leastPrivilege_giveTransport (h : LeastPrivilege target grants out) (hnone : out.transport = none)
    (hgiven : giveTransport host target grants out = .ok final) :
    LeastPrivilege target grants final := by
  have hplain : ∀ pair ∈ isolatingLiterals, pair.1 ∉ identityNames ∧ pair.1 ≠ ghRepo := by decide
  unfold giveTransport at hgiven
  split at hgiven
  · rename_i hcredential
    have hsomething : out ≠ .nothing := by
      rintro rfl
      simp [GrantOverlays.nothing] at hcredential
    have hserved : target.stepKind.Served := by
      by_contra hnot
      exact hsomething (h.others hnot)
    have hisolated := h.append_literals hserved hplain
    split at hgiven
    · rename_i repo remote hrepo hremote
      split at hgiven
      · cases hgiven
        exact hisolated
      · split at hgiven
        · cases hgiven
        · split at hgiven
          · cases hgiven
          · rename_i path hpath
            have hnames : ∀ pair ∈ [("GIT_DIR".toList, shownPath path),
                ("GIT_WORK_TREE".toList, shownPath repo)],
                pair.1 ∉ identityNames ∧ pair.1 ≠ ghRepo := by
              intro pair hmem
              have hname : pair.1 = "GIT_DIR".toList ∨ pair.1 = "GIT_WORK_TREE".toList := by
                rcases List.mem_cons.mp hmem with rfl | hsecond
                · exact Or.inl rfl
                · rw [List.mem_singleton.mp hsecond]
                  exact Or.inr rfl
              rcases hname with hname | hname
              · rw [hname]
                decide
              · rw [hname]
                decide
            have hliterals := hisolated.append_literals hserved hnames
            cases hgiven
            refine ⟨h.token, ?_, h.sshAuth, h.tokenAuth, hliterals.identity,
              fun hnot => absurd hserved hnot, hliterals.repository⟩
            intro mount hmem
            rcases List.mem_append.mp hmem with hold | hnew
            · rcases h.mounts mount hold with htransport | happroved
              · rw [hnone] at htransport
                cases htransport
              · exact Or.inr happroved
            · rw [List.mem_singleton.mp hnew]
              exact Or.inl rfl
    · cases hgiven
      exact h
  · cases hgiven
    exact h

/-- A host on which nothing is asked of the files. -/
def bareHost : GrantHost Unit where
  homeDir := none
  validateKeyPath := fun _ path => .ok path
  makeScratch := .error "no space"
  copyFile := fun _ _ => .error "no space"
  secureFile := fun _ => .ok ()
  isolateWorkflowTransport := fun _ _ => .error (.git "no metadata")

/-- A step that creates a pull request. -/
def pullRequestTarget : GrantTarget Unit where
  repo := none
  gitSource := none
  stepKind := .createPullRequest
  containerHome := none
  remote := some (parse "https://me@GHE.test:8443/o/r.git".toList)

/-- A token for a forge and one approved destination. -/
def forgeGrants : PrerequisiteGrants where
  tokenDestinations := ["https://GHE.test:8443/o/r.git".toList]
  token := some ⟨"s3cret".toList, .pasted, "ghe.test".toList, none⟩

end Awman.Consent
