import Awman.PrerequisiteLayers

/-!
# What repositories and remote clients can change

The configuration of a repository ships with a checkout, and the flags of a remote client come over
the network.  Policies with and without them are compared: neither is to give more than the operator
does.
-/

namespace Awman.Squad

open Awman.Overlay (HostPath textBytes)
open Awman.RawArgs Awman.Checks

/-! ## The order of decisions -/

/-- How much a decision gives. -/
def CredentialUse.level : CredentialUse → Nat
  | deny => 0
  | ask => 1
  | allow => 2

instance : LE CredentialUse := ⟨fun first second => first.level ≤ second.level⟩

instance (first second : CredentialUse) : Decidable (first ≤ second) :=
  inferInstanceAs (Decidable (first.level ≤ second.level))

theorem narrowUse_le (current requested : CredentialUse) : narrowUse current requested ≤ current := by
  cases current <;> cases requested <;> decide

theorem CredentialUse.le_refl (use : CredentialUse) : use ≤ use := Nat.le_refl _

theorem CredentialUse.eq_deny_of_le {first second : CredentialUse} (hle : first ≤ second)
    (hdeny : second = .deny) : first = .deny := by
  subst hdeny
  revert hle
  cases first <;> decide

/-! ## Repositories -/

/-- The repository gives an identity of its own, and does not deny identities. -/
def PrerequisitesConfig.GivesIdentity (config : PrerequisitesConfig) : Prop :=
  ∃ identity ∈ config.gitIdentity, identity.fixed.isSome = true ∧
    (identity.use = some .ask ∨ identity.use = some .allow)

/-- The global blocks deny the git identity; the squad block is asked first. -/
def PrerequisitePolicyLayers.DeniesIdentity (layers : PrerequisitePolicyLayers) : Prop :=
  ((layers.squadGlobal.bind (·.gitIdentity)).bind (·.use)).or
    ((layers.global.bind (·.gitIdentity)).bind (·.use)) = some .deny

/-- The policy with the block of a repository gives nothing that the policy without it does not. -/
structure RepoNarrows (config : PrerequisitesConfig) (without within : PrerequisitePolicy) :
    Prop where
  /-- The identity of the host is used no more freely; one of the repository is no credential. -/
  identity : within.gitIdentity.use ≤ without.gitIdentity.use ∨
    within.gitIdentity.use = .allow ∧ ∃ identity ∈ config.gitIdentity,
      identity.fixed.isSome = true ∧ identity.fixed = within.gitIdentity.fixed
  /-- SSH keys are used no more freely. -/
  ssh : within.ssh.use ≤ without.ssh.use
  /-- Tokens are used no more freely. -/
  token : within.githubToken.use ≤ without.githubToken.use
  denied : (without.gitIdentity.use = .deny → within.gitIdentity.use = .deny) ∧
    (without.ssh.use = .deny → within.ssh.use = .deny) ∧
    (without.githubToken.use = .deny → within.githubToken.use = .deny)
  /-- A key that is used without a question is that of the operator. -/
  key : ∀ key, within.ssh.use = .allow → within.ssh.key = some key →
    within.ssh.keyIsSuggestion = false →
      without.ssh.use = .allow ∧ without.ssh.key = some key ∧ without.ssh.keyIsSuggestion = false
  /-- All keys are only used if the operator says so. -/
  wholeDir : within.ssh.wholeDir = true → without.ssh.wholeDir = true
  /-- The variables are among those of the operator. -/
  envVars : ∀ var ∈ within.githubToken.envVars, var ∈ without.githubToken.envVars
  /-- A command is that of the operator, or is known to be the repository's. -/
  acquire : ∀ acquire ∈ within.githubToken.acquire,
    without.githubToken.acquire = some acquire ∨ acquire.scope = .repo
  /-- Tokens are verified as before. -/
  verify : without.githubToken.verify = true → within.githubToken.verify = true
  /-- Unsatisfied prerequisites are handled as before, or stop the run. -/
  unresolved : within.unresolved = without.unresolved ∨ within.unresolved = some .fail
  /-- The checks before a run are made as before. -/
  preflight : without.preflight = .warn → within.preflight = .warn
  /-- Whether clients may widen the policy is as before. -/
  grants : within.allowApiClientGrants = without.allowApiClientGrants

/-- What the block of a repository does to the git identity. -/
theorem IdentityPolicy.applyConfig_repo (policy : IdentityPolicy) (config : GitIdentityConfig)
    (source : PolicySource) :
    (policy.applyConfig config source true).1.use ≤ policy.use ∨
      config.fixed.isSome = true ∧ config.use = some (policy.applyConfig config source true).1.use ∧
        (policy.applyConfig config source true).1.fixed = config.fixed := by
  unfold IdentityPolicy.applyConfig IdentityPolicy.applyUse
  cases hfixed : config.fixed with
  | none =>
    left
    cases config.use with
    | none => exact CredentialUse.le_refl _
    | some use =>
      by_cases hallow : use = .allow
      · simp [hallow, CredentialUse.le_refl]
      · simpa [hallow] using narrowUse_le policy.use use
  | some fixed =>
    cases config.use with
    | none =>
      left
      exact CredentialUse.le_refl _
    | some use =>
      right
      refine ⟨rfl, ?_, rfl⟩
      simp

/-- What the block of a repository does to SSH keys. -/
theorem SshPolicy.applyConfig_repo (policy : SshPolicy) (config : SshConfig) (source : PolicySource) :
    (policy.applyConfig config source true).1.use ≤ policy.use ∧
      ((policy.applyConfig config source true).1.keyIsSuggestion = true ∨
        (policy.applyConfig config source true).1.key = policy.key ∧
          (policy.applyConfig config source true).1.keyIsSuggestion = policy.keyIsSuggestion) ∧
      ((policy.applyConfig config source true).1.wholeDir = true → policy.wholeDir = true) := by
  have huse : (policy.applyUse source true config.use).1.use ≤ policy.use ∧
      (policy.applyUse source true config.use).1.key = policy.key ∧
      (policy.applyUse source true config.use).1.keyIsSuggestion = policy.keyIsSuggestion ∧
      (policy.applyUse source true config.use).1.wholeDir = policy.wholeDir := by
    unfold SshPolicy.applyUse
    cases config.use with
    | none => exact ⟨CredentialUse.le_refl _, rfl, rfl, rfl⟩
    | some use =>
      by_cases hallow : use = .allow
      · simp [hallow, CredentialUse.le_refl]
      · simpa [hallow] using narrowUse_le policy.use use
  obtain ⟨hle, hkey, hsuggestion, hdir⟩ := huse
  unfold SshPolicy.applyConfig
  cases config.key with
  | none => exact ⟨hle, .inr ⟨hkey, hsuggestion⟩, fun h => hdir ▸ h⟩
  | some key => exact ⟨hle, .inl rfl, fun h => by cases h⟩

/-- A policy gives tokens no more freely than another one, but for a command that is known to be that
of the repository. -/
structure TokenPolicy.Narrows (policy after : TokenPolicy) : Prop where
  /-- Tokens are used no more freely. -/
  use : after.use ≤ policy.use
  /-- No variables are added. -/
  envVars : ∀ var ∈ after.envVars, var ∈ policy.envVars
  /-- A command stays, or is that of the repository. -/
  acquire : ∀ acquire ∈ after.acquire, policy.acquire = some acquire ∨ acquire.scope = .repo
  /-- Tokens are verified as before. -/
  verify : policy.verify = true → after.verify = true

namespace TokenPolicy

variable {policy after last : TokenPolicy}

theorem Narrows.refl : policy.Narrows policy :=
  ⟨CredentialUse.le_refl _, fun _ hvar => hvar, fun _ hsome => .inl hsome, fun h => h⟩

theorem Narrows.trans (hfirst : policy.Narrows after) (hsecond : after.Narrows last) :
    policy.Narrows last where
  use := Nat.le_trans hsecond.use hfirst.use
  envVars := fun var hvar => hfirst.envVars var (hsecond.envVars var hvar)
  acquire := by
    intro acquire hsome
    rcases hsecond.acquire acquire hsome with hkept | hrepo
    · exact hfirst.acquire acquire hkept
    · exact .inr hrepo
  verify := fun hverify => hsecond.verify (hfirst.verify hverify)

theorem applyUse_repo (policy : TokenPolicy) (source : PolicySource) (use : Option CredentialUse) :
    policy.Narrows (policy.applyUse source true use).1 := by
  unfold applyUse
  cases use with
  | none => exact .refl
  | some use =>
    dsimp only
    split
    case isTrue hallow => exact .refl
    case isFalse hother =>
      exact ⟨narrowUse_le policy.use use, fun _ hvar => hvar, fun _ hsome => .inl hsome, fun h => h⟩

theorem applyEnvVars_repo (policy : TokenPolicy) (source : PolicySource) (vars : Option (List Text)) :
    policy.Narrows (policy.applyEnvVars source true vars).1 := by
  unfold applyEnvVars
  cases vars with
  | none => exact .refl
  | some vars =>
    dsimp only
    split
    case isTrue hmore => exact .refl
    case isFalse hfewer =>
      have hsubset : ∀ var ∈ vars, var ∈ policy.envVars := by
        by_contra hmore
        exact hfewer ⟨rfl, hmore⟩
      exact ⟨CredentialUse.le_refl _, hsubset, fun _ hsome => .inl hsome, fun h => h⟩

theorem applyAcquire_repo (sha256 : List Text → Text) (policy : TokenPolicy) (source : PolicySource)
    (acquire : Option AcquireCommandConfig) :
    policy.Narrows (policy.applyAcquire sha256 source true acquire).1 := by
  unfold applyAcquire
  cases acquire with
  | none => exact .refl
  | some acquire =>
    dsimp only
    split
    case isTrue hretained => exact .refl
    case isFalse hreplaced =>
      refine ⟨CredentialUse.le_refl _, fun _ hvar => hvar, ?_, fun h => h⟩
      rintro _ ⟨⟩
      exact .inr rfl

theorem applyVerify_repo (policy : TokenPolicy) (verify : Option Bool) :
    policy.Narrows (policy.applyVerify true verify).1 := by
  unfold applyVerify
  cases verify with
  | none => exact .refl
  | some verify =>
    dsimp only
    split
    case isTrue hkept => exact .refl
    case isFalse hset =>
      refine ⟨CredentialUse.le_refl _, fun _ hvar => hvar, fun _ hsome => .inl hsome, ?_⟩
      intro hverified
      by_contra hunverified
      exact hset ⟨rfl, hverified, hunverified⟩

/-- What the block of a repository does to tokens. -/
theorem applyConfig_repo (sha256 : List Text → Text) (policy : TokenPolicy) (config : GithubTokenConfig)
    (source : PolicySource) :
    policy.Narrows (policy.applyConfig sha256 config source true).1 :=
  (applyUse_repo policy source config.use).trans <|
    (applyEnvVars_repo _ source config.envVars).trans <|
      (applyAcquire_repo sha256 _ source config.acquire).trans <|
        applyVerify_repo _ config.verify

end TokenPolicy

section operator

variable (sha256 : List Text → Text) (layers : PrerequisitePolicyLayers)

/-- A global block decides about the git identity what it says. -/
theorem applyConfig_identity (policy : PrerequisitePolicy) (config : PrerequisitesConfig)
    (source : PolicySource) :
    (policy.applyConfig sha256 config source false).gitIdentity.use =
      (config.gitIdentity.bind (·.use)).getD policy.gitIdentity.use := by
  unfold PrerequisitePolicy.applyConfig applyBlock
  cases config.gitIdentity with
  | none => rfl
  | some identity =>
    have huse : ∀ fixed, (policy.gitIdentity.applyUse fixed source false identity.use).1.use =
        identity.use.getD policy.gitIdentity.use := by
      intro fixed
      unfold IdentityPolicy.applyUse
      cases identity.use <;> simp
    dsimp only [IdentityPolicy.applyConfig]
    rw [Option.bind_some, ← huse identity.fixed]
    cases identity.fixed <;> rfl

/-- The operator denies identities when the global blocks say so. -/
theorem operator_deny_iff :
    (layers.operator sha256).gitIdentity.use = .deny ↔ layers.DeniesIdentity := by
  have hglobal : (layers.globalPolicy sha256).gitIdentity.use =
      ((layers.global.bind (·.gitIdentity)).bind (·.use)).getD .ask := by
    unfold PrerequisitePolicyLayers.globalPolicy
    cases layers.global with
    | none => rfl
    | some config => exact applyConfig_identity sha256 default config .global
  have huse : (layers.operator sha256).gitIdentity.use =
      (((layers.squadGlobal.bind (·.gitIdentity)).bind (·.use)).or
        ((layers.global.bind (·.gitIdentity)).bind (·.use))).getD .ask := by
    unfold PrerequisitePolicyLayers.operator
    cases layers.squadGlobal with
    | none => exact hglobal
    | some config =>
      dsimp only
      rw [applyConfig_identity, hglobal, Option.bind_some]
      cases config.gitIdentity.bind (·.use) <;> rfl
  rw [huse]
  unfold PrerequisitePolicyLayers.DeniesIdentity
  cases ((layers.squadGlobal.bind (·.gitIdentity)).bind (·.use)).or
    ((layers.global.bind (·.gitIdentity)).bind (·.use)) <;> simp

end operator

section repo

variable (sha256 : List Text → Text) (policy : PrerequisitePolicy) (config : PrerequisitesConfig)

/-- The git identity after the block of a repository. -/
theorem applyRepo_identity :
    (policy.applyConfig sha256 config .repo true).gitIdentity.use ≤ policy.gitIdentity.use ∨
      ∃ identity ∈ config.gitIdentity, identity.fixed.isSome = true ∧
        identity.use = some (policy.applyConfig sha256 config .repo true).gitIdentity.use ∧
        (policy.applyConfig sha256 config .repo true).gitIdentity.fixed = identity.fixed := by
  unfold PrerequisitePolicy.applyConfig applyBlock
  cases config.gitIdentity with
  | none => exact .inl (CredentialUse.le_refl _)
  | some identity =>
    rcases IdentityPolicy.applyConfig_repo policy.gitIdentity identity .repo with hle | hgiven
    · exact .inl hle
    · exact .inr ⟨identity, rfl, hgiven⟩

/-- An identity of the repository brings its decision with it. -/
theorem applyRepo_identity_of_gives {identity : GitIdentityConfig} {use : CredentialUse}
    (hidentity : config.gitIdentity = some identity) (hfixed : identity.fixed.isSome = true)
    (huse : identity.use = some use) :
    (policy.applyConfig sha256 config .repo true).gitIdentity.use = use := by
  unfold PrerequisitePolicy.applyConfig applyBlock
  rw [hidentity]
  dsimp only
  unfold IdentityPolicy.applyConfig IdentityPolicy.applyUse
  rw [huse]
  obtain ⟨fixed, hsome⟩ := Option.isSome_iff_exists.mp hfixed
  simp [hsome]

/-- The block of a repository only narrows how SSH keys are used. -/
theorem applyRepo_ssh :
    (policy.applyConfig sha256 config .repo true).ssh.use ≤ policy.ssh.use ∧
      ((policy.applyConfig sha256 config .repo true).ssh.keyIsSuggestion = true ∨
        (policy.applyConfig sha256 config .repo true).ssh.key = policy.ssh.key ∧
          (policy.applyConfig sha256 config .repo true).ssh.keyIsSuggestion =
            policy.ssh.keyIsSuggestion) ∧
      ((policy.applyConfig sha256 config .repo true).ssh.wholeDir = true →
        policy.ssh.wholeDir = true) := by
  have hssh : (policy.applyConfig sha256 config .repo true).ssh =
      (applyBlock (fun policy config => SshPolicy.applyConfig policy config .repo true)
        policy.ssh config.ssh).1 := rfl
  rw [hssh]
  unfold applyBlock
  cases config.ssh with
  | none => exact ⟨CredentialUse.le_refl _, .inr ⟨rfl, rfl⟩, fun h => h⟩
  | some ssh => exact SshPolicy.applyConfig_repo policy.ssh ssh .repo

/-- The block of a repository only narrows how tokens are used. -/
theorem applyRepo_token :
    policy.githubToken.Narrows (policy.applyConfig sha256 config .repo true).githubToken := by
  have htoken : (policy.applyConfig sha256 config .repo true).githubToken =
      (applyBlock (fun policy config => TokenPolicy.applyConfig sha256 policy config .repo true)
        policy.githubToken config.githubToken).1 := rfl
  rw [htoken]
  unfold applyBlock
  cases config.githubToken with
  | none => exact TokenPolicy.Narrows.refl
  | some token => exact TokenPolicy.applyConfig_repo sha256 policy.githubToken token .repo

/-- The block of a repository narrows every policy, unless it gives an identity where identities are
denied. -/
theorem repoNarrows_iff :
    RepoNarrows config policy (policy.applyConfig sha256 config .repo true) ↔
      ¬ (policy.gitIdentity.use = .deny ∧ config.GivesIdentity) := by
  constructor
  · rintro hnarrows ⟨hdeny, identity, hidentity, hfixed, huse⟩
    have hdenied := hnarrows.denied.1 hdeny
    rcases huse with huse | huse
    · rw [applyRepo_identity_of_gives sha256 policy config hidentity hfixed huse] at hdenied
      cases hdenied
    · rw [applyRepo_identity_of_gives sha256 policy config hidentity hfixed huse] at hdenied
      cases hdenied
  · intro hallowed
    obtain ⟨hsshUse, hkey, hdir⟩ := applyRepo_ssh sha256 policy config
    have htoken := applyRepo_token sha256 policy config
    have hidentity := applyRepo_identity sha256 policy config
    refine ⟨?_, hsshUse, htoken.use, ⟨?_, CredentialUse.eq_deny_of_le hsshUse,
      CredentialUse.eq_deny_of_le htoken.use⟩, ?_, hdir, htoken.envVars, htoken.acquire, htoken.verify,
      ?_, ?_, rfl⟩
    · rcases hidentity with hle | ⟨identity, hsome, hfixed, huse, hsame⟩
      · exact .inl hle
      cases hcase : (policy.applyConfig sha256 config .repo true).gitIdentity.use with
      | deny => exact .inl (Nat.zero_le _)
      | ask =>
        left
        rw [hcase] at huse
        cases hcurrent : policy.gitIdentity.use with
        | deny => exact absurd ⟨hcurrent, identity, hsome, hfixed, .inl huse⟩ hallowed
        | ask | allow => decide
      | allow => exact .inr ⟨rfl, identity, hsome, hfixed, hsame.symm⟩
    · intro hdeny
      rcases hidentity with hle | ⟨identity, hsome, hfixed, huse, -⟩
      · exact CredentialUse.eq_deny_of_le hle hdeny
      cases hcase : (policy.applyConfig sha256 config .repo true).gitIdentity.use with
      | deny => rfl
      | ask =>
        rw [hcase] at huse
        exact absurd ⟨hdeny, identity, hsome, hfixed, .inl huse⟩ hallowed
      | allow =>
        rw [hcase] at huse
        exact absurd ⟨hdeny, identity, hsome, hfixed, .inr huse⟩ hallowed
    · intro key huse hsome hreal
      rcases hkey with hsuggested | ⟨hsameKey, hsameKind⟩
      · rw [hsuggested] at hreal
        cases hreal
      · refine ⟨?_, by rw [← hsameKey, hsome], by rw [← hsameKind, hreal]⟩
        rw [huse] at hsshUse
        revert hsshUse
        cases policy.ssh.use <;> decide
    · change (applyUnresolved true config.unresolved policy.unresolved).1 = _ ∨
        (applyUnresolved true config.unresolved policy.unresolved).1 = _
      unfold applyUnresolved
      cases config.unresolved with
      | none => exact .inl rfl
      | some mode => cases mode <;> simp
    · intro hwarn
      change (applyPreflight true config.preflight policy.preflight).1 = _
      unfold applyPreflight
      cases config.preflight with
      | none => exact hwarn
      | some mode => cases mode <;> simp [hwarn]

end repo

theorem applyFlags_none (policy : PrerequisitePolicy) : policy.applyFlags {} = policy := rfl

/-- Denying SSH keys to a remote session changes nothing else. -/
theorem restrictRemote_cases (layers : PrerequisitePolicyLayers) (policy : PrerequisitePolicy) :
    layers.restrictRemote policy =
      { policy with ssh := { policy.ssh with
        use := if layers.remoteSession ∧ ¬ layers.globalSshAllow then .deny else policy.ssh.use } } := by
  unfold PrerequisitePolicyLayers.restrictRemote
  split <;> rfl

/-- Denying SSH keys on both sides keeps a policy narrow. -/
theorem RepoNarrows.restrictRemote {config : PrerequisitesConfig} {without within : PrerequisitePolicy}
    (hnarrows : RepoNarrows config without within) (layers : PrerequisitePolicyLayers) :
    RepoNarrows config (layers.restrictRemote without) (layers.restrictRemote within) := by
  rw [restrictRemote_cases, restrictRemote_cases]
  by_cases hremote : layers.remoteSession ∧ ¬ layers.globalSshAllow
  · exact
      { hnarrows with
        ssh := by
          dsimp only
          rw [if_pos hremote, if_pos hremote]
          exact CredentialUse.le_refl _
        denied := ⟨hnarrows.denied.1, fun _ => if_pos hremote, hnarrows.denied.2.2⟩
        key := by
          intro key huse
          dsimp only at huse
          rw [if_pos hremote] at huse
          cases huse }
  · simp only [if_neg hremote]
    exact hnarrows

/-- The configuration of a repository only narrows what the operator gives, unless it gives an identity
of its own where the operator denies identities. -/
theorem resolve_repo_narrows_iff (sha256 : List Text → Text)
    (global squadGlobal : Option PrerequisitesConfig) (repo : PrerequisitesConfig)
    (remoteSession : Bool) :
    RepoNarrows repo
        (PrerequisitePolicyLayers.resolve sha256 { global, squadGlobal, remoteSession })
        (PrerequisitePolicyLayers.resolve sha256
          { global, squadGlobal, repo := some repo, remoteSession }) ↔
      ¬ (PrerequisitePolicyLayers.DeniesIdentity { global, squadGlobal } ∧ repo.GivesIdentity) := by
  have hiff := repoNarrows_iff sha256
    (PrerequisitePolicyLayers.operator sha256 { global, squadGlobal, remoteSession }) repo
  rw [operator_deny_iff] at hiff
  constructor
  · rintro hnarrows ⟨hdenies, identity, hidentity, hfixed, huse⟩
    have hdenied := hnarrows.denied.1
    unfold PrerequisitePolicyLayers.resolve at hdenied
    rw [applyFlags_none, applyFlags_none] at hdenied
    simp only [restrictRemote_cases] at hdenied
    have hwithin := hdenied ((operator_deny_iff sha256 _).mpr hdenies)
    rcases huse with huse | huse
    · rw [applyRepo_identity_of_gives sha256 _ repo hidentity hfixed huse] at hwithin
      cases hwithin
    · rw [applyRepo_identity_of_gives sha256 _ repo hidentity hfixed huse] at hwithin
      cases hwithin
  · intro hallowed
    exact (hiff.mpr hallowed).restrictRemote { global, squadGlobal, remoteSession }

/-- A repository brings an identity although the operator denies identities. -/
theorem resolve_repo_widens :
    ¬ ∀ (sha256 : List Text → Text) (global squadGlobal : Option PrerequisitesConfig)
      (repo : PrerequisitesConfig) (remoteSession : Bool),
      RepoNarrows repo
        (PrerequisitePolicyLayers.resolve sha256 { global, squadGlobal, remoteSession })
        (PrerequisitePolicyLayers.resolve sha256
          { global, squadGlobal, repo := some repo, remoteSession }) := by
  intro hall
  have hnarrows := hall (fun _ => [])
    (some { gitIdentity := some { use := some .deny } }) none
    { gitIdentity := some
        { use := some .ask, name := some "Bot".toList, email := some "bot@example.test".toList } }
    false
  have hdenied := hnarrows.denied.1 rfl
  cases hdenied

/-! ## Remote clients -/

/-- The identity of the host may be used without a question. -/
def PrerequisitePolicy.PermitsHostIdentity (policy : PrerequisitePolicy) : Prop :=
  policy.gitIdentity.use = .allow ∧ policy.gitIdentity.fixed = none

/-- The key may be used without a question. -/
def PrerequisitePolicy.PermitsKey (policy : PrerequisitePolicy) (key : HostPath) : Prop :=
  policy.ssh.use = .allow ∧ policy.ssh.key = some key ∧ policy.ssh.keyIsSuggestion = false

/-- The directory of all keys may be used without a question. -/
def PrerequisitePolicy.PermitsKeyDir (policy : PrerequisitePolicy) : Prop :=
  policy.ssh.use = .allow ∧ policy.ssh.wholeDir = true

/-- The token in the variable may be used without a question. -/
def PrerequisitePolicy.PermitsVar (policy : PrerequisitePolicy) (var : Text) : Prop :=
  policy.githubToken.use = .allow ∧ var ∈ policy.githubToken.envVars

/-- The command may acquire a token without a question. -/
def PrerequisitePolicy.PermitsAcquire (policy : PrerequisitePolicy) (acquire : AcquirePolicy) :
    Prop :=
  policy.githubToken.use = .allow ∧ policy.githubToken.acquire = some acquire

/-- The first policy permits the identity of the host only if the second does. -/
def IdentityWithin (policy ceiling : PrerequisitePolicy) : Prop :=
  policy.PermitsHostIdentity → ceiling.PermitsHostIdentity

/-- The first policy permits only the keys that the second does. -/
def SshWithin (policy ceiling : PrerequisitePolicy) : Prop :=
  (∀ key, policy.PermitsKey key → ceiling.PermitsKey key) ∧
    (policy.PermitsKeyDir → ceiling.PermitsKeyDir)

/-- The first policy permits only the variables and commands that the second does. -/
def TokenWithin (policy ceiling : PrerequisitePolicy) : Prop :=
  (∀ var, policy.PermitsVar var → ceiling.PermitsVar var) ∧
    ∀ acquire, policy.PermitsAcquire acquire → ceiling.PermitsAcquire acquire

/-- The client asks for the identity of the host where the operator gives another one. -/
def ReplacesIdentity (identity : Option IdentityFlag) (ceiling : PrerequisitePolicy) : Prop :=
  identity = some .host ∧ ceiling.gitIdentity.fixed.isSome = true

/-- What the check of the flags of a remote client lets through. -/
theorem checkFlagWidening_ok {kind : FrontendKind} {flags : PrerequisiteFlags}
    {ceiling : PrerequisitePolicy} (hremote : kind.isLocalUser = false)
    (hgrants : ceiling.allowApiClientGrants = false)
    (haccepted : checkFlagWidening kind flags ceiling = .ok ()) :
    (flags.identity = some .host → ceiling.gitIdentity.use = .allow) ∧
    (flags.ssh = some .all → ceiling.PermitsKeyDir) ∧
    (∀ path, flags.ssh = some (.key path) → ceiling.PermitsKey path) ∧
    (∀ name, flags.token = some (.env name) → ceiling.PermitsVar name) ∧
    (flags.token = some .acquire → ceiling.githubToken.use = .allow ∧
      ceiling.githubToken.acquire.any (·.scope = .global) = true) ∧
    ∀ name, flags.token ≠ some (.secret name) := by
  unfold checkFlagWidening at haccepted
  dsimp only at haccepted
  rw [if_neg (by simp [hremote, hgrants])] at haccepted
  obtain ⟨⟨⟩, hidentity, haccepted⟩ := bind_eq_ok.mp haccepted
  obtain ⟨⟨⟩, hssh, haccepted⟩ := bind_eq_ok.mp haccepted
  obtain ⟨⟨⟩, htoken, -⟩ := bind_eq_ok.mp haccepted
  unfold PrerequisitePolicy.PermitsKeyDir PrerequisitePolicy.PermitsKey
    PrerequisitePolicy.PermitsVar
  refine ⟨?_, ?_, ?_, ?_, ?_, ?_⟩
  · intro hflag
    by_contra hnot
    rw [hflag] at hidentity
    dsimp only at hidentity
    rw [if_pos hnot] at hidentity
    cases hidentity
  · intro hflag
    by_contra hnot
    rw [hflag] at hssh
    dsimp only at hssh
    rw [if_neg hnot] at hssh
    cases hssh
  · intro path hflag
    by_contra hnot
    rw [hflag] at hssh
    dsimp only at hssh
    rw [if_neg hnot] at hssh
    cases hssh
  · intro name hflag
    by_contra hnot
    rw [hflag] at htoken
    dsimp only at htoken
    rw [if_neg hnot] at htoken
    cases htoken
  · intro hflag
    by_contra hnot
    rw [hflag] at htoken
    dsimp only at htoken
    rw [if_neg hnot] at htoken
    cases htoken
  · intro name hflag
    rw [hflag] at htoken
    cases htoken

section flags

variable {flags : PrerequisiteFlags} {ceiling : PrerequisitePolicy} {kind : FrontendKind}

section

variable (hremote : kind.isLocalUser = false) (hgrants : ceiling.allowApiClientGrants = false)
  (haccepted : checkFlagWidening kind flags ceiling = .ok ())
include hremote hgrants haccepted

/-- Accepted flags permit only the keys that the ceiling does. -/
theorem sshWithin_applyFlags :
    SshWithin (ceiling.applyFlags flags) ceiling := by
  obtain ⟨-, hall, hkey, -⟩ := checkFlagWidening_ok hremote hgrants haccepted
  unfold SshWithin PrerequisitePolicy.PermitsKey PrerequisitePolicy.PermitsKeyDir
    PrerequisitePolicy.applyFlags
  cases hflag : flags.ssh with
  | none => exact ⟨fun key h => h, fun h => h⟩
  | some flag =>
    cases flag with
    | key path =>
      constructor
      · rintro key ⟨-, hsome, -⟩
        cases hsome
        exact hkey path hflag
      · rintro ⟨-, hdir⟩
        cases hdir
    | all =>
      constructor
      · rintro key ⟨-, hsome, -⟩
        cases hsome
      · intro _
        exact hall hflag
    | deny =>
      constructor
      · rintro key ⟨huse, -⟩
        cases huse
      · rintro ⟨huse, -⟩
        cases huse

/-- Accepted flags permit only the variables and commands that the ceiling does. -/
theorem tokenWithin_applyFlags :
    TokenWithin (ceiling.applyFlags flags) ceiling := by
  obtain ⟨-, -, -, hvar, hacquire, hsecret⟩ := checkFlagWidening_ok hremote hgrants haccepted
  unfold TokenWithin PrerequisitePolicy.PermitsVar PrerequisitePolicy.PermitsAcquire
    PrerequisitePolicy.applyFlags
  cases hflag : flags.token with
  | none => exact ⟨fun var h => h, fun acquire h => h⟩
  | some flag =>
    cases flag with
    | env name =>
      constructor
      · rintro var ⟨-, hmem⟩
        rw [List.mem_singleton.mp hmem]
        exact hvar name hflag
      · rintro acquire ⟨-, hsome⟩
        cases hsome
    | acquire =>
      constructor
      · rintro var ⟨-, hmem⟩
        cases hmem
      · rintro acquire ⟨-, hsome⟩
        exact ⟨(hacquire hflag).1, hsome⟩
    | secret name => exact absurd hflag (hsecret name)
    | deny =>
      constructor
      · rintro var ⟨huse, -⟩
        cases huse
      · rintro acquire ⟨huse, -⟩
        cases huse

/-- Accepted flags permit the identity of the host only if the ceiling does, unless they ask for it in
place of another identity. -/
theorem identityWithin_applyFlags_iff :
    IdentityWithin (ceiling.applyFlags flags) ceiling ↔
      ¬ ReplacesIdentity flags.identity ceiling := by
  obtain ⟨hhost, -⟩ := checkFlagWidening_ok hremote hgrants haccepted
  unfold IdentityWithin PrerequisitePolicy.PermitsHostIdentity ReplacesIdentity
    PrerequisitePolicy.applyFlags
  cases hflag : flags.identity with
  | none => simp
  | some flag =>
    cases flag with
    | host =>
      have huse := hhost hflag
      constructor
      · rintro hwithin ⟨-, hfixed⟩
        have hnone := (hwithin ⟨rfl, rfl⟩).2
        rw [hnone] at hfixed
        cases hfixed
      · intro hallowed _
        refine ⟨huse, ?_⟩
        rw [← Option.not_isSome_iff_eq_none]
        intro hfixed
        exact hallowed ⟨rfl, hfixed⟩
    | fixed name email =>
      constructor
      · rintro - ⟨hsame, -⟩
        cases hsame
      · rintro - ⟨-, hnone⟩
        cases hnone
    | deny =>
      constructor
      · rintro - ⟨hsame, -⟩
        cases hsame
      · rintro - ⟨huse, -⟩
        cases huse

end

end flags

/-! ## Tasks of remote clients -/

/-- The decisions a task can hold: those of a user of the host, those of a remote client, and edits of
either kind. -/
inductive StoredTask : PrerequisitePolicy → Prop
  | user (policy : PrerequisitePolicy) (hidentity : policy.gitIdentity.source ≠ .remoteTask)
      (hssh : policy.ssh.source ≠ .remoteTask) (htoken : policy.githubToken.source ≠ .remoteTask) :
      StoredTask policy
  | remote (flags : PrerequisiteFlags) : StoredTask (PrerequisitePolicy.fromFlags flags).remote
  | edited {task edit : PrerequisitePolicy} (htask : StoredTask task) (hedit : StoredTask edit) :
      StoredTask (task.editedTask edit)

/-- The decision is that of a remote client, or was never made. -/
def FromClient (source : PolicySource) : Prop := source = .remoteTask ∨ source = .default

/-- What the remote decisions of a task look like. -/
structure RemoteShape (task : PrerequisitePolicy) : Prop where
  /-- A decision about SSH keys is that of a flag. -/
  ssh : task.ssh.source = .remoteTask →
    ∃ flag, task.ssh = { SshPolicy.applyFlag flag with source := .remoteTask }
  token : task.githubToken.source = .remoteTask → ∃ flag,
    task.githubToken.use = ((default : PrerequisitePolicy).githubToken.applyFlag flag).use ∧
    task.githubToken.envVars = ((default : PrerequisitePolicy).githubToken.applyFlag flag).envVars

theorem taskSource_eq_remoteTask {source : PolicySource} :
    PrerequisitePolicy.taskSource source = .remoteTask ↔ source = .remoteTask := by
  cases source <;> decide

/-- The remote decisions of a task are those of flags. -/
theorem StoredTask.remoteShape {task : PrerequisitePolicy} (hstored : StoredTask task) :
    RemoteShape task := by
  induction hstored with
  | user policy hidentity hssh htoken =>
    exact ⟨fun hremote => absurd hremote hssh, fun hremote => absurd hremote htoken⟩
  | remote flags =>
    constructor
    all_goals
      unfold PrerequisitePolicy.remote PrerequisitePolicy.fromFlags PrerequisitePolicy.applyFlags
      intro hremote
    · cases hflag : flags.ssh with
      | none =>
        rw [hflag] at hremote
        cases hremote
      | some flag => exact ⟨flag, by cases flag <;> rfl⟩
    · cases hflag : flags.token with
      | none =>
        rw [hflag] at hremote
        cases hremote
      | some flag => exact ⟨flag, rfl, rfl⟩
  | @edited task edit _ _ ihTask ihEdit =>
    constructor
    · intro hremote
      by_cases hmade : edit.ssh.source ≠ .default
      · have hssh : (task.editedTask edit).ssh =
            { edit.ssh with source := PrerequisitePolicy.taskSource edit.ssh.source } :=
          if_pos hmade
        rw [hssh] at hremote ⊢
        have hsource := taskSource_eq_remoteTask.mp hremote
        obtain ⟨flag, hflag⟩ := ihEdit.ssh hsource
        refine ⟨flag, ?_⟩
        rw [hflag]
        rfl
      · have hssh : (task.editedTask edit).ssh = task.ssh := if_neg hmade
        rw [hssh] at hremote ⊢
        exact ihTask.ssh hremote
    · intro hremote
      by_cases hmade : edit.githubToken.source ≠ .default
      · have htoken : (task.editedTask edit).githubToken =
            { edit.githubToken with
              acquire := task.githubToken.acquire.filter (·.scope = .global)
              source := PrerequisitePolicy.taskSource edit.githubToken.source } := if_pos hmade
        rw [htoken] at hremote ⊢
        exact ihEdit.token (taskSource_eq_remoteTask.mp hremote)
      · have htoken : (task.editedTask edit).githubToken = task.githubToken := if_neg hmade
        rw [htoken] at hremote ⊢
        exact ihTask.token hremote

section tasks

variable {policy task ceiling : PrerequisitePolicy}

/-- The keys of an accepted task are those of the ceiling. -/
theorem sshWithin_applyTask (hshape : RemoteShape task) (hgrants : ceiling.allowApiClientGrants = false)
    (haccepted : checkTaskWidening task ceiling = .ok ()) (hclient : FromClient task.ssh.source)
    (hpolicy : policy.ssh = ceiling.ssh) : SshWithin (policy.applyTask task) ceiling := by
  obtain ⟨-, hall, hkey, -⟩ := checkFlagWidening_ok rfl hgrants haccepted
  unfold SshWithin PrerequisitePolicy.PermitsKey PrerequisitePolicy.PermitsKeyDir
  rcases hclient with hremote | hdefault
  · obtain ⟨flag, hflag⟩ := hshape.ssh hremote
    have hssh : (policy.applyTask task).ssh =
        { task.ssh with source := PrerequisitePolicy.taskSource task.ssh.source } :=
      if_pos (by rw [hremote]; decide)
    rw [hssh, hflag]
    have hgranted : task.remoteFlags.ssh =
        if task.ssh.source = .remoteTask ∧ task.ssh.use = .allow then
          if task.ssh.wholeDir then some .all else task.ssh.key.map .key
        else none := rfl
    rw [hflag] at hgranted
    cases flag with
    | key path =>
      constructor
      · rintro key ⟨-, hsome, -⟩
        cases hsome
        exact hkey path hgranted
      · rintro ⟨-, hdir⟩
        cases hdir
    | all =>
      constructor
      · rintro key ⟨-, hsome, -⟩
        cases hsome
      · intro _
        exact hall hgranted
    | deny =>
      constructor
      · rintro key ⟨huse, -⟩
        cases huse
      · rintro ⟨huse, -⟩
        cases huse
  · have hssh : (policy.applyTask task).ssh = policy.ssh := if_neg (by simp [hdefault])
    rw [hssh, hpolicy]
    exact ⟨fun key h => h, fun h => h⟩

/-- The variables and commands of an accepted task are those of the ceiling. -/
theorem tokenWithin_applyTask (hshape : RemoteShape task) (hgrants : ceiling.allowApiClientGrants = false)
    (haccepted : checkTaskWidening task ceiling = .ok ()) (hclient : FromClient task.githubToken.source)
    (hpolicy : policy.githubToken = ceiling.githubToken) :
    TokenWithin (policy.applyTask task) ceiling := by
  obtain ⟨-, -, -, hvar, hacquire, hsecret⟩ := checkFlagWidening_ok rfl hgrants haccepted
  unfold TokenWithin PrerequisitePolicy.PermitsVar PrerequisitePolicy.PermitsAcquire
  rcases hclient with hremote | hdefault
  · obtain ⟨flag, huse, hvars⟩ := hshape.token hremote
    have htoken : (policy.applyTask task).githubToken =
        { task.githubToken with
          acquire := policy.githubToken.acquire.filter (·.scope = .global)
          source := PrerequisitePolicy.taskSource task.githubToken.source } :=
      if_pos (by rw [hremote]; decide)
    rw [htoken, hpolicy]
    dsimp only
    have hgranted (hallow : task.githubToken.use = .allow) : task.remoteFlags.token = _ :=
      if_pos ⟨hremote, hallow⟩
    rw [hvars] at hgranted ⊢
    rw [huse] at hgranted ⊢
    have hpermitted : ((default : PrerequisitePolicy).githubToken.applyFlag flag).use = .allow →
        ceiling.githubToken.use = .allow ∧
          ∀ var ∈ ((default : PrerequisitePolicy).githubToken.applyFlag flag).envVars,
            var ∈ ceiling.githubToken.envVars := by
      intro hallow
      have hflag := hgranted hallow
      cases flag with
      | env name =>
        have hceiling := hvar name hflag
        refine ⟨hceiling.1, ?_⟩
        intro var hmem
        rw [List.mem_singleton.mp hmem]
        exact hceiling.2
      | acquire | secret =>
        refine ⟨(hacquire hflag).1, ?_⟩
        intro var hmem
        cases hmem
      | deny => cases hallow
    constructor
    · rintro var ⟨hallow, hmem⟩
      exact ⟨(hpermitted hallow).1, (hpermitted hallow).2 var hmem⟩
    · rintro acquire ⟨hallow, hsome⟩
      rw [Option.filter_eq_some_iff] at hsome
      exact ⟨(hpermitted hallow).1, hsome.1⟩
  · have htoken : (policy.applyTask task).githubToken = policy.githubToken :=
      if_neg (by simp [hdefault])
    rw [htoken, hpolicy]
    exact ⟨fun var h => h, fun acquire h => h⟩

/-- The identity of an accepted task is that of the ceiling, unless it is asked for in place of another
one. -/
theorem identityWithin_applyTask_iff (hgrants : ceiling.allowApiClientGrants = false)
    (haccepted : checkTaskWidening task ceiling = .ok ())
    (hpolicy : policy.gitIdentity = ceiling.gitIdentity) :
    (FromClient task.gitIdentity.source → IdentityWithin (policy.applyTask task) ceiling) ↔
      ¬ ReplacesIdentity task.remoteFlags.identity ceiling := by
  obtain ⟨hhost, -⟩ := checkFlagWidening_ok rfl hgrants haccepted
  unfold IdentityWithin PrerequisitePolicy.PermitsHostIdentity ReplacesIdentity
  by_cases hremote : task.gitIdentity.source = .remoteTask
  · have hidentity : (policy.applyTask task).gitIdentity =
        { task.gitIdentity with
          source := PrerequisitePolicy.taskSource task.gitIdentity.source } :=
      if_pos (by rw [hremote]; decide)
    rw [hidentity]
    dsimp only
    by_cases hgiven : task.gitIdentity.use = .allow ∧ task.gitIdentity.fixed = none
    · have hflag : task.remoteFlags.identity = some .host := by
        have hgranted : task.remoteFlags.identity = _ := if_pos ⟨hremote, hgiven.1⟩
        rw [hgranted, hgiven.2]
      constructor
      · rintro hwithin ⟨-, hfixed⟩
        have hnone := (hwithin (.inl hremote) hgiven).2
        rw [hnone] at hfixed
        cases hfixed
      · intro hallowed _ _
        refine ⟨hhost hflag, ?_⟩
        rw [← Option.not_isSome_iff_eq_none]
        intro hfixed
        exact hallowed ⟨hflag, hfixed⟩
    · constructor
      · rintro - ⟨hflag, -⟩
        apply hgiven
        unfold PrerequisitePolicy.remoteFlags at hflag
        dsimp only at hflag
        split at hflag
        case isTrue hallow =>
          refine ⟨hallow.2, ?_⟩
          cases hfixed : task.gitIdentity.fixed with
          | none => rfl
          | some fixed =>
            rw [hfixed] at hflag
            cases hflag
        case isFalse => cases hflag
      · rintro - _ hpermits
        exact absurd hpermits hgiven
  · have hflag : task.remoteFlags.identity = none := if_neg (fun h => hremote h.1)
    constructor
    · rintro - ⟨hsome, -⟩
      rw [hflag] at hsome
      cases hsome
    · rintro - hclient
      have hdefault : task.gitIdentity.source = .default := by
        rcases hclient with hclient | hclient
        · exact absurd hclient hremote
        · exact hclient
      have hidentity : (policy.applyTask task).gitIdentity = policy.gitIdentity :=
        if_neg (by simp [hdefault])
      rw [hidentity, hpolicy]
      exact fun h => h

end tasks

/-- The policy of the server, without the flags of a request and the decisions of a task. -/
def PrerequisitePolicyLayers.server (sha256 : List Text → Text)
    (layers : PrerequisitePolicyLayers) : PrerequisitePolicy :=
  PrerequisitePolicyLayers.resolve sha256 { layers with task := none, flags := {} }

/-- Flags and tasks of remote clients that pass the checks permit only what the server does, unless
they ask for the identity of the host where the server gives another one. -/
theorem resolve_remote_narrows_iff (sha256 : List Text → Text) (layers : PrerequisitePolicyLayers)
    (hgrants : (layers.server sha256).allowApiClientGrants = false) :
    (∀ (kind : FrontendKind) (flags : PrerequisiteFlags), kind.isLocalUser = false →
      checkFlagWidening kind flags (layers.server sha256) = .ok () →
        (IdentityWithin (PrerequisitePolicyLayers.resolve sha256 { layers with task := none, flags })
            (layers.server sha256) ∧
          SshWithin (PrerequisitePolicyLayers.resolve sha256 { layers with task := none, flags })
            (layers.server sha256) ∧
          TokenWithin (PrerequisitePolicyLayers.resolve sha256 { layers with task := none, flags })
            (layers.server sha256) ↔
          ¬ ReplacesIdentity flags.identity (layers.server sha256))) ∧
    ∀ task : PrerequisitePolicy, StoredTask task →
      checkTaskWidening task (layers.server sha256) = .ok () →
        ((FromClient task.gitIdentity.source → IdentityWithin
            (PrerequisitePolicyLayers.resolve sha256 { layers with task := some task, flags := {} })
            (layers.server sha256)) ∧
          (FromClient task.ssh.source → SshWithin
            (PrerequisitePolicyLayers.resolve sha256 { layers with task := some task, flags := {} })
            (layers.server sha256)) ∧
          (FromClient task.githubToken.source → TokenWithin
            (PrerequisitePolicyLayers.resolve sha256 { layers with task := some task, flags := {} })
            (layers.server sha256)) ↔
          ¬ ReplacesIdentity task.remoteFlags.identity (layers.server sha256)) := by
  constructor
  · intro kind flags hremote haccepted
    have hflags : PrerequisitePolicyLayers.resolve sha256 { layers with task := none, flags } =
        (layers.server sha256).applyFlags flags := rfl
    rw [hflags, identityWithin_applyFlags_iff hremote hgrants haccepted]
    constructor
    · intro hwithin
      exact hwithin.1
    · intro hallowed
      exact ⟨hallowed, sshWithin_applyFlags hremote hgrants haccepted,
        tokenWithin_applyFlags hremote hgrants haccepted⟩
  · intro task hstored haccepted
    have hshape := hstored.remoteShape
    obtain ⟨base, hserver, hresolved⟩ : ∃ base : PrerequisitePolicy,
        layers.server sha256 = layers.restrictRemote base ∧
        PrerequisitePolicyLayers.resolve sha256 { layers with task := some task, flags := {} } =
          layers.restrictRemote (base.applyTask task) :=
      ⟨_, rfl, rfl⟩
    have hidentity := @identityWithin_applyTask_iff base task _ hgrants haccepted (by
      rw [hserver, restrictRemote_cases])
    have htoken : FromClient task.githubToken.source →
        TokenWithin (base.applyTask task) (layers.server sha256) := by
      intro hclient
      exact tokenWithin_applyTask hshape hgrants haccepted hclient (by
        rw [hserver, restrictRemote_cases])
    have hssh : FromClient task.ssh.source →
        SshWithin (layers.restrictRemote (base.applyTask task)) (layers.server sha256) := by
      intro hclient
      by_cases hremote : layers.remoteSession ∧ ¬ layers.globalSshAllow
      · have hdeny : (layers.restrictRemote (base.applyTask task)).ssh.use = .deny := by
          rw [restrictRemote_cases]
          exact if_pos hremote
        constructor
        · rintro key ⟨huse, -⟩
          rw [hdeny] at huse
          cases huse
        · rintro ⟨huse, -⟩
          rw [hdeny] at huse
          cases huse
      · have hsame : ∀ policy, layers.restrictRemote policy = policy := by
          intro policy
          exact if_neg hremote
        rw [hsame]
        exact sshWithin_applyTask hshape hgrants haccepted hclient (by rw [hserver, hsame])
    rw [hresolved, ← hidentity]
    rw [restrictRemote_cases] at hssh ⊢
    constructor
    · intro hwithin
      exact hwithin.1
    · intro hwithin
      exact ⟨hwithin, hssh, htoken⟩

/-- A server whose runs commit as a bot. -/
def botServer : PrerequisitePolicyLayers where
  global := some
    { gitIdentity := some { use := some .allow, name := some "Bot".toList,
                            email := some "bot@example.test".toList } }

/-- A task whose client lets it use no SSH key. -/
def keylessTask : PrerequisitePolicy :=
  (PrerequisitePolicy.fromFlags { ssh := some .deny }).remote

theorem resolve_remote_narrows_bot :
    (IdentityWithin (PrerequisitePolicyLayers.resolve (fun _ => [])
        { botServer with task := none, flags := { ssh := some .deny } })
        (botServer.server fun _ => []) ∧
      SshWithin (PrerequisitePolicyLayers.resolve (fun _ => [])
        { botServer with task := none, flags := { ssh := some .deny } })
        (botServer.server fun _ => []) ∧
      TokenWithin (PrerequisitePolicyLayers.resolve (fun _ => [])
        { botServer with task := none, flags := { ssh := some .deny } })
        (botServer.server fun _ => [])) ∧
    (FromClient keylessTask.ssh.source → SshWithin (PrerequisitePolicyLayers.resolve (fun _ => [])
        { botServer with task := some keylessTask, flags := {} })
        (botServer.server fun _ => [])) := by
  have hnarrows := resolve_remote_narrows_iff (fun _ => []) botServer rfl
  have hflags := hnarrows.1 .squadDaemon { ssh := some .deny } rfl rfl
  have htask := hnarrows.2 keylessTask (.remote { ssh := some .deny }) rfl
  constructor
  · apply hflags.mpr
    rintro ⟨hsame, -⟩
    cases hsame
  · refine (htask.mpr ?_).2.1
    rintro ⟨hsame, -⟩
    cases hsame

/-- A client makes the runs of the server commit as its host. -/
theorem resolve_remote_widens :
    ¬ ∀ (sha256 : List Text → Text) (layers : PrerequisitePolicyLayers) (kind : FrontendKind)
      (flags : PrerequisiteFlags), (layers.server sha256).allowApiClientGrants = false →
        kind.isLocalUser = false → checkFlagWidening kind flags (layers.server sha256) = .ok () →
          IdentityWithin (PrerequisitePolicyLayers.resolve sha256 { layers with task := none, flags })
            (layers.server sha256) := by
  intro hall
  have hwithin := hall (fun _ => []) botServer .api { identity := some .host } rfl rfl rfl
  have hhost := hwithin ⟨rfl, rfl⟩
  cases hhost.2

end Awman.Squad
