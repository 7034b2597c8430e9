import Awman.PrerequisiteOrder

/-!
# Consent in a run

The policy of a run is resolved from layers, and two of its decisions are asked for again when a
generated workflow pushes elsewhere.  Whatever the configuration of the repository says, the run is
allowed no key and no token that it would not be allowed without it.  Whether every credential is
decided in the documented order depends on the identity alone.
-/

namespace Awman.Consent

open Awman.Grants (GrantRecord)
open Awman.Overlay (HostPath)
open Awman.Interaction
open Awman.Squad Awman.RawArgs

/-! ## What the policy of a run allows -/

section allowing

variable {without within policy ceiling : PrerequisitePolicy}

theorem sshWithin_of_eq (h : policy.ssh = ceiling.ssh) : SshWithin policy ceiling := by
  unfold SshWithin PrerequisitePolicy.PermitsKey PrerequisitePolicy.PermitsKeyDir
  rw [h]
  exact ⟨fun _ hkey => hkey, fun hdir => hdir⟩

theorem sshWithin_congr (h : SshWithin within without) (hpolicy : policy.ssh = within.ssh)
    (hceiling : ceiling.ssh = without.ssh) : SshWithin policy ceiling := by
  unfold SshWithin PrerequisitePolicy.PermitsKey PrerequisitePolicy.PermitsKeyDir
  rw [hpolicy, hceiling]
  exact h

theorem TokensWithin.refl (policy : TokenPolicy) : TokensWithin policy policy :=
  ⟨fun huse => huse, fun _ hvar _ => hvar, fun _ hacquire => Or.inl hacquire⟩

theorem eq_allow_of_le {first second : CredentialUse} (hle : first ≤ second) (hallow : first = .allow) :
    second = .allow := by
  subst hallow
  revert hle
  cases second <;> decide

/-- The block of a repository allows nothing more. -/
theorem AllowsWithin.applyRepo (sha256 : List Text → Text) (policy : PrerequisitePolicy)
    (config : PrerequisitesConfig) :
    AllowsWithin policy (policy.applyConfig sha256 config .repo true) := by
  obtain ⟨hsshUse, hkey, hdir⟩ := applyRepo_ssh sha256 policy config
  have htoken := applyRepo_token sha256 policy config
  constructor
  · constructor
    · intro key hpermits
      obtain ⟨huse, hsome, hreal⟩ := hpermits
      rcases hkey with hsuggestion | ⟨hsameKey, hsameReal⟩
      · rw [hsuggestion] at hreal
        cases hreal
      · rw [hsameKey] at hsome
        rw [hsameReal] at hreal
        exact ⟨eq_allow_of_le hsshUse huse, hsome, hreal⟩
    · intro hpermits
      exact ⟨eq_allow_of_le hsshUse hpermits.1, hdir hpermits.2⟩
  · exact ⟨eq_allow_of_le htoken.use, fun var hvar _ => htoken.envVars var hvar, htoken.acquire⟩

/-- The decisions of a task override those of both policies; a command is that of the operator. -/
theorem AllowsWithin.applyTask (h : AllowsWithin without within) (task : PrerequisitePolicy) :
    AllowsWithin (without.applyTask task) (within.applyTask task) := by
  constructor
  · by_cases hdecided : task.ssh.source ≠ .default
    · have hwithin : (within.applyTask task).ssh = _ := if_pos hdecided
      have hwithout : (without.applyTask task).ssh = _ := if_pos hdecided
      exact sshWithin_of_eq (hwithin.trans hwithout.symm)
    · exact sshWithin_congr h.ssh (if_neg hdecided) (if_neg hdecided)
  · by_cases hdecided : task.githubToken.source ≠ .default
    · have hwithin : (within.applyTask task).githubToken = _ := if_pos hdecided
      have hwithout : (without.applyTask task).githubToken = _ := if_pos hdecided
      rw [hwithin, hwithout]
      refine ⟨fun huse => huse, fun _ hvar _ => hvar, ?_⟩
      intro acquire hacquire
      obtain ⟨hsome, hscope⟩ := Option.filter_eq_some_iff.mp hacquire
      rcases h.token.acquire acquire hsome with hsame | hrepo
      · exact Or.inl (Option.filter_eq_some_iff.mpr ⟨hsame, hscope⟩)
      · exact Or.inr hrepo
    · have hwithin : (within.applyTask task).githubToken = within.githubToken := if_neg hdecided
      have hwithout : (without.applyTask task).githubToken = without.githubToken :=
        if_neg hdecided
      rw [hwithin, hwithout]
      exact h.token

/-- Denying SSH keys to a remote session allows less. -/
theorem AllowsWithin.restrictRemote (h : AllowsWithin without within)
    (layers : PrerequisitePolicyLayers) :
    AllowsWithin (layers.restrictRemote without) (layers.restrictRemote within) := by
  unfold PrerequisitePolicyLayers.restrictRemote
  split
  · refine ⟨⟨?_, ?_⟩, h.token⟩
    · intro key hpermits
      cases hpermits.1
    · intro hpermits
      cases hpermits.1
  · exact h

/-- Flags override both policies in the same way. -/
theorem AllowsWithin.applyFlags (h : AllowsWithin without within) (flags : PrerequisiteFlags) :
    AllowsWithin (without.applyFlags flags) (within.applyFlags flags) := by
  constructor
  · cases hssh : flags.ssh with
    | none =>
      refine sshWithin_congr h.ssh ?_ ?_
      · simp [PrerequisitePolicy.applyFlags, hssh]
      · simp [PrerequisitePolicy.applyFlags, hssh]
    | some flag =>
      apply sshWithin_of_eq
      simp [PrerequisitePolicy.applyFlags, hssh]
  · cases htoken : flags.token with
    | none => simpa [PrerequisitePolicy.applyFlags, htoken] using h.token
    | some flag =>
      have happlied : TokensWithin (without.githubToken.applyFlag flag)
          (within.githubToken.applyFlag flag) := by
        have hdenied : ¬ CredentialUse.deny = .allow := by decide
        cases flag with
        | env name | secret name =>
          refine ⟨fun huse => huse, fun _ hvar _ => hvar, ?_⟩
          intro acquire hnone
          cases hnone
        | acquire => exact ⟨fun huse => huse, fun _ hvar _ => hvar, h.token.acquire⟩
        | deny => exact ⟨fun huse => huse, fun _ _ huse => absurd huse hdenied, h.token.acquire⟩
      simpa [PrerequisitePolicy.applyFlags, htoken] using happlied

end allowing

/-! ## The flow of a run -/

namespace WorkflowPrerequisiteFlow

/-- The flow of a run whose policy is resolved from layers. -/
def forSession (sha256 : List Text → Text) (layers : PrerequisitePolicyLayers) (host : Host)
    (canAsk : Bool) : WorkflowPrerequisiteFlow where
  host
  policy := layers.resolve sha256
  flags := layers.flags
  canAsk

/-- A generated workflow uses keys, or tokens, for other remotes: they are to be asked for again. -/
def reauthorize (flow : WorkflowPrerequisiteFlow) (changedSsh changedToken : Bool) :
    WorkflowPrerequisiteFlow :=
  { flow with
    flags := { flow.flags with
      ssh := if changedSsh then none else flow.flags.ssh
      token := if changedToken then none else flow.flags.token }
    policy := { flow.policy with
      ssh := { flow.policy.ssh with
        use := if changedSsh then .ask else flow.policy.ssh.use }
      githubToken := { flow.policy.githubToken with
        use := if changedToken then .ask else flow.policy.githubToken.use } } }

end WorkflowPrerequisiteFlow

/-- The policy of a run without the configuration of the repository. -/
def withoutRepo (sha256 : List Text → Text) (layers : PrerequisitePolicyLayers) :
    PrerequisitePolicy :=
  PrerequisitePolicyLayers.resolve sha256 { layers with repo := none }

/-- The configuration of the repository lets a run use nothing more. -/
theorem resolve_allowsWithin (sha256 : List Text → Text) (layers : PrerequisitePolicyLayers) :
    AllowsWithin (withoutRepo sha256 layers) (layers.resolve sha256) := by
  unfold withoutRepo PrerequisitePolicyLayers.resolve
  dsimp only
  refine AllowsWithin.applyFlags (AllowsWithin.restrictRemote ?_ layers) layers.flags
  cases layers.repo with
  | none =>
    have hrepo : AllowsWithin (layers.operator sha256) (layers.operator sha256) :=
      ⟨sshWithin_of_eq rfl, .refl _⟩
    cases layers.task with
    | none => exact hrepo
    | some task => exact hrepo.applyTask task
  | some config =>
    have hrepo := AllowsWithin.applyRepo sha256 (layers.operator sha256) config
    cases layers.task with
    | none => exact hrepo
    | some task => exact hrepo.applyTask task

/-- Asking again lets a run use less. -/
theorem reauthorize_allowsWithin {flow : WorkflowPrerequisiteFlow} {without : PrerequisitePolicy}
    (h : AllowsWithin without flow.policy) (changedSsh changedToken : Bool) :
    AllowsWithin without (flow.reauthorize changedSsh changedToken).policy := by
  constructor
  · cases changedSsh with
    | false => exact h.ssh
    | true =>
      constructor
      · intro key hpermits
        cases hpermits.1
      · intro hpermits
        cases hpermits.1
  · cases changedToken with
    | false => exact h.token
    | true =>
      have hasked : ¬ CredentialUse.ask = .allow := by decide
      exact ⟨fun huse => absurd huse hasked, fun _ _ huse => absurd huse hasked, h.token.acquire⟩

/-! ## Consent -/

/-- What is promised about a run that decides about `checks`. -/
structure Consented (flow : WorkflowPrerequisiteFlow) (without : PrerequisitePolicy)
    (checks : List PrerequisiteCheck) (shows : Bool) (answers : List Answer) (start : Deciding) :
    Prop where
  order : flow.decide checks shows ⟨answers, start⟩ =
    flow.decideWith flow.documented checks shows ⟨answers, start⟩
  /-- Somebody named every key. -/
  ssh : ∀ outcome grant, (flow.decide checks shows ⟨answers, start⟩).1 = .ok outcome →
    outcome.grants.ssh = some grant → start.grants.ssh = some grant ∨
      SshNamed flow without start (flow.decide checks shows ⟨answers, start⟩).2.state.log grant
  /-- Somebody named every token. -/
  token : ∀ outcome grant, (flow.decide checks shows ⟨answers, start⟩).1 = .ok outcome →
    outcome.grants.token = some grant → start.grants.token = some grant ∨
      TokenNamed flow without start (flow.decide checks shows ⟨answers, start⟩).2.state.log grant
  /-- The command of the repository runs only under an approved hash. -/
  approved : ∀ later sha256 earlier,
    (flow.decide checks shows ⟨answers, start⟩).2.state.log = later ++ .ran sha256 .repo :: earlier →
      sha256 ∈ start.trusted ∨ .reviewed sha256 .approve ∈ earlier

section consented

variable {flow : WorkflowPrerequisiteFlow} {without : PrerequisitePolicy} {start : Deciding}

theorem consented_of_not_preempts (start : Deciding) (hallows : AllowsWithin without flow.policy)
    (hunless : ¬ flow.Preempts start.store) (hlog : start.log = []) (checks : List PrerequisiteCheck)
    (shows : Bool) (answers : List Answer) :
    Consented flow without checks shows answers start := by
  have hbegins : Kept flow without start start := .begins flow without hlog
  have hkeeps : Keeps flow without start (fun _ => True) (flow.decide checks shows)
      fun outcome state => outcome.grants = state.grants :=
    decide_keeps hallows checks shows
  have hrun := hkeeps start hbegins trivial
  have hkept : Kept flow without start (flow.decide checks shows ⟨answers, start⟩).2.state :=
    hrun.everywhere (fun _ _ hafter => hafter.1) answers
  constructor
  · exact decide_inOrder hunless hallows checks shows ⟨answers, start⟩ hbegins
  · intro outcome grant hreturned hgrant
    have hgrants := (hrun.returned hreturned).2.2
    rw [hgrants] at hgrant
    exact hkept.ssh grant hgrant
  · intro outcome grant hreturned hgrant
    have hgrants := (hrun.returned hreturned).2.2
    rw [hgrants] at hgrant
    exact hkept.token grant hgrant
  · exact hkept.approved

/-- A report that says that no identity is there. -/
def identityMissing : List PrerequisiteCheck := [⟨.gitIdentity, .missing, "", []⟩]

theorem noteDestination_identity (prerequisite : WorkflowPrerequisite) (grants : PrerequisiteGrants) :
    (flow.noteDestination prerequisite grants).identity = grants.identity := by
  unfold WorkflowPrerequisiteFlow.noteDestination
  split
  · rfl
  split
  · split <;> rfl
  · split <;> rfl
  · split <;> rfl
  · rfl

/-- An identity that is granted is what a run with no other check comes to. -/
theorem decideWith_identityMissing {resolvers : WorkflowPrerequisiteFlow.Resolvers}
    {name email : Text} {source : IdentitySource}
    (hidentity : ∀ answers, resolvers.identity ⟨.gitIdentity, .missing, "", []⟩ ⟨answers, start⟩ =
      WorkflowPrerequisiteFlow.grantIdentity name email source ⟨answers, start⟩) :
    (flow.decideWith resolvers identityMissing false ⟨[], start⟩).2.state.grants.identity =
      some ⟨name, email, source⟩ := by
  have hgranted : Ensures (resolvers.identity ⟨.gitIdentity, .missing, "", []⟩) start
      (fun resolution after => ∃ explanation, resolution = .satisfied explanation ∧
        after.grants.identity = some ⟨name, email, source⟩) (fun _ => False) := by
    intro answers
    rw [hidentity answers]
    exact ⟨_, rfl, rfl⟩
  have hrun : Ensures (flow.decideWith resolvers identityMissing false) start
      (fun _ after => after.grants.identity = some ⟨name, email, source⟩)
      (fun after => after.grants.identity = some ⟨name, email, source⟩) := by
    refine .bind (.pure ?_)
    refine .bind (.bind (.bind (hgranted.mono ?_ fun _ hhalt => hhalt.elim)))
    intro resolution after hafter
    obtain ⟨explanation, rfl, hsame⟩ := hafter
    refine .pure (.bind (.change (.pure ?_)))
    refine .bind (.pure (.pure (.read ?_)))
    exact fun _ => (noteDestination_identity _ after.grants).trans hsame
  exact hrun.everywhere (fun _ _ hsame => hsame) []

/-- Two sources of an identity are never the same. -/
theorem order_of_preempts (flow : WorkflowPrerequisiteFlow) (start : Deciding)
    (hpreempts : flow.Preempts start.store) (hfresh : start.grants.identity = none) :
    flow.decide identityMissing false ⟨[], start⟩ ≠
      flow.decideWith flow.documented identityMissing false ⟨[], start⟩ := by
  obtain ⟨hflag, hallow, hfixed, hremembered⟩ := hpreempts
  obtain ⟨⟨name, email⟩, hfixed⟩ := Option.isSome_iff_exists.mp hfixed
  obtain ⟨⟨otherName, otherEmail⟩, hremembered⟩ := Option.isSome_iff_exists.mp hremembered
  have hprogram : ∀ answers, flow.resolvers.identity ⟨.gitIdentity, .missing, "", []⟩
      ⟨answers, start⟩ =
        WorkflowPrerequisiteFlow.grantIdentity name email flow.fixedSource ⟨answers, start⟩ := by
    intro answers
    change (if start.grants.identity.isSome then pure (.satisfied none)
      else flow.resolveNewIdentity ⟨.gitIdentity, .missing, "", []⟩ start : Flow Resolution)
        ⟨answers, start⟩ = _
    rw [hfresh, if_neg (by simp)]
    unfold WorkflowPrerequisiteFlow.resolveNewIdentity
    rw [hflag]
    simp [hallow, hfixed]
  have hdocumented : ∀ answers, flow.documented.identity ⟨.gitIdentity, .missing, "", []⟩
      ⟨answers, start⟩ =
        WorkflowPrerequisiteFlow.grantIdentity otherName otherEmail .remembered
          ⟨answers, start⟩ := by
    intro answers
    change (if start.grants.identity.isSome then pure (.satisfied none)
      else (flow.identitySources ⟨.gitIdentity, .missing, "", []⟩ start).inOrder flow.canAsk :
        Flow Resolution) ⟨answers, start⟩ = _
    have hsame : (flow.remembered start WorkflowPrerequisiteFlow.origin).identity =
        some (otherName, otherEmail) := hremembered
    rw [hfresh, if_neg (by simp)]
    unfold Sources.inOrder WorkflowPrerequisiteFlow.identitySources
    simp [hflag, hallow, hsame]
  have hfirst : (flow.decideWith flow.resolvers identityMissing false
      ⟨[], start⟩).2.state.grants.identity = some ⟨name, email, flow.fixedSource⟩ :=
    decideWith_identityMissing hprogram
  have hsecond : (flow.decideWith flow.documented identityMissing false
      ⟨[], start⟩).2.state.grants.identity = some ⟨otherName, otherEmail, .remembered⟩ :=
    decideWith_identityMissing hdocumented
  intro hsame
  have heq : flow.decideWith flow.resolvers identityMissing false ⟨[], start⟩ =
      flow.decideWith flow.documented identityMissing false ⟨[], start⟩ := hsame
  rw [heq, hsecond] at hfirst
  have hsource : IdentitySource.remembered = flow.fixedSource :=
    congrArg GitIdentityGrant.source (Option.some.inj hfirst)
  unfold WorkflowPrerequisiteFlow.fixedSource at hsource
  split at hsource
  · cases hsource
  · cases hsource

end consented

/-- A run keeps what is promised about consent exactly when no fixed identity is allowed where
another one is remembered. -/
theorem consent_iff (sha256 : List Text → Text) (layers : PrerequisitePolicyLayers) (host : Host)
    (canAsk changedSsh changedToken : Bool) (store : List GrantRecord) (trusted : List Text) :
    (∀ checks shows answers grants, Consented
      ((WorkflowPrerequisiteFlow.forSession sha256 layers host canAsk).reauthorize
        changedSsh changedToken)
      (withoutRepo sha256 layers) checks shows answers { grants, store, trusted }) ↔
    ¬ (WorkflowPrerequisiteFlow.forSession sha256 layers host canAsk).Preempts store := by
  constructor
  · intro hconsented hpreempts
    have horder := (hconsented identityMissing false [] {}).order
    exact order_of_preempts _ { grants := {}, store, trusted } hpreempts rfl horder
  · intro hunless checks shows answers grants
    have hallows : AllowsWithin (withoutRepo sha256 layers)
        (WorkflowPrerequisiteFlow.forSession sha256 layers host canAsk).policy :=
      resolve_allowsWithin sha256 layers
    exact consented_of_not_preempts { grants, store, trusted }
      (reauthorize_allowsWithin hallows changedSsh changedToken) hunless rfl checks shows answers

/-- Every run of the host commits as a bot. -/
def botLayers : PrerequisitePolicyLayers where
  global := some
    { gitIdentity := some { use := some .allow, name := some "Bot".toList,
                            email := some "bot@example.test".toList } }

/-- A host with one remote and nothing else. -/
def plainHost : Host where
  gitRoot := Overlay.textBytes "/r".toList
  envVar := fun _ => none
  identity := (none, none)
  sshKey := fun _ => .error "no such key"
  sshDir := []
  acquireCommand := fun _ => none
  gh := fun _ => false
  remoteUrl := fun _ => some "https://github.com/o/r".toList
  sshDestination := fun _ => none

/-- An identity is remembered for the remote. -/
def rememberedAda : List GrantRecord :=
  [⟨⟨plainHost.gitRoot, "https://github.com/o/r".toList, .gitIdentity⟩,
    .identity "Ada".toList "ada@example.test".toList, "t".toList⟩]

/-- The run commits as the bot, although another identity is remembered. -/
theorem bot_preempts :
    ¬ ∀ checks shows answers grants, Consented
      (WorkflowPrerequisiteFlow.forSession (fun _ => []) botLayers plainHost false)
      (withoutRepo (fun _ => []) botLayers) checks shows answers
      { grants, store := rememberedAda, trusted := [] } := by
  intro hconsented
  have horder := (hconsented identityMissing false [] {}).order
  have hpreempts : (WorkflowPrerequisiteFlow.forSession (fun _ => []) botLayers plainHost
      false).Preempts rememberedAda := by
    refine ⟨rfl, rfl, rfl, ?_⟩
    decide
  exact order_of_preempts _ { grants := {}, store := rememberedAda, trusted := [] } hpreempts rfl
    horder

end Awman.Consent
