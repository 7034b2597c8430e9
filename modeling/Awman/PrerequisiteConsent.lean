import Awman.PrerequisiteFlow
import Awman.PrerequisiteNarrowing

/-!
# Consent to the use of credentials

Every key and token a run may use was named by a flag, by a remembered decision, by a policy that
allows it without the configuration of the repository, or by an answer; and the command of the
repository ran only under a hash that was approved.  Keys and tokens are decided in the documented
order.  Identities are so unless a fixed one is allowed where another one is remembered.
-/

namespace Awman.Consent

open Awman.Grants (GrantRecord RememberedGrant RememberedKind findRecord_withRecord withRecord)
open Awman.Overlay (HostPath)
open Awman.Interaction
open Awman.Squad Awman.RawArgs

variable {flow : WorkflowPrerequisiteFlow} {without : PrerequisitePolicy} {start state : Deciding}
  {log later : List Entry} {α β : Type}

/-! ## Who named a credential -/

/-- A token was printed by the command of the policy. -/
structure Acquired (flow : WorkflowPrerequisiteFlow) (log : List Entry) (acquire : AcquirePolicy)
    (command : HostSecretCommand) (grant : TokenGrant) : Prop where
  recorded : grant.acquire = some acquire
  configured : flow.policy.githubToken.acquire = some acquire
  resolved : flow.host.acquireCommand acquire = some command
  source : grant.source = .hostCommand command.label
  ran : .ran command.sha256 acquire.scope ∈ log

/-- A decision about a remote of the repository is remembered. -/
def WorkflowPrerequisiteFlow.Remembers (flow : WorkflowPrerequisiteFlow) (state : Deciding)
    (kind : RememberedKind) (grant : RememberedGrant) : Prop :=
  ∃ remote now, ⟨flow.grantKey remote kind, grant, now⟩ ∈ state.store

/-- Who named a key: `without` is the policy without the configuration of the repository. -/
inductive SshNamed (flow : WorkflowPrerequisiteFlow) (without : PrerequisitePolicy)
    (start : Deciding) (log : List Entry) : SshGrant → Prop where
  | flagAll (hflag : flow.flags.ssh = some .all) :
    SshNamed flow without start log flow.host.wholeSshDir
  | flagKey {path : HostPath} {grant : SshGrant} (hflag : flow.flags.ssh = some (.key path))
    (hkey : flow.host.sshKeyGrant path = .ok grant) : SshNamed flow without start log grant
  | rememberedDir (hrecord : flow.Remembers start .ssh .sshDir) :
    SshNamed flow without start log flow.host.wholeSshDir
  | rememberedKey {key : HostPath} {grant : SshGrant}
    (hrecord : flow.Remembers start .ssh (.sshKey key))
    (hkey : flow.host.sshKeyGrant key = .ok grant) : SshNamed flow without start log grant
  | allowedDir (hallowed : without.PermitsKeyDir) :
    SshNamed flow without start log flow.host.wholeSshDir
  | allowedKey {key : HostPath} {grant : SshGrant} (hallowed : without.PermitsKey key)
    (hkey : flow.host.sshKeyGrant key = .ok grant) : SshNamed flow without start log grant
  | answeredDir (hanswer : .ssh .wholeDir ∈ log) :
    SshNamed flow without start log flow.host.wholeSshDir
  | answeredKey {path : HostPath} {keep : Bool} {grant : SshGrant}
    (hanswer : .ssh (.key path keep) ∈ log) (hkey : flow.host.sshKeyGrant path = .ok grant) :
    SshNamed flow without start log grant
  /-- An answer about one remote is remembered, and another check is about that remote. -/
  | answeredBefore {path key : HostPath} {knownHosts : Option HostPath}
    {passphraseProtected : Option Bool} {grant : SshGrant}
    (hanswer : .ssh (.key path true) ∈ log)
    (hstored : flow.host.sshKeyGrant path = .ok (.key key knownHosts passphraseProtected))
    (hkey : flow.host.sshKeyGrant key = .ok grant) : SshNamed flow without start log grant

/-- Who named a token. -/
inductive TokenNamed (flow : WorkflowPrerequisiteFlow) (without : PrerequisitePolicy)
    (start : Deciding) (log : List Entry) (grant : TokenGrant) : Prop where
  | flag {var : Text} (hflag : flow.flags.token = some (.env var))
    (hgrant : flow.host.envGrant grant.host var = some grant)
  | flagCommand {acquire : AcquirePolicy} {command : HostSecretCommand}
    (hflag : flow.flags.token = some .acquire) (hgrant : Acquired flow log acquire command grant)
  | remembered {var : Text} (hrecord : flow.Remembers start .githubToken (.tokenEnv var))
    (hgrant : flow.host.envGrant grant.host var = some grant)
  | allowed {var : Text} (hallowed : without.PermitsVar var)
    (hgrant : flow.host.envGrant grant.host var = some grant)
  | allowedCommand {acquire : AcquirePolicy} {command : HostSecretCommand}
    (huse : without.githubToken.use = .allow)
    (hacquire : without.githubToken.acquire = some acquire ∨ acquire.scope = .repo)
    (hgrant : Acquired flow log acquire command grant)
  | consented {var : Text} {choice : TokenConsent} (hanswer : .consented var choice ∈ log)
    (hchoice : choice ≠ .decline) (hgrant : flow.host.envGrant grant.host var = some grant)
  | pasted (hanswer : .pasted grant.secret ∈ log) (hsource : grant.source = .pasted)
  | gh {choice : TokenSourceChoice} (hanswer : .source choice ∈ log)
    (hchoice : choice = .ghAuthToken ∨ choice = .ghAuthLogin) (hsource : grant.source = .ghAuthToken)
  | command {acquire : AcquirePolicy} {command : HostSecretCommand}
    (hanswer : .source .acquire ∈ log) (hgrant : Acquired flow log acquire command grant)

/-- A decision was remembered because of an answer. -/
def Answered (flow : WorkflowPrerequisiteFlow) (log : List Entry) (grant : RememberedGrant) : Prop :=
  (∃ path key knownHosts passphraseProtected, .ssh (.key path true) ∈ log ∧
    flow.host.sshKeyGrant path = .ok (.key key knownHosts passphraseProtected) ∧
    grant = .sshKey key) ∨
  ∃ var, .consented var .remember ∈ log ∧ grant = .tokenEnv var

variable {command : HostSecretCommand} {kind : RememberedKind} {remote : Text}

/-- An acquired token stays accounted for as the log grows. -/
theorem Acquired.mono {acquire : AcquirePolicy} {grant : TokenGrant}
    (h : Acquired flow log acquire command grant) (hlog : log ⊆ later) :
    Acquired flow later acquire command grant :=
  ⟨h.recorded, h.configured, h.resolved, h.source, hlog h.ran⟩

/-- So does an SSH grant. -/
theorem SshNamed.mono {grant : SshGrant} (h : SshNamed flow without start log grant)
    (hlog : log ⊆ later) : SshNamed flow without start later grant := by
  cases h with
  | flagAll hflag => exact .flagAll hflag
  | flagKey hflag hkey => exact .flagKey hflag hkey
  | rememberedDir hrecord => exact .rememberedDir hrecord
  | rememberedKey hrecord hkey => exact .rememberedKey hrecord hkey
  | allowedDir hallowed => exact .allowedDir hallowed
  | allowedKey hallowed hkey => exact .allowedKey hallowed hkey
  | answeredDir hanswer => exact .answeredDir (hlog hanswer)
  | answeredKey hanswer hkey => exact .answeredKey (hlog hanswer) hkey
  | answeredBefore hanswer hstored hkey => exact .answeredBefore (hlog hanswer) hstored hkey

/-- So does a token grant. -/
theorem TokenNamed.mono {grant : TokenGrant} (h : TokenNamed flow without start log grant)
    (hlog : log ⊆ later) : TokenNamed flow without start later grant := by
  cases h with
  | flag hflag hgrant => exact .flag hflag hgrant
  | flagCommand hflag hgrant => exact .flagCommand hflag (hgrant.mono hlog)
  | remembered hrecord hgrant => exact .remembered hrecord hgrant
  | allowed hallowed hgrant => exact .allowed hallowed hgrant
  | allowedCommand huse hacquire hgrant => exact .allowedCommand huse hacquire (hgrant.mono hlog)
  | consented hanswer hchoice hgrant => exact .consented (hlog hanswer) hchoice hgrant
  | pasted hanswer hsource => exact .pasted (hlog hanswer) hsource
  | gh hanswer hchoice hsource => exact .gh (hlog hanswer) hchoice hsource
  | command hanswer hgrant => exact .command (hlog hanswer) (hgrant.mono hlog)

/-- So does an answer. -/
theorem Answered.mono {grant : RememberedGrant} (h : Answered flow log grant) (hlog : log ⊆ later) :
    Answered flow later grant := by
  rcases h with ⟨path, key, knownHosts, passphraseProtected, hanswer, hrest⟩ | ⟨var, hanswer, hrest⟩
  · exact Or.inl ⟨path, key, knownHosts, passphraseProtected, hlog hanswer, hrest⟩
  · exact Or.inr ⟨var, hlog hanswer, hrest⟩

/-! ## What deciding keeps -/

/-- What holds at every point of a run that began with `start`. -/
structure Kept (flow : WorkflowPrerequisiteFlow) (without : PrerequisitePolicy)
    (start state : Deciding) : Prop where
  identity : (flow.remembered state WorkflowPrerequisiteFlow.origin).identity =
    (flow.remembered start WorkflowPrerequisiteFlow.origin).identity
  records : ∀ record ∈ state.store, record ∈ start.store ∨ Answered flow state.log record.grant
  ssh : ∀ grant, state.grants.ssh = some grant →
    start.grants.ssh = some grant ∨ SshNamed flow without start state.log grant
  token : ∀ grant, state.grants.token = some grant →
    start.grants.token = some grant ∨ TokenNamed flow without start state.log grant
  trusted : ∀ sha256 ∈ state.trusted,
    sha256 ∈ start.trusted ∨ .reviewed sha256 .approve ∈ state.log
  approved : ∀ later sha256 earlier, state.log = later ++ .ran sha256 .repo :: earlier →
    sha256 ∈ start.trusted ∨ .reviewed sha256 .approve ∈ earlier

/-- Nothing is owed before the first decision. -/
theorem Kept.begins (flow : WorkflowPrerequisiteFlow) (without : PrerequisitePolicy)
    (hlog : start.log = []) : Kept flow without start start where
  identity := rfl
  records := fun _ hrecord => Or.inl hrecord
  ssh := fun _ hgrant => Or.inl hgrant
  token := fun _ hgrant => Or.inl hgrant
  trusted := fun _ htrusted => Or.inl htrusted
  approved := by
    intro later sha256 earlier hsplit
    rw [hlog] at hsplit
    exact absurd hsplit.symm (by simp)

/-- An entry keeps what is owed when what it ran was trusted or reviewed. -/
theorem Kept.noted (h : Kept flow without start state) {entry : Entry}
    (hran : ∀ sha256, entry = .ran sha256 .repo →
      sha256 ∈ start.trusted ∨ .reviewed sha256 .approve ∈ state.log) :
    Kept flow without start { state with log := entry :: state.log } := by
  have hlog : state.log ⊆ entry :: state.log := List.subset_cons_self entry state.log
  constructor
  · exact h.identity
  · intro record hrecord
    exact (h.records record hrecord).imp_right fun hanswered => hanswered.mono hlog
  · intro grant hgrant
    exact (h.ssh grant hgrant).imp_right fun hnamed => hnamed.mono hlog
  · intro grant hgrant
    exact (h.token grant hgrant).imp_right fun hnamed => hnamed.mono hlog
  · intro sha256 htrusted
    exact (h.trusted sha256 htrusted).imp_right fun hreviewed => hlog hreviewed
  · intro before sha256 earlier hsplit
    cases before with
    | nil =>
      have heq := List.cons.inj hsplit
      rw [← heq.2]
      exact hran sha256 heq.1
    | cons first rest => exact h.approved rest sha256 earlier (List.cons.inj hsplit).2

/-- What was granted changes. -/
theorem Kept.granted (h : Kept flow without start state) {grants : PrerequisiteGrants}
    (hssh : ∀ grant, grants.ssh = some grant → state.grants.ssh = some grant ∨
      SshNamed flow without start state.log grant)
    (htoken : ∀ grant, grants.token = some grant → state.grants.token = some grant ∨
      TokenNamed flow without start state.log grant) :
    Kept flow without start { state with grants } where
  identity := h.identity
  records := h.records
  ssh := fun grant hgrant => (hssh grant hgrant).elim (h.ssh grant) Or.inr
  token := fun grant hgrant => (htoken grant hgrant).elim (h.token grant) Or.inr
  trusted := h.trusted
  approved := h.approved

/-- Remembering a decision of one kind leaves those of another. -/
theorem lookup_stored {other : RememberedKind} (hother : kind ≠ other) {record : GrantRecord}
    (hrecord : record.key.prerequisite = kind) (remote : Text) :
    flow.lookup { state with store := withRecord state.store record } remote other =
      flow.lookup state remote other := by
  have hkey : flow.grantKey remote other ≠ record.key := by
    rintro hsame
    exact hother (hrecord.symm.trans (congrArg Grants.GrantKey.prerequisite hsame.symm))
  unfold WorkflowPrerequisiteFlow.lookup
  rw [findRecord_withRecord, if_neg hkey]

/-- A decision that is not about an identity is remembered. -/
theorem Kept.remembers (h : Kept flow without start state) {record : GrantRecord}
    (hkind : record.key.prerequisite ≠ .gitIdentity)
    (hanswered : Answered flow state.log record.grant) :
    Kept flow without start { state with store := withRecord state.store record } := by
  constructor
  · rw [← h.identity]
    unfold WorkflowPrerequisiteFlow.remembered
    rw [lookup_stored hkind rfl]
  · intro record hrecord
    rcases List.mem_append.mp hrecord with hold | hnew
    · exact h.records record (List.mem_filter.mp hold).1
    · obtain rfl := List.mem_singleton.mp hnew
      exact Or.inr hanswered
  · exact h.ssh
  · exact h.token
  · exact h.trusted
  · exact h.approved

/-- A hash is approved. -/
theorem Kept.trusts (h : Kept flow without start state) {sha256 : Text}
    (hreviewed : .reviewed sha256 .approve ∈ state.log) :
    Kept flow without start { state with trusted := [sha256] } where
  identity := h.identity
  records := h.records
  ssh := h.ssh
  token := h.token
  trusted := by
    intro other hother
    obtain rfl := List.mem_singleton.mp hother
    exact Or.inr hreviewed
  approved := h.approved

/-- Where a program starts with `before` and what is kept, it keeps it, forgets no answer, and
returns with `post`. -/
def Keeps (flow : WorkflowPrerequisiteFlow) (without : PrerequisitePolicy) (start : Deciding)
    (before : Deciding → Prop) (program : Flow α) (post : α → Deciding → Prop) : Prop :=
  ∀ state, Kept flow without start state → before state →
    Ensures program state
      (fun a after => Kept flow without start after ∧ state.log ⊆ after.log ∧ post a after)
      (Kept flow without start)

namespace Keeps

variable {before : Deciding → Prop} {post : α → Deciding → Prop}

/-- A result changes nothing. -/
theorem pure {a : α} (h : ∀ state, before state → post a state) :
    Keeps flow without start before (Pure.pure a) post :=
  fun state hkept hbefore => Ensures.pure ⟨hkept, fun _ hentry => hentry, h state hbefore⟩

variable {program : Flow α}

theorem bind {next : α → Flow β} {middle : α → Deciding → Prop}
    {post : β → Deciding → Prop} (h : Keeps flow without start before program middle)
    (hnext : ∀ first a, before first → Keeps flow without start
      (fun state => first.log ⊆ state.log ∧ middle a state) (next a) post) :
    Keeps flow without start before (program >>= next) post := by
  intro state hkept hbefore
  apply Ensures.seq (h state hkept hbefore)
  intro a after hafter
  obtain ⟨hkept, hlog, hmiddle⟩ := hafter
  refine (hnext state a hbefore after hkept ⟨hlog, hmiddle⟩).mono ?_ fun _ hhalt => hhalt
  intro b last hlast
  exact ⟨hlast.1, fun entry hentry => hlast.2.1 (hlog hentry), hlast.2.2⟩

/-- What comes first promises nothing. -/
theorem andThen {next : α → Flow β} {post : β → Deciding → Prop}
    (h : Keeps flow without start before program fun _ _ => True)
    (hnext : ∀ first a, before first → Keeps flow without start
      (fun state => first.log ⊆ state.log ∧ True) (next a) post) :
    Keeps flow without start before (program >>= next) post :=
  bind h hnext

/-- A program keeps the invariant also under more and for less. -/
theorem weaken {stronger : Deciding → Prop} {post' : α → Deciding → Prop}
    (h : Keeps flow without start before program post) (hbefore : ∀ state, stronger state → before state)
    (hpost : ∀ a state, post a state → post' a state) :
    Keeps flow without start stronger program post' := by
  intro state hkept hstronger
  refine (h state hkept (hbefore state hstronger)).mono ?_ fun _ hhalt => hhalt
  intro a after hafter
  exact ⟨hafter.1, hafter.2.1, hpost a after hafter.2.2⟩

/-- An answer changes nothing. -/
theorem receive {accept : Answer → Option α} :
    Keeps flow without start before (Interaction.receive accept) fun _ state => before state :=
  fun _ hkept hbefore => Ensures.receive hkept fun _ => ⟨hkept, fun _ hentry => hentry, hbefore⟩

theorem ask {accept : Answer → Option α} :
    Keeps flow without start before (Consent.ask accept) fun _ state => before state := by
  apply bind receive
  intro first answer hfirst state hkept hbefore
  exact Ensures.ofExcept hkept fun _ _ => ⟨hkept, fun _ hentry => hentry, hbefore.2⟩

theorem fail {error : FlowError} :
    Keeps flow without start before (Interaction.fail error : Flow α) post :=
  fun _ hkept _ => Ensures.fail hkept

theorem getState : Keeps flow without start before Interaction.getState
    fun read state => read = state ∧ before state :=
  fun _ hkept hbefore => Ensures.getState ⟨hkept, fun _ hentry => hentry, rfl, hbefore⟩

theorem modifyState {change : Deciding → Deciding} {post : Unit → Deciding → Prop}
    (h : ∀ state, Kept flow without start state → before state →
      Kept flow without start (change state) ∧ state.log ⊆ (change state).log ∧
        post () (change state)) :
    Keeps flow without start before (Interaction.modifyState change) post :=
  fun state hkept hbefore => Ensures.modifyState (h state hkept hbefore)

theorem note {entry : Entry}
    (hran : ∀ state sha256, before state → Kept flow without start state →
      entry = .ran sha256 .repo →
      sha256 ∈ start.trusted ∨ .reviewed sha256 .approve ∈ state.log) :
    Keeps flow without start before (Consent.note entry) fun _ state => entry ∈ state.log :=
  modifyState fun state hkept hbefore =>
    ⟨hkept.noted fun sha256 hentry => hran state sha256 hbefore hkept hentry,
      List.subset_cons_self .., List.mem_cons_self⟩

end Keeps

/-! ## Granting -/

section granting

variable {before : Deciding → Prop}

/-- An SSH grant may be given when it was named. -/
theorem grantSsh_keeps (grant : SshGrant) :
    Keeps flow without start (fun state => SshNamed flow without start state.log grant)
      (WorkflowPrerequisiteFlow.grantSsh grant) fun _ _ => True := by
  refine Keeps.andThen ?_ ?_
  · apply Keeps.modifyState
    intro state hkept hnamed
    refine ⟨hkept.granted ?_ fun _ hgrant => Or.inl hgrant, fun _ hentry => hentry, trivial⟩
    intro other hother
    cases hother
    exact Or.inr hnamed
  · intro _ _ _
    exact Keeps.pure fun _ _ => trivial

/-- So may a token grant. -/
theorem grantToken_keeps (grant : TokenGrant) :
    Keeps flow without start (fun state => TokenNamed flow without start state.log grant)
      (WorkflowPrerequisiteFlow.grantToken grant) fun _ _ => True := by
  refine Keeps.andThen ?_ ?_
  · apply Keeps.modifyState
    intro state hkept hnamed
    refine ⟨hkept.granted (fun _ hgrant => Or.inl hgrant) ?_, fun _ hentry => hentry, trivial⟩
    intro other hother
    cases hother
    exact Or.inr hnamed
  · intro _ _ _
    exact Keeps.pure fun _ _ => trivial

/-- A rejected token is withdrawn, and nothing is given. -/
theorem withdrawRejected_keeps (check : PrerequisiteCheck) :
    Keeps flow without start before (WorkflowPrerequisiteFlow.withdrawRejected check)
      fun _ _ => True := by
  unfold WorkflowPrerequisiteFlow.withdrawRejected modifyGrants
  split
  · apply Keeps.modifyState
    intro state hkept _
    refine ⟨hkept.granted (fun _ hgrant => Or.inl hgrant) ?_, fun _ hentry => hentry, trivial⟩
    intro grant hgrant
    cases hgrant
  · exact Keeps.pure fun _ _ => trivial

/-- A decision that is not about an identity is remembered because of an answer. -/
theorem remember_keeps (remote : Text) (hkind : kind ≠ .gitIdentity) (grant : RememberedGrant) :
    Keeps flow without start (fun state => Answered flow state.log grant)
      (flow.remember remote kind grant) fun _ _ => True := by
  apply Keeps.bind Keeps.receive
  intro first stored hanswered
  cases stored with
  | none => exact Keeps.pure fun _ _ => trivial
  | some now =>
    apply Keeps.modifyState
    intro state hkept hbefore
    have hremembers : Kept flow without start
        { state with store := withRecord state.store ⟨flow.grantKey remote kind, grant, now⟩ } :=
      hkept.remembers hkind (hanswered.mono hbefore.1)
    exact ⟨hremembers, fun _ hentry => hentry, trivial⟩

end granting

/-! ## Identities -/

/-- At most the identity that is granted changes. -/
def IdentityChanged (before after : Deciding) : Prop :=
  ∃ identity, after = { before with grants := { before.grants with identity } }

instance : Std.Refl IdentityChanged := ⟨fun state => ⟨state.grants.identity, rfl⟩⟩

instance : IsTrans Deciding IdentityChanged where
  trans := by
    rintro _ _ _ ⟨_, rfl⟩ ⟨identity, rfl⟩
    exact ⟨identity, rfl⟩

theorem relates_ask {r : Deciding → Deciding → Prop} [Std.Refl r] [IsTrans Deciding r]
    {accept : Answer → Option α} : Relates r (ask accept) := by
  apply Relates.bind Relates.receive
  intro answer
  cases answer with
  | error error => exact Relates.fail
  | ok value => exact Relates.pure

section identity

open WorkflowPrerequisiteFlow

/-- Granting an identity changes the identity only. -/
theorem grantIdentity_changes (name email : Text) (source : IdentitySource) :
    Relates IdentityChanged (grantIdentity name email source) :=
  .bind (fun _ => Ensures.modifyState ⟨_, rfl⟩) fun _ => .pure

theorem enterIdentity_changes : Relates IdentityChanged enterIdentity := by
  apply Relates.bind relates_ask
  intro name
  cases name with
  | none => exact Relates.pure
  | some name =>
    apply Relates.bind relates_ask
    intro email
    cases email with
    | none => exact Relates.pure
    | some email =>
      dsimp only
      split
      · exact Relates.pure
      · exact grantIdentity_changes _ _ _

theorem setLocalIdentity_changes (name email : Text) :
    Relates IdentityChanged (setLocalIdentity name email) := by
  apply Relates.bind relates_ask
  intro persist
  cases persist with
  | runOnly => exact grantIdentity_changes name email _
  | writeLocal =>
    apply Relates.bind Relates.receive
    intro ok
    cases ok with
    | true => exact Relates.pure
    | false => exact grantIdentity_changes name email _

/-- So does asking for one. -/
theorem askIdentity_changes : Relates IdentityChanged askIdentity := by
  apply Relates.bind relates_ask
  intro choice
  cases choice with
  | useHost name email => exact grantIdentity_changes name email _
  | enter => exact enterIdentity_changes
  | setLocalFromHost name email => exact setLocalIdentity_changes name email
  | «continue» => exact Relates.pure

/-- So does a flag. -/
theorem resolveIdentityFlag_changes (check : PrerequisiteCheck) (flag : IdentityFlag) :
    Relates IdentityChanged (flow.resolveIdentityFlag check flag) := by
  unfold resolveIdentityFlag
  split
  · exact .pure
  · exact grantIdentity_changes _ _ _
  · split
    · exact grantIdentity_changes _ _ _
    · exact .pure

theorem resolveNewIdentity_changes (check : PrerequisiteCheck) (state : Deciding) :
    Relates IdentityChanged (flow.resolveNewIdentity check state) := by
  unfold resolveNewIdentity
  dsimp only
  split
  · exact resolveIdentityFlag_changes check _
  split
  · exact .pure
  split
  · exact grantIdentity_changes _ _ _
  split
  · exact grantIdentity_changes _ _ _
  split
  · exact .pure
  split
  · exact grantIdentity_changes _ _ _
  split
  · exact .pure
  split
  · exact .pure
  · exact askIdentity_changes

/-- So does the whole decision about it. -/
theorem resolveIdentity_changes (check : PrerequisiteCheck) :
    Relates IdentityChanged (flow.resolveIdentity check) := by
  apply Relates.bind Relates.getState
  intro state
  split
  · exact Relates.pure
  · exact resolveNewIdentity_changes check state

theorem askGap_changes (check : PrerequisiteCheck) (accept : Answer → Option GapChoice) :
    Relates IdentityChanged (flow.askGap check accept) := by
  unfold askGap
  split
  · apply Relates.bind relates_ask
    intro choice
    cases choice with
    | abort => exact Relates.fail
    | «continue» => exact Relates.pure
  · exact Relates.pure

/-- What changes at most the identity keeps what is kept. -/
theorem Keeps.of_changes {program : Flow α} {before : Deciding → Prop}
    (h : Relates IdentityChanged program) :
    Keeps flow without start before program fun _ _ => True := by
  intro state hkept _
  refine (h state).mono ?_ ?_
  · rintro _ _ ⟨identity, rfl⟩
    exact ⟨hkept.granted (fun _ hgrant => Or.inl hgrant) fun _ hgrant => Or.inl hgrant,
      fun _ hentry => hentry, trivial⟩
  · rintro _ ⟨identity, rfl⟩
    exact hkept.granted (fun _ hgrant => Or.inl hgrant) fun _ hgrant => Or.inl hgrant

/-- The decision about the identity keeps what is owed. -/
theorem resolveIdentity_keeps {before : Deciding → Prop} (check : PrerequisiteCheck) :
    Keeps flow without start before (flow.resolveIdentity check) fun _ _ => True :=
  .of_changes (resolveIdentity_changes check)

end identity

/-! ## SSH keys -/

/-- What one policy about tokens allows, another one does; a command may be the repository's. -/
structure TokensWithin (without within : TokenPolicy) : Prop where
  use : within.use = .allow → without.use = .allow
  envVars : ∀ var ∈ within.envVars, within.use = .allow → var ∈ without.envVars
  acquire : ∀ acquire, within.acquire = some acquire →
    without.acquire = some acquire ∨ acquire.scope = .repo

/-- What a policy allows, another one does. -/
structure AllowsWithin (without within : PrerequisitePolicy) : Prop where
  ssh : SshWithin within without
  token : TokensWithin without.githubToken within.githubToken

/-- A grant that is looked up was remembered. -/
theorem lookup_mem {grant : RememberedGrant} (h : flow.lookup state remote kind = some grant) :
    flow.Remembers state kind grant := by
  obtain ⟨record, hfound, rfl⟩ := Option.map_eq_some_iff.mp h
  have hkey := List.find?_some hfound
  rw [decide_eq_true_iff] at hkey
  refine ⟨remote, record.recordedAt, ?_⟩
  rw [← hkey]
  exact List.mem_of_find?_eq_some hfound

section ssh

variable {before : Deciding → Prop} {grant : SshGrant}

/-- A remembered SSH grant was named before. -/
theorem Kept.rememberedSsh_named (h : Kept flow without start state)
    (hremembered : flow.rememberedSsh state remote = some grant) :
    SshNamed flow without start state.log grant := by
  unfold WorkflowPrerequisiteFlow.rememberedSsh WorkflowPrerequisiteFlow.remembered at hremembered
  cases hlookup : flow.lookup state remote .ssh with
  | none => simp [hlookup] at hremembered
  | some found =>
    obtain ⟨about, now, hrecord⟩ := lookup_mem hlookup
    rw [hlookup] at hremembered
    cases found with
    | sshDir =>
      obtain rfl : flow.host.wholeSshDir = grant := by simpa using hremembered
      rcases h.records _ hrecord with hstart | ⟨_, _, _, _, -, -, heq⟩ | ⟨_, -, heq⟩
      · exact .rememberedDir ⟨about, now, hstart⟩
      · cases heq
      · cases heq
    | sshKey key =>
      have hkey : flow.host.sshKeyGrant key = .ok grant := by
        have hsome : (flow.host.sshKeyGrant key).toOption = some grant := by
          simpa using hremembered
        cases hgrant : flow.host.sshKeyGrant key with
        | error reason => simp [hgrant, Except.toOption] at hsome
        | ok found => simpa [hgrant, Except.toOption] using hsome
      rcases h.records _ hrecord with hstart | ⟨_, _, _, _, hanswer, hstored, heq⟩ | ⟨_, -, heq⟩
      · exact .rememberedKey ⟨about, now, hstart⟩ hkey
      · cases heq
        exact .answeredBefore hanswer hstored hkey
      · cases heq
    | tokenEnv | identity => simp at hremembered

/-- An SSH grant that the policy allows is named without the repository. -/
theorem AllowsWithin.allowedSsh_named (h : AllowsWithin without flow.policy)
    (hallowed : flow.allowedSsh = some grant) : SshNamed flow without start log grant := by
  unfold WorkflowPrerequisiteFlow.allowedSsh at hallowed
  dsimp only at hallowed
  split_ifs at hallowed with huse hdir hsuggestion
  · cases hallowed
    have huse := not_not.mp huse
    exact .allowedDir (h.ssh.2 ⟨huse, hdir⟩)
  · have huse := not_not.mp huse
    have hreal := Bool.not_eq_true _ |>.mp hsuggestion
    obtain ⟨key, hkey, hsome⟩ := Option.bind_eq_some_iff.mp hallowed
    refine .allowedKey (h.ssh.1 key ⟨huse, hkey, hreal⟩) ?_
    cases hgrant : flow.host.sshKeyGrant key with
    | error reason => simp [hgrant, Except.toOption] at hsome
    | ok found => simpa [hgrant, Except.toOption] using hsome

/-- A flag decides about SSH within what is owed. -/
theorem resolveSshFlag_keeps {flag : SshFlag} (hflag : flow.flags.ssh = some flag) :
    Keeps flow without start before (flow.resolveSshFlag flag) fun _ _ => True := by
  unfold WorkflowPrerequisiteFlow.resolveSshFlag
  cases flag with
  | deny => exact .pure fun _ _ => trivial
  | all => exact (grantSsh_keeps _).weaken (fun _ _ => .flagAll hflag) fun _ _ h => h
  | key path =>
    dsimp only
    cases hkey : flow.host.sshKeyGrant path with
    | ok grant => exact (grantSsh_keeps _).weaken (fun _ _ => .flagKey hflag hkey) fun _ _ h => h
    | error reason => exact .pure fun _ _ => trivial

/-- So does an answer. -/
theorem askSsh_keeps (remote : Text) :
    Keeps flow without start before (flow.askSsh remote) fun _ _ => True := by
  apply Keeps.bind Keeps.ask
  intro _ choice _
  refine Keeps.bind (Keeps.note fun _ _ _ _ hentry => by cases hentry) ?_
  intro first _ hfirst
  cases choice with
  | key path keep =>
    dsimp only
    cases hkey : flow.host.sshKeyGrant path with
    | error reason => exact Keeps.pure fun _ _ => trivial
    | ok grant =>
      have hgrants : Keeps flow without start (fun state =>
          first.log ⊆ state.log ∧ Entry.ssh (.key path keep) ∈ state.log)
          (WorkflowPrerequisiteFlow.grantSsh grant) fun _ _ => True :=
        (grantSsh_keeps grant).weaken (fun _ hlog => .answeredKey hlog.2 hkey) fun _ _ h => h
      cases keep with
      | false => exact hgrants
      | true =>
        cases grant with
        | wholeDir sshDir => exact hgrants
        | key keyPath knownHosts passphraseProtected =>
          have hstores : Keeps flow without start (fun state =>
              first.log ⊆ state.log ∧ Entry.ssh (.key path true) ∈ state.log)
              (flow.remember remote .ssh (.sshKey keyPath)) fun _ _ => True :=
            (remember_keeps remote (by simp) _).weaken
              (fun _ hlog => Or.inl ⟨path, keyPath, _, _, hlog.2, hkey, rfl⟩) fun _ _ h => h
          apply Keeps.bind hstores
          intro _ _ hlog
          exact (grantSsh_keeps _).weaken (fun _ hmore => .answeredKey (hmore.1 hlog.2) hkey)
            fun _ _ h => h
  | wholeDir => exact (grantSsh_keeps _).weaken (fun _ hlog => .answeredDir hlog.2) fun _ _ h => h
  | decline => exact Keeps.pure fun _ _ => trivial

/-- So does the whole decision about SSH. -/
theorem resolveSsh_keeps (hallows : AllowsWithin without flow.policy) (check : PrerequisiteCheck)
    (remote : Text) :
    Keeps flow without start before (flow.resolveSsh check remote) fun _ _ => True := by
  apply Keeps.bind Keeps.getState
  intro _ state _
  split
  · exact Keeps.pure fun _ _ => trivial
  cases hflag : flow.flags.ssh with
  | some flag => exact resolveSshFlag_keeps hflag
  | none =>
    dsimp only
    split
    · exact Keeps.pure fun _ _ => trivial
    cases hremembered : flow.rememberedSsh state remote with
    | some grant =>
      intro now hkept hnow
      have hnamed : SshNamed flow without start now.log grant := by
        rw [hnow.2.1] at hremembered
        exact hkept.rememberedSsh_named hremembered
      exact grantSsh_keeps grant now hkept hnamed
    | none =>
      dsimp only
      cases hallowed : flow.allowedSsh with
      | some grant =>
        exact (grantSsh_keeps grant).weaken (fun _ _ => hallows.allowedSsh_named hallowed)
          fun _ _ h => h
      | none =>
        dsimp only
        split
        · exact Keeps.pure fun _ _ => trivial
        split
        · exact Keeps.pure fun _ _ => trivial
        · exact askSsh_keeps remote

end ssh

/-! ## Tokens -/

section token

variable {before : Deciding → Prop} {grant : TokenGrant} {acquire : AcquirePolicy}

/-- A token that is offered was printed by the command of the policy. -/
def OffersAcquired (flow : WorkflowPrerequisiteFlow) (acquire : AcquirePolicy) (tokenHost : Text)
    (offered : Option TokenGrant) (state : Deciding) : Prop :=
  ∀ grant, offered = some grant → grant.host = tokenHost ∧
    ∃ command, Acquired flow state.log acquire command grant

/-- A command of the repository runs when it was approved. -/
theorem Kept.approves (h : Kept flow without start state)
    (hconfigured : flow.policy.githubToken.acquire = some acquire)
    (hresolved : flow.host.acquireCommand acquire = some command)
    (happroved : flow.repoAcquireApproved state = true) :
    command.sha256 ∈ start.trusted ∨ .reviewed command.sha256 .approve ∈ state.log := by
  unfold WorkflowPrerequisiteFlow.repoAcquireApproved at happroved
  rw [hconfigured] at happroved
  dsimp only at happroved
  rw [hresolved] at happroved
  have htrusted : command.sha256 ∈ state.trusted := by
    simp at happroved
    exact happroved.2
  exact h.trusted _ htrusted

/-- A token is acquired by a command that may run. -/
theorem runAcquire_keeps (tokenHost : Text)
    (hconfigured : flow.policy.githubToken.acquire = some acquire)
    (hresolved : flow.host.acquireCommand acquire = some command)
    (hbefore : ∀ state, before state → Kept flow without start state → acquire.scope = .repo →
      command.sha256 ∈ start.trusted ∨ .reviewed command.sha256 .approve ∈ state.log) :
    Keeps flow without start before (WorkflowPrerequisiteFlow.runAcquire acquire tokenHost command)
      (OffersAcquired flow acquire tokenHost) := by
  refine .bind (.note ?_) ?_
  · intro state sha256 hstate hkept hentry
    obtain ⟨rfl, hscope⟩ := Entry.ran.inj hentry
    exact hbefore state hstate hkept hscope
  · intro _ _ _
    apply Keeps.bind Keeps.receive
    intro first secret hran
    apply Keeps.pure
    intro state hlog grant hgrant
    obtain ⟨text, -, rfl⟩ := Option.map_eq_some_iff.mp hgrant
    exact ⟨rfl, command, rfl, hconfigured, hresolved, rfl, hlog.1 hran.2⟩

/-- The command of the repository runs only when its hash is approved. -/
theorem acquireToken_keeps (tokenHost : Text)
    (hconfigured : flow.policy.githubToken.acquire = some acquire) :
    Keeps flow without start before (flow.acquireToken acquire tokenHost)
      (OffersAcquired flow acquire tokenHost) := by
  have hnothing : ∀ {before : Deciding → Prop}, Keeps flow without start before
      (pure none : Flow (Option TokenGrant)) (OffersAcquired flow acquire tokenHost) :=
    Keeps.pure fun _ _ _ hnone => by cases hnone
  unfold WorkflowPrerequisiteFlow.acquireToken
  cases hresolved : flow.host.acquireCommand acquire with
  | none => exact hnothing
  | some command =>
    dsimp only
    split
    · exact hnothing
    apply Keeps.bind Keeps.getState
    intro _ state _
    split
    case isFalse hfree =>
      apply runAcquire_keeps tokenHost hconfigured hresolved
      intro now hnow hkept hscope
      obtain rfl := hnow.2.1
      apply hkept.approves hconfigured hresolved
      by_contra hunapproved
      exact hfree ⟨hscope, by simp [hunapproved]⟩
    case isTrue =>
      split
      · exact hnothing
      apply Keeps.bind Keeps.ask
      intro _ decision _
      refine Keeps.bind (Keeps.note fun _ _ _ _ hentry => by cases hentry) ?_
      intro _ _ _
      cases decision with
      | decline => exact hnothing
      | approve =>
        apply Keeps.bind Keeps.receive
        intro first recorded hreviewed
        have hruns : ∀ {before : Deciding → Prop}, (∀ state, before state →
            .reviewed command.sha256 .approve ∈ state.log) →
            Keeps flow without start before
              (WorkflowPrerequisiteFlow.runAcquire acquire tokenHost command)
              (OffersAcquired flow acquire tokenHost) :=
          fun hlog => runAcquire_keeps tokenHost hconfigured hresolved
            fun state hstate _ _ => Or.inr (hlog state hstate)
        cases recorded with
        | false => exact hruns fun state hlog => hlog.2.2
        | true =>
          rw [if_pos rfl]
          refine Keeps.andThen (Keeps.modifyState ?_) ?_
          · intro state hkept hlog
            exact ⟨hkept.trusts hlog.2.2, fun _ hentry => hentry, trivial⟩
          · intro now _ hlog
            exact hruns fun state hmore => hmore.1 hlog.2.2

/-- A token that is offered has the given properties. -/
def Offers (flow : WorkflowPrerequisiteFlow) (without : PrerequisitePolicy) (start : Deciding)
    (offered : Option TokenGrant) (state : Deciding) : Prop :=
  ∀ grant, offered = some grant → TokenNamed flow without start state.log grant

/-- One attempt to get a token from a source that was chosen. -/
theorem tokenFromSource_keeps (tokenHost : Text) (choice : TokenSourceChoice) :
    Keeps flow without start (fun state => .source choice ∈ state.log)
      (flow.tokenFromSource tokenHost choice) (Offers flow without start) := by
  have hnothing : ∀ {before : Deciding → Prop}, Keeps flow without start before
      (pure none : Flow (Option TokenGrant)) (Offers flow without start) :=
    Keeps.pure fun _ _ _ hnone => by cases hnone
  have hgh : ∀ {before : Deciding → Prop}, choice = .ghAuthToken ∨ choice = .ghAuthLogin →
      (∀ state, before state → .source choice ∈ state.log) →
      Keeps flow without start before (flow.ghAuthToken tokenHost) (Offers flow without start) := by
    intro before hchoice hlog
    unfold WorkflowPrerequisiteFlow.ghAuthToken
    split
    · apply Keeps.bind Keeps.receive
      intro first secret hfirst
      apply Keeps.pure
      intro state hstate grant hgrant
      obtain ⟨text, -, rfl⟩ := Option.map_eq_some_iff.mp hgrant
      exact .gh (hstate.1 (hlog first hfirst)) hchoice rfl
    · exact hnothing
  cases choice with
  | paste =>
    apply Keeps.bind Keeps.ask
    intro _ secret _
    cases secret with
    | none => exact hnothing
    | some secret =>
      dsimp only
      split
      · exact hnothing
      · refine Keeps.bind (Keeps.note fun _ _ _ _ hentry => by cases hentry) ?_
        intro _ _ _
        apply Keeps.pure
        intro state hstate grant hgrant
        cases hgrant
        exact .pasted hstate.2 rfl
  | ghAuthToken => exact hgh (Or.inl rfl) fun _ hlog => hlog
  | ghAuthLogin =>
    show Keeps flow without start _ (flow.ghAuthLogin tokenHost) _
    unfold WorkflowPrerequisiteFlow.ghAuthLogin
    split
    · refine Keeps.bind Keeps.receive ?_
      intro first _ hfirst
      exact hgh (Or.inr rfl) fun _ hlog => hlog.1 hfirst
    · exact hnothing
  | acquire =>
    unfold WorkflowPrerequisiteFlow.tokenFromSource
    dsimp only
    cases hconfigured : flow.policy.githubToken.acquire with
    | none => exact hnothing
    | some acquire =>
      intro state hkept hlog
      have hacquires : Keeps flow without start (fun state => .source .acquire ∈ state.log)
          (flow.acquireToken acquire tokenHost) (OffersAcquired flow acquire tokenHost) :=
        acquireToken_keeps tokenHost hconfigured
      refine (hacquires state hkept hlog).mono ?_ fun _ hhalt => hhalt
      intro offered after hafter
      refine ⟨hafter.1, hafter.2.1, ?_⟩
      intro grant hgrant
      obtain ⟨-, command, hacquired⟩ := hafter.2.2 grant hgrant
      exact .command (hafter.2.1 hlog) hacquired
  | decline => exact hnothing

/-- Asking where a token comes from keeps what is owed. -/
theorem askTokenSource_keeps (tokenHost : Text) (attempts : Nat) :
    Keeps flow without start before (flow.askTokenSource tokenHost attempts) fun _ _ => True := by
  induction attempts generalizing before with
  | zero => exact .pure fun _ _ => trivial
  | succ attempts ih =>
    apply Keeps.bind Keeps.ask
    intro _ choice _
    refine Keeps.bind (Keeps.note fun _ _ _ _ hentry => by cases hentry) ?_
    intro _ _ _
    split
    · exact .pure fun _ _ => trivial
    · refine .bind ((tokenFromSource_keeps tokenHost choice).weaken
        (fun _ hlog => hlog.2) fun _ _ h => h) ?_
      intro _ offered _
      cases offered with
      | none => exact ih
      | some grant =>
        exact (grantToken_keeps grant).weaken (fun _ hoffers => hoffers.2 grant rfl) fun _ _ h => h

theorem envGrant_host {tokenHost var : Text} (h : flow.host.envGrant tokenHost var = some grant) :
    flow.host.envGrant grant.host var = some grant := by
  obtain ⟨secret, hsecret, rfl⟩ := Option.map_eq_some_iff.mp h
  exact h

/-- So does asking for a token. -/
theorem askToken_keeps (tokenHost remote : Text) (envVar : Option Text) :
    Keeps flow without start before (flow.askToken tokenHost remote envVar) fun _ _ => True := by
  cases envVar with
  | none => exact askTokenSource_keeps tokenHost _
  | some var =>
    apply Keeps.bind Keeps.ask
    intro _ choice _
    refine Keeps.bind (Keeps.note fun _ _ _ _ hentry => by cases hentry) ?_
    intro first _ hfirst
    cases hgrant : flow.host.envGrant tokenHost var <;> cases choice
    case some.thisRun grant =>
      exact (grantToken_keeps grant).weaken
        (fun _ hlog => .consented hlog.2 (by simp) (envGrant_host hgrant)) fun _ _ h => h
    case some.remember grant =>
      have hstores : Keeps flow without start (fun state =>
          first.log ⊆ state.log ∧ Entry.consented var .remember ∈ state.log)
          (flow.remember remote .githubToken (.tokenEnv var)) fun _ _ => True :=
        (remember_keeps remote (by simp) _).weaken
          (fun _ hlog => Or.inr ⟨var, hlog.2, rfl⟩) fun _ _ h => h
      apply Keeps.bind hstores
      intro _ _ hlog
      exact (grantToken_keeps grant).weaken
        (fun _ hmore => .consented (hmore.1 hlog.2) (by simp) (envGrant_host hgrant)) fun _ _ h => h
    all_goals exact askTokenSource_keeps tokenHost _

/-- A remembered token was named before. -/
theorem Kept.rememberedToken_named (h : Kept flow without start state) {tokenHost : Text}
    (hremembered : flow.rememberedToken state tokenHost remote = some grant) :
    TokenNamed flow without start state.log grant := by
  obtain ⟨var, hfiltered, hgrant⟩ := Option.bind_eq_some_iff.mp hremembered
  have hvar : (flow.remembered state remote).tokenEnv = some var :=
    (Option.filter_eq_some_iff.mp hfiltered).1
  have hlookup : flow.lookup state remote .githubToken = some (.tokenEnv var) := by
    unfold WorkflowPrerequisiteFlow.remembered at hvar
    dsimp only at hvar
    cases hlookup : flow.lookup state remote .githubToken with
    | none => simp [hlookup] at hvar
    | some grant => cases grant <;> simp_all
  obtain ⟨about, now, hrecord⟩ := lookup_mem hlookup
  rcases h.records _ hrecord with hstart | ⟨_, _, _, _, -, -, heq⟩ | ⟨other, hanswer, heq⟩
  · exact .remembered ⟨about, now, hstart⟩ (envGrant_host hgrant)
  · cases heq
  · cases heq
    exact .consented hanswer (by simp) (envGrant_host hgrant)

/-- A token that the policy allows is offered as it is named. -/
theorem allowedToken_keeps (hallows : AllowsWithin without flow.policy) (rejected : Bool)
    (tokenHost : Text) :
    Keeps flow without start before (flow.allowedToken rejected tokenHost)
      (Offers flow without start) := by
  have hnothing : ∀ {before : Deciding → Prop}, Keeps flow without start before
      (pure none : Flow (Option TokenGrant)) (Offers flow without start) :=
    Keeps.pure fun _ _ _ hnone => by cases hnone
  unfold WorkflowPrerequisiteFlow.allowedToken
  dsimp only
  split
  case isFalse => exact hnothing
  case isTrue hallow =>
    have huse : flow.policy.githubToken.use = .allow := hallow.2.1
    cases hgrant : flow.envVar.bind (flow.host.envGrant tokenHost) with
    | some grant =>
      apply Keeps.pure
      intro state _ other hother
      cases hother
      obtain ⟨var, hvar, hgrant⟩ := Option.bind_eq_some_iff.mp hgrant
      have hmem : var ∈ flow.policy.githubToken.envVars := List.mem_of_find?_eq_some hvar
      exact .allowed ⟨hallows.token.use huse, hallows.token.envVars var hmem huse⟩
        (envGrant_host hgrant)
    | none =>
      dsimp only
      cases hconfigured : flow.policy.githubToken.acquire with
      | none => exact hnothing
      | some acquire =>
        refine (acquireToken_keeps tokenHost hconfigured).weaken (fun _ h => h) ?_
        intro offered state hoffers grant hgrant
        obtain ⟨-, command, hacquired⟩ := hoffers grant hgrant
        exact .allowedCommand (hallows.token.use huse) (hallows.token.acquire acquire hconfigured)
          hacquired

/-- A flag decides about the token within what is owed. -/
theorem resolveTokenFlag_keeps (tokenHost : Text) {flag : TokenFlag}
    (hflag : flow.flags.token = some flag) :
    Keeps flow without start before (flow.resolveTokenFlag tokenHost flag) fun _ _ => True := by
  cases flag with
  | deny => exact Keeps.pure fun _ _ => trivial
  | env var =>
    unfold WorkflowPrerequisiteFlow.resolveTokenFlag
    dsimp only
    cases hgrant : flow.host.envGrant tokenHost var with
    | some grant =>
      exact (grantToken_keeps grant).weaken
        (fun _ _ => .flag hflag (envGrant_host hgrant)) fun _ _ h => h
    | none => exact Keeps.pure fun _ _ => trivial
  | acquire =>
    unfold WorkflowPrerequisiteFlow.resolveTokenFlag
    dsimp only
    cases hconfigured : flow.policy.githubToken.acquire with
    | none => exact Keeps.pure fun _ _ => trivial
    | some acquire =>
      apply Keeps.bind (acquireToken_keeps tokenHost hconfigured)
      intro _ offered _
      cases offered with
      | none => exact Keeps.pure fun _ _ => trivial
      | some grant =>
        refine (grantToken_keeps grant).weaken ?_ fun _ _ h => h
        intro _ hoffers
        obtain ⟨-, command, hacquired⟩ := hoffers.2 grant rfl
        exact .flagCommand hflag hacquired
  | secret name => exact Keeps.fail

/-- So does the whole decision about the token. -/
theorem resolveToken_keeps (hallows : AllowsWithin without flow.policy) (check : PrerequisiteCheck)
    (tokenHost remote : Text) :
    Keeps flow without start before (flow.resolveToken check tokenHost remote)
      fun _ _ => True := by
  apply Keeps.bind (withdrawRejected_keeps check)
  intro _ _ _
  apply Keeps.bind Keeps.getState
  intro _ state _
  split
  · exact Keeps.pure fun _ _ => trivial
  split
  · exact Keeps.pure fun _ _ => trivial
  cases hflag : if WorkflowPrerequisiteFlow.rejects check then none else flow.flags.token with
  | some flag =>
    have hflag : flow.flags.token = some flag := by
      split_ifs at hflag
      exact hflag
    exact resolveTokenFlag_keeps tokenHost hflag
  | none =>
    dsimp only
    split
    · exact Keeps.pure fun _ _ => trivial
    cases hremembered : if WorkflowPrerequisiteFlow.rejects check then none
        else flow.rememberedToken state tokenHost remote with
    | some grant =>
      intro now hkept hnow
      have hremembered : flow.rememberedToken now tokenHost remote = some grant := by
        split_ifs at hremembered
        rw [← hnow.2.1]
        exact hremembered
      exact grantToken_keeps grant now hkept (hkept.rememberedToken_named hremembered)
    | none =>
      apply Keeps.bind (allowedToken_keeps hallows _ tokenHost)
      intro _ offered _
      cases offered with
      | some grant =>
        exact (grantToken_keeps grant).weaken (fun _ hoffers => hoffers.2 grant rfl) fun _ _ h => h
      | none =>
        dsimp only
        split
        · exact Keeps.pure fun _ _ => trivial
        split
        · exact Keeps.pure fun _ _ => trivial
        · exact askToken_keeps tokenHost remote _

end token

/-! ## All checks -/

section checks

variable {before : Deciding → Prop}

/-- What a satisfied check lets the credentials be used for is no credential. -/
theorem noteDestination_same (prerequisite : WorkflowPrerequisite) (grants : PrerequisiteGrants) :
    (flow.noteDestination prerequisite grants).ssh = grants.ssh ∧
      (flow.noteDestination prerequisite grants).token = grants.token := by
  unfold WorkflowPrerequisiteFlow.noteDestination
  split
  · exact ⟨rfl, rfl⟩
  · split
    · split <;> exact ⟨rfl, rfl⟩
    · split <;> exact ⟨rfl, rfl⟩
    · split <;> exact ⟨rfl, rfl⟩
    · exact ⟨rfl, rfl⟩

/-- Settling a check keeps what is owed. -/
theorem settle_keeps (check : PrerequisiteCheck) (resolution : Resolution) :
    Keeps flow without start before (flow.settle check resolution) fun _ _ => True := by
  cases resolution with
  | satisfied explanation =>
    refine .andThen (.modifyState ?_) ?_
    · intro state hkept _
      obtain ⟨hssh, htoken⟩ := @noteDestination_same flow check.prerequisite state.grants
      refine ⟨hkept.granted ?_ ?_, fun _ hentry => hentry, trivial⟩
      · intro grant hgrant
        exact Or.inl (hssh ▸ hgrant)
      · intro grant hgrant
        exact Or.inl (htoken ▸ hgrant)
    · intro _ _ _
      exact .pure fun _ _ => trivial
  | declined | unchanged => exact .pure fun _ _ => trivial

/-- So does resolving one. -/
theorem resolveCheck_keeps (hallows : AllowsWithin without flow.policy) (check : PrerequisiteCheck)
    (tokenDeclined : Bool) :
    Keeps flow without start before (flow.resolveCheck flow.resolvers check tokenDeclined)
      fun _ _ => True := by
  have hpair : ∀ {program : Flow Resolution}, Keeps flow without start before program
      (fun _ _ => True) → Keeps flow without start before
        (program >>= fun resolution => pure (resolution, tokenDeclined)) fun _ _ => True := by
    intro program hprogram
    apply Keeps.bind hprogram
    intro _ _ _
    exact Keeps.pure fun _ _ => trivial
  unfold WorkflowPrerequisiteFlow.resolveCheck
  cases check.prerequisite with
  | gitIdentity => exact hpair (resolveIdentity_keeps check)
  | pushAuthSsh => exact hpair (resolveSsh_keeps hallows check _)
  | pushAuthHttps | gitHubToken =>
    apply Keeps.bind Keeps.getState
    intro _ state _
    split
    · exact Keeps.pure fun _ _ => trivial
    · apply Keeps.bind (resolveToken_keeps hallows check _ _)
      intro _ _ _
      exact Keeps.pure fun _ _ => trivial
  | _ => exact hpair (Keeps.of_changes (askGap_changes check _))

/-- So does deciding all checks of a report. -/
theorem decideChecks_keeps (hallows : AllowsWithin without flow.policy) (checks : List PrerequisiteCheck)
    (tokenDeclined : Bool) :
    Keeps flow without start before (flow.decideChecks flow.resolvers checks tokenDeclined)
      fun _ _ => True := by
  induction checks generalizing tokenDeclined before with
  | nil => exact .pure fun _ _ => trivial
  | cons check rest ih =>
    apply Keeps.bind (resolveCheck_keeps hallows check tokenDeclined)
    intro _ resolved _
    apply Keeps.bind (settle_keeps check resolved.1)
    intro _ _ _
    apply Keeps.bind (ih resolved.2)
    intro _ _ _
    exact Keeps.pure fun _ _ => trivial

theorem showReport_keeps (shows : Bool) :
    Keeps flow without start before (WorkflowPrerequisiteFlow.showReport shows)
      fun _ state => before state := by
  unfold WorkflowPrerequisiteFlow.showReport
  split
  · exact .ask
  · exact .pure fun _ h => h

/-- A run gives what it has granted. -/
theorem decide_keeps (hallows : AllowsWithin without flow.policy) (checks : List PrerequisiteCheck)
    (shows : Bool) :
    Keeps flow without start before (flow.decide checks shows)
      fun outcome state => outcome.grants = state.grants := by
  apply Keeps.bind (showReport_keeps _)
  intro _ _ _
  apply Keeps.bind (decideChecks_keeps hallows checks false)
  intro _ _ _
  apply Keeps.bind Keeps.getState
  intro _ state _
  apply Keeps.bind (showReport_keeps _)
  intro _ _ _
  apply Keeps.pure
  intro now hnow
  exact congrArg Deciding.grants hnow.2.2.1

end checks

end Awman.Consent
