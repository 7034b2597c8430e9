import Awman.PrerequisiteConsent

/-!
# The order of consent

Each credential is decided by an explicit flag, a denial, a remembered decision, a policy that allows
it, a question, or the answer of a front end with nobody at it, in this order.  The program does so
for keys and tokens.  An identity that is fixed and allowed comes before a remembered one.
-/

namespace Awman.Consent

open Awman.Grants (GrantRecord)
open Awman.Interaction
open Awman.Squad Awman.RawArgs

/-! ## The documented order -/

/-- What can decide about a credential. -/
structure Sources (γ : Type) where
  /-- An explicit flag decides. -/
  flag : Option (Flow Resolution)
  /-- It is denied, and never asked about. -/
  denied : Bool
  remembered : Option γ
  allowed : Flow (Option γ)
  /-- Nothing has to be decided. -/
  needless : Bool
  /-- The person at the front end is asked. -/
  question : Flow Resolution
  headless : Resolution
  grant : γ → Flow Resolution

/-- Decide in the documented order. -/
def Sources.inOrder {γ : Type} (sources : Sources γ) (canAsk : Bool) : Flow Resolution :=
  match sources.flag with
  | some decision => decision
  | none =>
    if sources.denied then pure .unchanged
    else
      match sources.remembered with
      | some credential => sources.grant credential
      | none => do
        match ← sources.allowed with
        | some credential => sources.grant credential
        | none =>
          if sources.needless then pure .unchanged
          else if canAsk then sources.question
          else pure sources.headless

namespace WorkflowPrerequisiteFlow

variable (flow : WorkflowPrerequisiteFlow)

/-- What can decide about the identity. -/
def identitySources (check : PrerequisiteCheck) (state : Deciding) :
    Sources (Text × Text × IdentitySource) where
  flag := flow.flags.identity.map (flow.resolveIdentityFlag check)
  denied := flow.policy.gitIdentity.use = .deny
  remembered := (flow.remembered state origin).identity.map fun (name, email) =>
    (name, email, .remembered)
  allowed := pure (
    if flow.policy.gitIdentity.use = .allow then
      match flow.policy.gitIdentity.fixed with
      | some (name, email) => some (name, email, flow.fixedSource)
      | none =>
        if check.status = .satisfied then none
        else flow.host.hostIdentity.map fun (name, email) => (name, email, .host)
    else none)
  needless := check.status = .satisfied
  question := if check.status = .unknown then pure .unchanged else askIdentity
  headless := headlessDeclined check "git identity"
  grant := fun (name, email, source) => grantIdentity name email source

/-- What can decide about keys. -/
def sshSources (check : PrerequisiteCheck) (remote : Text) (state : Deciding) :
    Sources SshGrant where
  flag := flow.flags.ssh.map flow.resolveSshFlag
  denied := flow.policy.ssh.use = .deny
  remembered := flow.rememberedSsh state remote
  allowed := pure flow.allowedSsh
  needless := false
  question :=
    if ¬(check.remediations.contains .mountSshKey ∨ check.remediations.contains .mountSshDir) then
      pure .unchanged
    else flow.askSsh remote
  headless := headlessDeclined check "SSH key"
  grant := grantSsh

/-- What can decide about a token; one that was rejected is not taken again. -/
def tokenSources (check : PrerequisiteCheck) (tokenHost remote : Text) (state : Deciding) :
    Sources TokenGrant where
  flag := (if rejects check then none else flow.flags.token).map (flow.resolveTokenFlag tokenHost)
  denied := flow.policy.githubToken.use = .deny
  remembered := if rejects check then none else flow.rememberedToken state tokenHost remote
  allowed := flow.allowedToken (rejects check) tokenHost
  needless := check.status = .satisfied
  question := flow.askToken tokenHost remote (if rejects check then none else flow.envVar)
  headless := headlessDeclined check "GitHub token"
  grant := grantToken

/-- Decide each credential in the documented order, unless it was granted before. -/
def documented : Resolvers where
  identity check := do
    let state ← getState
    if state.grants.identity.isSome then pure (.satisfied none)
    else (flow.identitySources check state).inOrder flow.canAsk
  ssh check remote := do
    let state ← getState
    if state.grants.ssh.isSome ∧
        (flow.host.remoteUrl remote).any (· ∈ state.grants.sshDestinations) then
      pure (.satisfied none)
    else (flow.sshSources check remote state).inOrder flow.canAsk
  token check tokenHost remote := do
    withdrawRejected check
    let state ← getState
    if (state.grants.token.any fun token => token.host = tokenHost) ∧
        (flow.host.remoteUrl remote).any (· ∈ state.grants.tokenDestinations) then
      pure (.satisfied none)
    -- No token can help with this host.
    else if check.remediations.contains .addOverlayHint then pure .unchanged
    else (flow.tokenSources check tokenHost remote state).inOrder flow.canAsk

/-- A fixed identity is allowed where another one is remembered. -/
def Preempts (store : List GrantRecord) : Prop :=
  flow.flags.identity = none ∧ flow.policy.gitIdentity.use = .allow ∧
    flow.policy.gitIdentity.fixed.isSome = true ∧
    (flow.remembered ⟨{}, store, [], []⟩ origin).identity.isSome = true

end WorkflowPrerequisiteFlow

/-! ## Keys and tokens -/

section order

variable {flow : WorkflowPrerequisiteFlow}

/-- A person is asked exactly when nobody is not there. -/
theorem asked_or_headless (question headless : Flow Resolution) :
    (if !flow.canAsk then headless else question) = if flow.canAsk then question else headless := by
  cases flow.canAsk <;> rfl

theorem resolveSsh_inOrder (check : PrerequisiteCheck) (remote : Text) :
    flow.resolveSsh check remote = flow.documented.ssh check remote := by
  refine congrArg (getState >>= ·) (funext fun state => ?_)
  split
  · rfl
  unfold Sources.inOrder WorkflowPrerequisiteFlow.sshSources
  dsimp only
  cases flow.flags.ssh with
  | some flag => rfl
  | none =>
    by_cases hdenied : flow.policy.ssh.use = .deny
    · simp only [hdenied, decide_true, if_true, Option.map_none]
    · simp only [hdenied, decide_false, if_false, Option.map_none, Bool.false_eq_true]
      cases flow.rememberedSsh state remote with
      | some grant => rfl
      | none =>
        rw [asked_or_headless]
        cases flow.allowedSsh <;> rfl

theorem resolveToken_inOrder (check : PrerequisiteCheck) (tokenHost remote : Text) :
    flow.resolveToken check tokenHost remote = flow.documented.token check tokenHost remote := by
  refine congrArg (WorkflowPrerequisiteFlow.withdrawRejected check >>= ·) (funext fun _ => ?_)
  refine congrArg (getState >>= ·) (funext fun state => ?_)
  split
  · rfl
  split
  · rfl
  unfold Sources.inOrder WorkflowPrerequisiteFlow.tokenSources
  dsimp only
  cases (if WorkflowPrerequisiteFlow.rejects check then none else flow.flags.token) with
  | some flag => rfl
  | none =>
    by_cases hdenied : flow.policy.githubToken.use = .deny
    · simp only [hdenied, decide_true, if_true, Option.map_none]
    · simp only [hdenied, decide_false, if_false, Option.map_none, Bool.false_eq_true]
      cases (if WorkflowPrerequisiteFlow.rejects check then none
          else flow.rememberedToken state tokenHost remote) with
      | some grant => rfl
      | none =>
        refine congrArg (flow.allowedToken _ tokenHost >>= ·) (funext fun offered => ?_)
        cases offered with
        | some grant => rfl
        | none =>
          rw [asked_or_headless]
          by_cases hneedless : check.status = .satisfied
          · simp only [hneedless, decide_true, if_true]
          · simp only [hneedless, decide_false, if_false, Bool.false_eq_true]

theorem resolveNewIdentity_inOrder (check : PrerequisiteCheck) (state : Deciding)
    (hunless : flow.flags.identity = none → flow.policy.gitIdentity.use = .allow →
      flow.policy.gitIdentity.fixed.isSome = true →
      (flow.remembered state WorkflowPrerequisiteFlow.origin).identity = none) :
    flow.resolveNewIdentity check state =
      (flow.identitySources check state).inOrder flow.canAsk := by
  unfold Sources.inOrder WorkflowPrerequisiteFlow.identitySources
    WorkflowPrerequisiteFlow.resolveNewIdentity
  dsimp only
  cases hflag : flow.flags.identity with
  | some flag => rfl
  | none =>
    by_cases hdenied : flow.policy.gitIdentity.use = .deny
    · simp only [hdenied, decide_true, if_true, Option.map_none]
    simp only [hdenied, decide_false, if_false, Option.map_none, Bool.false_eq_true]
    rw [asked_or_headless]
    by_cases hallow : flow.policy.gitIdentity.use = .allow
    · simp only [hallow, if_true]
      cases hfixed : flow.policy.gitIdentity.fixed with
      | some fixed =>
        rw [hunless hflag hallow (by rw [hfixed]; rfl)]
        rfl
      | none =>
        cases (flow.remembered state WorkflowPrerequisiteFlow.origin).identity with
        | some found => rfl
        | none =>
          by_cases hneedless : check.status = .satisfied
          · simp only [hneedless, decide_true, if_true]
            rfl
          · simp only [hneedless, decide_false, if_false, Bool.false_eq_true]
            cases flow.host.hostIdentity <;> rfl
    · simp only [hallow, if_false]
      cases (flow.remembered state WorkflowPrerequisiteFlow.origin).identity with
      | some found => rfl
      | none =>
        by_cases hneedless : check.status = .satisfied
        · simp only [hneedless, decide_true, if_true]
          rfl
        · simp only [hneedless, decide_false, if_false, Bool.false_eq_true]
          rfl

/-- Unless a fixed identity is allowed where another one is remembered, identities are decided in
order. -/
theorem resolveIdentity_inOrder {without : PrerequisitePolicy} {start : Deciding}
    (hunless : ¬ flow.Preempts start.store) (check : PrerequisiteCheck) :
    Agrees (Kept flow without start) (flow.resolveIdentity check)
      (flow.documented.identity check) := by
  intro world hkept
  change (if world.state.grants.identity.isSome then pure (.satisfied none)
      else flow.resolveNewIdentity check world.state : Flow Resolution) world =
    (if world.state.grants.identity.isSome then pure (.satisfied none)
      else (flow.identitySources check world.state).inOrder flow.canAsk : Flow Resolution) world
  rw [resolveNewIdentity_inOrder check world.state]
  intro hflag hallow hfixed
  rw [hkept.identity, ← Option.not_isSome_iff_eq_none]
  intro hremembered
  exact hunless ⟨hflag, hallow, hfixed, hremembered⟩

/-! ## All checks -/

section checks

variable {without : PrerequisitePolicy} {start : Deciding}

/-- What a program keeps, it keeps until it stops. -/
theorem Keeps.ensures {α : Type} {program : Flow α} {post : α → Deciding → Prop}
    (h : Keeps flow without start (fun _ => True) program post) (state : Deciding)
    (hkept : Kept flow without start state) :
    Ensures program state (fun _ after => Kept flow without start after) fun _ => True := by
  refine (h state hkept trivial).mono ?_ fun _ _ => trivial
  intro _ after hafter
  exact hafter.1

section

variable (hunless : ¬ flow.Preempts start.store)
include hunless

theorem resolveCheck_inOrder (check : PrerequisiteCheck) (tokenDeclined : Bool) :
    Agrees (Kept flow without start) (flow.resolveCheck flow.resolvers check tokenDeclined)
      (flow.resolveCheck flow.documented check tokenDeclined) := by
  have hssh : flow.resolvers.ssh = flow.documented.ssh := by
    funext check remote
    exact resolveSsh_inOrder check remote
  have htoken : flow.resolvers.token = flow.documented.token := by
    funext check tokenHost remote
    exact resolveToken_inOrder check tokenHost remote
  unfold WorkflowPrerequisiteFlow.resolveCheck
  split
  · exact (resolveIdentity_inOrder hunless check).bind
      (fun state hkept => (resolveIdentity_keeps check).ensures state hkept) fun _ => .refl
  · rw [hssh]
    exact .refl
  · rw [htoken]
    exact .refl
  · rw [htoken]
    exact .refl
  all_goals exact .refl

theorem decideChecks_inOrder (hallows : AllowsWithin without flow.policy)
    (checks : List PrerequisiteCheck) (tokenDeclined : Bool) :
    Agrees (Kept flow without start) (flow.decideChecks flow.resolvers checks tokenDeclined)
      (flow.decideChecks flow.documented checks tokenDeclined) := by
  induction checks generalizing tokenDeclined with
  | nil => exact .refl
  | cons check rest ih =>
    refine (resolveCheck_inOrder hunless check tokenDeclined).bind
      (fun state hkept => (resolveCheck_keeps hallows check tokenDeclined).ensures state hkept) ?_
    intro resolved
    refine Agrees.refl.bind
      (fun state hkept => (settle_keeps check resolved.1).ensures state hkept) ?_
    intro settled
    refine (ih resolved.2).bind
      (fun state hkept => (decideChecks_keeps hallows rest resolved.2).ensures state hkept) ?_
    intro decided
    exact .refl

/-- Unless a fixed identity is allowed where another one is remembered, every credential is decided
in order. -/
theorem decide_inOrder (hallows : AllowsWithin without flow.policy) (checks : List PrerequisiteCheck)
    (shows : Bool) :
    Agrees (Kept flow without start) (flow.decide checks shows)
      (flow.decideWith flow.documented checks shows) := by
  refine Agrees.refl.bind (fun state hkept => (showReport_keeps _).ensures state hkept) ?_
  intro _
  refine (decideChecks_inOrder hunless hallows checks false).bind
    (fun state hkept => (decideChecks_keeps hallows checks false).ensures state hkept) ?_
  intro decided
  exact .refl

end

end checks

end order

end Awman.Consent
