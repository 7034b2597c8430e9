import Awman.TaskSettings

/-!
# Reading the settings of a request

The daemon parses the arguments of a request into a context in which every flag holds what it was
set to, and reads the decisions about credentials back from their flags.
-/

namespace Awman.Squad

open Awman.Network (trim)
open Awman.Overlay (HostPath textBytes)
open Awman.Utf8Text (fromUtf8Lossy)
open Awman.RawArgs Awman.Checks

/-! ## The context -/

section context

variable {server : Server} {spec : CommandSpec SquadFlag} {settings : List (Setting SquadFlag)}
  {words : List Text} {arguments : NameMap Text (List Text)} {paths : List Text}

/-- The context of the settings: the daemon is never asked. -/
def settledContext (server : Server) (spec : CommandSpec SquadFlag)
    (settings : List (Setting SquadFlag)) (arguments : NameMap Text (List Text))
    (paths : List Text) : BuildContext SquadFlag where
  path := server.path
  spec := spec
  parsed :=
    { flags := (settings.foldl (Setting.apply spec) ∅).insert .nonInteractive (.bool true)
      arguments := arguments
      pathArguments := paths }
  frontend := .squadDaemon

/-- A command the daemon runs unattended. -/
structure Unattended (spec : CommandSpec SquadFlag) : Prop where
  /-- Every flag is found. -/
  regular : spec.Regular
  /-- No argument takes every remaining token. -/
  trailing : spec.trailing = false
  /-- Nobody is asked. -/
  profile : ∀ flags, (frontendFlagDefaults .squadDaemon).foldl (applyFrontendDefault spec) flags =
    flags.insert .nonInteractive (.bool true)
  /-- Only the flags that decide who is asked are not for the daemon. -/
  visible : ∀ flag ∈ spec.flags, flag.key ≠ .interview → flag.key ≠ .nonInteractive →
    flag.frontends = .all

/-- The settings of a request can be given together to the command. -/
structure Given (spec : CommandSpec SquadFlag) (settings : List (Setting SquadFlag)) : Prop where
  /-- Each flag takes its value. -/
  fits : ∀ setting ∈ settings, setting.Fits spec
  /-- No flag excludes another. -/
  compatible : spec.Compatible (.nonInteractive :: settings.map Setting.key)
  /-- Nobody is to be asked. -/
  silent : .interview ∉ settings.map Setting.key ∧ .nonInteractive ∉ settings.map Setting.key

section

variable (hspec : Unattended spec) (hgiven : Given spec settings)
include hspec hgiven

/-- The arguments of a request lead to the context of its settings. -/
theorem daemonContext_settings (hwords : ∀ word ∈ words, word.head? ≠ some '-')
    (hassign : assignPositionals spec.arguments words (∅, []) = ((arguments, paths), [])) :
    daemonContext server spec (words ++ settings.flatMap (Setting.argv spec)) =
      .ok (settledContext server spec settings arguments paths) := by
  have hcompatible : spec.Compatible (settings.map Setting.key) := by
    intro flag hflag hkey other hother hboth
    exact hgiven.compatible flag hflag (List.mem_cons_of_mem _ hkey) other hother
      (List.mem_cons_of_mem _ hboth)
  have hparsed := @parseAgainstSpec_settings _ _ _ server.path _ _ _ _ hspec.regular hspec.trailing
    hwords hgiven.fits hcompatible hassign
  have hvisible : checkVisibility spec server.path .squadDaemon
      (settings.foldl (Setting.apply spec) ∅) = .ok () := by
    apply checkVisibility_settings
    intro flag hflag hkey
    apply hspec.visible flag hflag
    · intro hinterview
      rw [hinterview] at hkey
      exact hgiven.silent.1 hkey
    · intro hsilent
      rw [hsilent] at hkey
      exact hgiven.silent.2 hkey
  have hconflicts : (settledContext server spec settings arguments paths).validateConflicts =
      .ok () := by
    have hnone : firstConflict (settledContext server spec settings arguments paths).spec
        (settledContext server spec settings arguments paths).supplied = none := by
      change firstConflict spec _ = none
      apply firstConflict_eq_none hgiven.compatible
      intro key hsupplied
      by_cases hkey : key = .nonInteractive
      · rw [hkey]
        exact List.mem_cons_self
      apply List.mem_cons_of_mem
      apply @key_mem_of_isSome _ _ spec
      unfold BuildContext.supplied settledContext at hsupplied
      dsimp only at hsupplied
      rw [AList.lookup_insert_ne hkey] at hsupplied
      cases hlookup : (settings.foldl (Setting.apply spec) ∅).lookup key with
      | none =>
        rw [hlookup] at hsupplied
        cases hsupplied
      | some value => rfl
    rw [BuildContext.validateConflicts, hnone]
  unfold daemonContext parseRawArgsWithProfile
  rw [hparsed]
  simp only [bind, Except.bind, hvisible, hspec.profile]
  change (settledContext server spec settings arguments paths).validateConflicts >>= _ = _
  rw [hconflicts]
  rfl

/-- Every flag holds what it was set to. -/
theorem settled {key : SquadFlag} {kind : FlagKind} (htakes : spec.Takes key kind)
    (hkey : key ≠ .nonInteractive) :
    (settledContext server spec settings arguments paths).Settled kind key settings := by
  obtain ⟨flag, hflag, rfl, rfl⟩ := htakes
  unfold BuildContext.Settled settledContext
  dsimp only
  rw [AList.lookup_insert_ne hkey]
  exact lookup_settings hspec.regular hgiven.fits hflag

/-- The value of a text flag without a default. -/
theorem str_settled {key : SquadFlag}
    {kind : FlagKind} (htakes : spec.Takes key kind) (hkind : kind ≠ .bool ∧ kind ≠ .vecString)
    (hkey : key ≠ .nonInteractive) {value : Option Text}
    (hvalues : valuesOf key settings = value.toList)
    (hdefault : value = none → ((spec.flags.find? (·.key = key)).map FlagSpec.default).getD .none =
      .none) :
    (settledContext server spec settings arguments paths).str key = value := by
  rw [(settled hspec hgiven htakes hkey).str hkind, hvalues]
  cases value with
  | none =>
    have hnone := hdefault rfl
    unfold BuildContext.defaultOf settledContext
    dsimp only
    rw [hnone]
    rfl
  | some text => rfl

/-- The values of a flag that may be repeated. -/
theorem strs_settled {key : SquadFlag} (htakes : spec.Takes key .vecString)
    (hkey : key ≠ .nonInteractive) :
    (settledContext server spec settings arguments paths).strs key = valuesOf key settings :=
  (settled hspec hgiven htakes hkey).strs

/-- A flag without a value is set or not. -/
theorem bool_settled {key : SquadFlag}
    (htakes : spec.Takes key .bool) (hkey : key ≠ .nonInteractive)
    (hdefault : ((spec.flags.find? (·.key = key)).map FlagSpec.default).getD .none =
      .bool false) :
    (settledContext server spec settings arguments paths).bool key =
      decide (Setting.switch key ∈ settings) :=
  (settled hspec hgiven htakes hkey).bool hdefault

end

end context

/-! ## Decisions about credentials -/

/-- Flags as the parser of flags gives them, without a value that looks like a flag, and with a
token that a policy can name. -/
structure PrerequisiteFlags.Carried (flags : PrerequisiteFlags) : Prop where
  identity : ∀ identity ∈ flags.identity, (∃ raw, parseIdentity raw = .ok identity) ∧
    ∀ name email, identity = .fixed name email → name.head? ≠ some '-'
  /-- The SSH key. -/
  ssh : ∀ ssh ∈ flags.ssh, (∃ raw, parseSsh raw = .ok ssh) ∧
    ∀ path, ssh = .key path → (fromUtf8Lossy path).head? ≠ some '-'
  token : ∀ token ∈ flags.token, (∃ debug raw, parseToken debug raw = .ok token) ∧
    token ≠ .acquire ∧ ∀ name, token ≠ .secret name
  checkOnly : flags.checkOnly = false

/-- What the daemon makes of decisions: it refuses those that widen its policy, and marks the others
as decisions of a remote client. -/
def received (server : Server) (flags : Option PrerequisiteFlags) :
    Except CommandError (Option PrerequisitePolicy) :=
  let flags := flags.getD {}
  if flags.isEmpty then .ok none
  else (checkFlagWidening .squadDaemon flags server.policy).map fun _ =>
    some (PrerequisitePolicy.fromFlags flags).remote

section prerequisites

variable {server : Server} {ctx : BuildContext SquadFlag} {flags : Option PrerequisiteFlags}

section

variable (flags : PrerequisiteFlags)

/-- The value a policy of flags gives the identity flag. -/
theorem fromFlags_gitIdentity :
    (PrerequisitePolicy.fromFlags flags).gitIdentity.flagValue =
      flags.identity.bind fun identity => (IdentityPolicy.applyFlag identity).flagValue := by
  unfold PrerequisitePolicy.fromFlags PrerequisitePolicy.applyFlags
  cases flags.identity <;> rfl

/-- The value a policy of flags gives the flag of the SSH key. -/
theorem fromFlags_ssh :
    (PrerequisitePolicy.fromFlags flags).ssh.flagValue =
      flags.ssh.bind fun ssh => (SshPolicy.applyFlag ssh).flagValue := by
  unfold PrerequisitePolicy.fromFlags PrerequisitePolicy.applyFlags
  cases flags.ssh <;> rfl

/-- The value a policy of flags gives the flag of the token. -/
theorem fromFlags_githubToken :
    (PrerequisitePolicy.fromFlags flags).githubToken.flagValue = flags.token.bind fun token =>
      ((default : PrerequisitePolicy).githubToken.applyFlag token).flagValue := by
  unfold PrerequisitePolicy.fromFlags PrerequisitePolicy.applyFlags
  cases flags.token <;> rfl

/-- What a policy of flags says about unsatisfied prerequisites. -/
theorem fromFlags_unresolved :
    (PrerequisitePolicy.fromFlags flags).unresolved = flags.unresolved := by
  unfold PrerequisitePolicy.fromFlags PrerequisitePolicy.applyFlags
  cases flags.unresolved <;> rfl

end

/-- A flag is read back from the value it takes. -/
theorem readFlag_eq {α : Type} {key : SquadFlag} {parse : Text → Except String α}
    {flagValue : α → Option Text} {flag : Option α} (hvalue : ctx.str key = flag.bind flagValue)
    (hread : ∀ choice ∈ flag, ∃ value, flagValue choice = some value ∧ parse value = .ok choice) :
    readFlag ctx key parse = .ok flag := by
  unfold readFlag
  rw [hvalue]
  cases flag with
  | none => rfl
  | some choice =>
    obtain ⟨value, hsome, hparse⟩ := hread choice rfl
    rw [Option.bind_some, hsome]
    simp only [orInvalid, hparse]
    rfl

/-- The flags of a policy are read back from the values they take. -/
theorem parsePrerequisiteFlags_eq {flags : PrerequisiteFlags} (hflags : flags.Carried)
    (hidentity : ctx.str .prerequisiteIdentity =
      (PrerequisitePolicy.fromFlags flags).gitIdentity.flagValue)
    (hssh : ctx.str .prerequisiteSsh = (PrerequisitePolicy.fromFlags flags).ssh.flagValue)
    (htoken : ctx.str .prerequisiteToken =
      (PrerequisitePolicy.fromFlags flags).githubToken.flagValue)
    (hunresolved : ctx.str .prerequisiteUnresolved =
      (PrerequisitePolicy.fromFlags flags).unresolved.map UnresolvedMode.asStr) :
    parsePrerequisiteFlags server ctx = .ok flags := by
  rw [fromFlags_gitIdentity] at hidentity
  rw [fromFlags_ssh] at hssh
  rw [fromFlags_githubToken] at htoken
  rw [fromFlags_unresolved, Option.map_eq_bind] at hunresolved
  have hreadIdentity : readFlag ctx .prerequisiteIdentity parseIdentity = .ok flags.identity := by
    apply readFlag_eq hidentity
    intro identity hsome
    obtain ⟨⟨raw, hraw⟩, -⟩ := hflags.identity identity hsome
    exact parseIdentity_flagValue hraw
  have hreadSsh : readFlag ctx .prerequisiteSsh parseSsh = .ok flags.ssh := by
    apply readFlag_eq hssh
    intro ssh hsome
    obtain ⟨⟨raw, hraw⟩, -⟩ := hflags.ssh ssh hsome
    exact parseSsh_flagValue hraw
  have hreadToken : readFlag ctx .prerequisiteToken (parseToken server.debug) =
      .ok flags.token := by
    apply readFlag_eq htoken
    intro token hsome
    obtain ⟨⟨debug, raw, hraw⟩, hacquire, hsecret⟩ := hflags.token token hsome
    exact parseToken_flagValue hraw hacquire hsecret _
  have hsecret : refuseSecret ctx flags.token = .ok flags.token := by
    cases hsome : flags.token with
    | none => rfl
    | some token =>
      cases token with
      | secret name => exact absurd rfl ((hflags.token _ hsome).2.2 name)
      | _ => rfl
  have hreadUnresolved : readFlag ctx .prerequisiteUnresolved (parseUnresolved server) =
      .ok flags.unresolved := by
    apply readFlag_eq hunresolved
    intro mode _
    cases mode <;> exact ⟨_, rfl, rfl⟩
  unfold parsePrerequisiteFlags
  rw [hreadIdentity, hreadSsh, hreadToken]
  simp only [bind, Except.bind, hsecret, hreadUnresolved]
  have hcheck := hflags.checkOnly
  cases flags
  cases hcheck
  rfl

/-- The daemon receives the decisions of the flags. -/
theorem squadPrerequisitePolicy_eq (hfrontend : ctx.frontend = .squadDaemon)
    (hflags : (flags.getD {}).Carried)
    (hidentity : ctx.str .prerequisiteIdentity =
      (PrerequisitePolicy.fromFlags (flags.getD {})).gitIdentity.flagValue)
    (hssh : ctx.str .prerequisiteSsh =
      (PrerequisitePolicy.fromFlags (flags.getD {})).ssh.flagValue)
    (htoken : ctx.str .prerequisiteToken =
      (PrerequisitePolicy.fromFlags (flags.getD {})).githubToken.flagValue)
    (hunresolved : ctx.str .prerequisiteUnresolved =
      (PrerequisitePolicy.fromFlags (flags.getD {})).unresolved.map UnresolvedMode.asStr) :
    squadPrerequisitePolicy server ctx = received server flags := by
  unfold squadPrerequisitePolicy received
  rw [parsePrerequisiteFlags_eq hflags hidentity hssh htoken hunresolved]
  simp only [bind, Except.bind, hfrontend]
  by_cases hempty : (flags.getD {}).isEmpty = true
  · rw [if_pos hempty, if_pos hempty]
    rfl
  · rw [if_neg hempty, if_neg hempty]
    cases checkFlagWidening .squadDaemon (flags.getD {}) server.policy <;> rfl

end prerequisites

end Awman.Squad
