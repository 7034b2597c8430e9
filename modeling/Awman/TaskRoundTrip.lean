import Awman.TaskReading

/-!
# Requests over the remote gateway

A request that the local gateway accepts reaches the daemon as it was written, up to what the daemon
decides itself: the scope of a plain directory, and whether a decision about credentials widens its
policy.
-/

namespace Awman.Squad

open Awman.Naming (validateTaskSlug isLowerAlnum)
open Awman.Network (trim)
open Awman.Overlay (HostPath textBytes)
open Awman.Utf8Text (fromUtf8Lossy)
open Awman.RawArgs Awman.Checks

/-! ## The two commands -/

/-- The daemon runs `squad add` unattended. -/
theorem squadAdd_unattended : Unattended squadAdd where
  regular := { found := by decide, named := by decide, written := by decide }
  trailing := by decide
  profile := fun _ => rfl
  visible := by decide

/-- The daemon runs `squad edit` unattended. -/
theorem squadEdit_unattended : Unattended squadEdit where
  regular := { found := by decide, named := by decide, written := by decide }
  trailing := by decide
  profile := fun _ => rfl
  visible := by decide

/-- A flag that takes any text. -/
def FlagKind.isFree : FlagKind → Bool
  | .string | .optionalString | .vecString => true
  | _ => false

section fits

variable {spec : CommandSpec SquadFlag} {key : SquadFlag}

section

variable (hfree : ∃ flag ∈ spec.flags, flag.key = key ∧ FlagKind.isFree flag.kind = true)
include hfree

/-- A text that does not look like a flag fits a flag that takes any text. -/
theorem fits_free
    {text : Text} (hdash : text.head? ≠ some '-') : (Setting.value key text).Fits spec := by
  obtain ⟨flag, hflag, hkey, hkind⟩ := hfree
  refine ⟨hdash, flag, hflag, hkey, ?_⟩
  cases hcases : flag.kind with
  | string | optionalString | vecString => rfl
  | _ =>
    rw [hcases] at hkind
    cases hkind

/-- The texts of a flag that takes any text fit. -/
theorem fits_map
    {texts : List Text} (hdash : ∀ text ∈ texts, text.head? ≠ some '-') :
    ∀ setting ∈ texts.map (Setting.value key), setting.Fits spec := by
  intro setting hmem
  obtain ⟨text, htext, rfl⟩ := List.mem_map.mp hmem
  exact fits_free hfree (hdash text htext)

/-- The settings of a value that is set or cleared fit. -/
theorem fits_clearedSettings {clearKey : SquadFlag}
    (hclear : spec.Takes clearKey .bool) {value : Option (Option Text)}
    (hdash : ∀ text, value = some (some text) → text.head? ≠ some '-') :
    ∀ setting ∈ clearedSettings key clearKey value, setting.Fits spec := by
  intro setting hmem
  rcases value with _ | _ | text
  · cases hmem
  · rw [List.mem_singleton.mp hmem]
    exact hclear
  · rw [List.mem_singleton.mp hmem]
    exact fits_free hfree (hdash text rfl)

/-- The settings of values that are replaced or cleared fit. -/
theorem fits_replacedSettings {clearKey : SquadFlag}
    (hclear : spec.Takes clearKey .bool) {values : Option (List Text)}
    (hdash : ∀ texts ∈ values, ∀ text ∈ texts, text.head? ≠ some '-') :
    ∀ setting ∈ replacedSettings key clearKey values, setting.Fits spec := by
  intro setting hmem
  rcases values with _ | _ | ⟨first, rest⟩
  · cases hmem
  · rw [List.mem_singleton.mp hmem]
    exact hclear
  · exact fits_map hfree (hdash _ rfl) setting hmem

end

/-- The digits of a number fit a flag that takes any text. -/
theorem head_digits_ne_dash (number : Nat) : (Nat.toDigits 10 number).head? ≠ some '-' :=
  head_digits_ne (by decide)

/-- The settings of a policy fit the flags of both commands. -/
theorem fits_policy {flags : PrerequisiteFlags} (hflags : flags.Carried)
    (hfree : ∀ key ∈ [SquadFlag.prerequisiteIdentity, .prerequisiteSsh, .prerequisiteToken],
      ∃ flag ∈ spec.flags, flag.key = key ∧ FlagKind.isFree flag.kind = true)
    (hunresolved : spec.Takes .prerequisiteUnresolved (.enum ["warn".toList, "fail".toList])) :
    ∀ setting ∈ (PrerequisitePolicy.fromFlags flags).settings, setting.Fits spec := by
  have hidentity : ∀ text ∈ (PrerequisitePolicy.fromFlags flags).gitIdentity.flagValue.toList,
      text.head? ≠ some '-' := by
    intro text hmem
    rw [Option.mem_toList, fromFlags_gitIdentity] at hmem
    cases hgiven : flags.identity with
    | none =>
      rw [hgiven] at hmem
      cases hmem
    | some identity =>
      rw [hgiven] at hmem
      obtain ⟨⟨raw, hread⟩, hdash⟩ := hflags.identity identity hgiven
      rcases parseIdentity_cases hread with rfl | rfl | ⟨name, email, rfl, -, -, -, hvalid⟩
      · cases hmem
        decide
      · cases hmem
        decide
      · cases hmem
        cases name with
        | nil => simp
        | cons first rest =>
          have hname := hdash (first :: rest) email rfl
          exact hname
  have hssh : ∀ text ∈ (PrerequisitePolicy.fromFlags flags).ssh.flagValue.toList,
      text.head? ≠ some '-' := by
    intro text hmem
    rw [Option.mem_toList, fromFlags_ssh] at hmem
    cases hgiven : flags.ssh with
    | none =>
      rw [hgiven] at hmem
      cases hmem
    | some ssh =>
      rw [hgiven] at hmem
      cases ssh with
      | key path =>
        cases hmem
        exact (hflags.ssh _ hgiven).2 path rfl
      | all | deny =>
        cases hmem
        decide
  have htoken : ∀ text ∈ (PrerequisitePolicy.fromFlags flags).githubToken.flagValue.toList,
      text.head? ≠ some '-' := by
    intro text hmem
    rw [Option.mem_toList, fromFlags_githubToken] at hmem
    cases hgiven : flags.token with
    | none =>
      rw [hgiven] at hmem
      cases hmem
    | some token =>
      rw [hgiven] at hmem
      obtain ⟨-, hacquire, hsecret⟩ := hflags.token token hgiven
      cases token with
      | env name =>
        cases hmem
        simp
      | acquire => exact absurd rfl hacquire
      | secret name => exact absurd rfl (hsecret name)
      | deny =>
        cases hmem
        decide
  intro setting hmem
  unfold PrerequisitePolicy.settings optionSettings at hmem
  rw [List.mem_append, List.mem_append, List.mem_append] at hmem
  rcases hmem with ((hmem | hmem) | hmem) | hmem
  · exact fits_map (hfree _ (by simp)) hidentity setting hmem
  · exact fits_map (hfree _ (by simp)) hssh setting hmem
  · exact fits_map (hfree _ (by simp)) htoken setting hmem
  · obtain ⟨text, htext, rfl⟩ := List.mem_map.mp hmem
    rw [Option.mem_toList, fromFlags_unresolved] at htext
    obtain ⟨flag, hflag, hkey, hkind⟩ := hunresolved
    cases hgiven : flags.unresolved with
    | none =>
      rw [hgiven] at htext
      cases htext
    | some mode =>
      rw [hgiven] at htext
      cases htext
      refine ⟨by cases mode <;> decide, flag, hflag, hkey, ?_⟩
      rw [hkind]
      cases mode <;> rfl

end fits

/-! ## Requests -/

/-- A pool whose specs describe it and do not look like flags. -/
def CarriedPool (pool : AgentPool) : Prop :=
  ∀ entry ∈ pool.entries, WrittenModels entry.2 ∧ entry.1.head? ≠ some '-'

/-- The arguments can carry the request to create a task. -/
structure CreateTask.Carried (req : CreateTask) : Prop where
  /-- The description does not look like a flag. -/
  description : req.description.head? ≠ some '-'
  /-- A path is a text, which looks neither like a flag nor like the default. -/
  workspace : ∀ path, req.workspace = .custom path → textBytes (fromUtf8Lossy path) = path ∧
    (fromUtf8Lossy path).head? ≠ some '-' ∧ fromUtf8Lossy path ≠ defaultWorkspaceFlagValue
  /-- The agent does not look like a flag. -/
  agent : ∀ agent ∈ req.agent, agent.head? ≠ some '-'
  /-- The model does not look like a flag. -/
  model : ∀ model ∈ req.model, model.head? ≠ some '-'
  /-- No overlay list looks like a flag. -/
  overlays : ∀ overlay ∈ req.overlays, overlay.head? ≠ some '-'
  pool : CarriedPool req.agentsToModels

/-- The arguments can carry the request to edit a task. -/
structure UpdateTask.Carried (req : UpdateTask) : Prop where
  /-- The description does not look like a flag. -/
  description : ∀ description ∈ req.description, description.head? ≠ some '-'
  /-- The agent does not look like a flag. -/
  agent : ∀ agent, req.agent = some (some agent) → agent.head? ≠ some '-'
  /-- The model does not look like a flag. -/
  model : ∀ model, req.model = some (some model) → model.head? ≠ some '-'
  /-- No overlay list looks like a flag. -/
  overlays : ∀ overlays ∈ req.overlays, ∀ overlay ∈ overlays, overlay.head? ≠ some '-'
  pool : ∀ pool ∈ req.agentsToModels, CarriedPool pool

/-- The scope the daemon is asked for; it finds out by itself whether there is a repository. -/
def MountScope.sent : MountScope → MountScope
  | cwd => cwd
  | gitRoot | directory => gitRoot

variable {debug : Text → String} {pool : AgentPool} {setting : Setting SquadFlag} {server : Server}

/-- A valid name does not look like a flag. -/
theorem head_slug_ne_dash {slug : Text} (hvalid : validateTaskSlug debug slug = .ok ()) :
    slug.head? ≠ some '-' := by
  intro hhead
  unfold validateTaskSlug at hvalid
  dsimp only at hvalid
  rw [hhead] at hvalid
  split_ifs at hvalid
  simp_all [isLowerAlnum]

/-- A valid interval is a number of the flag. -/
theorem validateInterval_lt {intervalSecs : Nat}
    (hvalid : LocalGateway.validateInterval intervalSecs = .ok ()) : intervalSecs < 2 ^ 64 := by
  unfold LocalGateway.validateInterval at hvalid
  split at hvalid
  case isTrue hbounds =>
    unfold minIntervalSecs maxIntervalSecs at hbounds
    omega
  case isFalse => cases hvalid

/-- The entries of a valid pool that is carried are written as specs. -/
theorem writtenEntries (hvalid : validateAgentsToModels debug pool = .ok ())
    (hcarried : CarriedPool pool) :
    ∀ entry ∈ pool.entries, WrittenEntry entry := by
  intro entry hentry
  obtain ⟨agent, models⟩ := entry
  have hcheck := forM_ok.mp hvalid (agent, models) hentry
  dsimp only at hcheck
  split_ifs at hcheck with hagent hmodels hblank
  have hname : isAgentName agent = true := by simpa using hagent
  refine ⟨hname, ⟨?_, ?_⟩, (hcarried _ hentry).1⟩
  · intro hempty
    rw [show models = [] from hempty] at hmodels
    exact hmodels rfl
  · intro model hmem
    rw [List.any_eq_true] at hblank
    rw [Bool.eq_false_iff]
    intro hempty
    exact hblank ⟨model, hmem, hempty⟩

/-- The specs of a pool that is carried do not look like flags. -/
theorem head_specs_ne_dash (hvalid : validateAgentsToModels debug pool = .ok ())
    (hcarried : CarriedPool pool) :
    ∀ spec ∈ formatAgentModelsSpecs pool, spec.head? ≠ some '-' := by
  intro spec hmem
  obtain ⟨⟨agent, models⟩, hentry, rfl⟩ := List.mem_map.mp hmem
  have hnonempty : agent ≠ [] := (isAgentName_spec (writtenEntries hvalid hcarried _ hentry).agent).1
  rw [List.head?_append_of_ne_nil _ hnonempty]
  exact (hcarried _ hentry).2

/-- The settings of a policy that was made of flags. -/
theorem settings_policy {policy : Option PrerequisitePolicy} {flags : Option PrerequisiteFlags}
    (hpolicy : policy = flags.map PrerequisitePolicy.fromFlags) :
    (policy.map PrerequisitePolicy.settings).getD [] =
      (PrerequisitePolicy.fromFlags (flags.getD {})).settings := by
  rw [hpolicy]
  cases flags <;> rfl

/-- A policy sets its own flags only. -/
theorem keys_policy (policy : PrerequisitePolicy) : ∀ key ∈ policy.settings.map Setting.key,
    key = .prerequisiteIdentity ∨ key = .prerequisiteSsh ∨ key = .prerequisiteToken ∨
      key = .prerequisiteUnresolved := by
  intro key hmem
  obtain ⟨setting, hsetting, rfl⟩ := List.mem_map.mp hmem
  unfold PrerequisitePolicy.settings optionSettings at hsetting
  simp only [List.mem_append, List.mem_map] at hsetting
  rcases hsetting with ((⟨_, _, rfl⟩ | ⟨_, _, rfl⟩) | ⟨_, _, rfl⟩) | ⟨_, _, rfl⟩
  · exact .inl rfl
  · exact .inr (.inl rfl)
  · exact .inr (.inr (.inl rfl))
  · exact .inr (.inr (.inr rfl))

theorem keys_optionSettings {key : SquadFlag} {value : Option Text}
    (hmem : setting ∈ optionSettings key value) : setting.key = key := by
  obtain ⟨text, -, rfl⟩ := List.mem_map.mp hmem
  rfl

@[simp] theorem valuesOf_optionSettings (key other : SquadFlag) (value : Option Text) :
    valuesOf key (optionSettings other value) = if other = key then value.toList else [] :=
  valuesOf_map key other value.toList

@[simp] theorem valuesOf_clearedSettings (key other clearKey : SquadFlag) (value : Option (Option Text)) :
    valuesOf key (clearedSettings other clearKey value) =
      if other = key then value.join.toList else [] := by
  rcases value with _ | _ | value
  · split <;> rfl
  · split <;> rfl
  · unfold clearedSettings
    simp

@[simp] theorem valuesOf_replacedSettings (key other clearKey : SquadFlag) (values : Option (List Text)) :
    valuesOf key (replacedSettings other clearKey values) =
      if other = key then values.getD [] else [] := by
  rcases values with _ | _ | ⟨first, rest⟩
  · split <;> rfl
  · split <;> rfl
  · exact valuesOf_map key other (first :: rest)

/-- The settings of a policy give its flags their values. -/
theorem valuesOf_policy (policy : PrerequisitePolicy) (key : SquadFlag) :
    valuesOf key policy.settings =
      match key with
      | .prerequisiteIdentity => policy.gitIdentity.flagValue.toList
      | .prerequisiteSsh => policy.ssh.flagValue.toList
      | .prerequisiteToken => policy.githubToken.flagValue.toList
      | .prerequisiteUnresolved => (policy.unresolved.map UnresolvedMode.asStr).toList
      | _ => [] := by
  unfold PrerequisitePolicy.settings
  cases key <;> simp

/-- The flags of credentials as both commands have them. -/
def prerequisiteKinds : List (SquadFlag × FlagKind) :=
  [(.prerequisiteIdentity, .optionalString), (.prerequisiteSsh, .optionalString),
    (.prerequisiteToken, .optionalString),
    (.prerequisiteUnresolved, .enum ["warn".toList, "fail".toList])]

/-- The daemon receives the decisions that the settings of a request carry. -/
theorem squadPrerequisitePolicy_settled {spec : CommandSpec SquadFlag}
    {settings : List (Setting SquadFlag)} {arguments : NameMap Text (List Text)}
    {flags : Option PrerequisiteFlags} (hspec : Unattended spec) (hgiven : Given spec settings)
    (hflags : (flags.getD {}).Carried)
    (hkinds : ∀ entry ∈ prerequisiteKinds, spec.Takes entry.1 entry.2 ∧
      ((spec.flags.find? (·.key = entry.1)).map FlagSpec.default).getD .none = .none)
    (hvalues : ∀ entry ∈ prerequisiteKinds, valuesOf entry.1 settings =
      valuesOf entry.1 (PrerequisitePolicy.fromFlags (flags.getD {})).settings) :
    squadPrerequisitePolicy server (settledContext server spec settings arguments []) =
      received server flags := by
  have hstr : ∀ entry ∈ prerequisiteKinds, ∀ value : Option Text,
      valuesOf entry.1 (PrerequisitePolicy.fromFlags (flags.getD {})).settings = value.toList →
        (settledContext server spec settings arguments []).str entry.1 = value := by
    intro entry hentry value hvalue
    obtain ⟨htakes, hdefault⟩ := hkinds entry hentry
    have hkind : ∀ entry ∈ prerequisiteKinds,
        (entry.2 ≠ .bool ∧ entry.2 ≠ .vecString) ∧ entry.1 ≠ .nonInteractive := by decide
    exact str_settled hspec hgiven htakes (hkind entry hentry).1 (hkind entry hentry).2
      ((hvalues entry hentry).trans hvalue) fun _ => hdefault
  unfold prerequisiteKinds at hstr
  have hpolicy := valuesOf_policy (.fromFlags (flags.getD {}))
  apply squadPrerequisitePolicy_eq rfl hflags
  · exact hstr (.prerequisiteIdentity, .optionalString) (by simp) _ (hpolicy _)
  · exact hstr (.prerequisiteSsh, .optionalString) (by simp) _ (hpolicy _)
  · exact hstr (.prerequisiteToken, .optionalString) (by simp) _ (hpolicy _)
  · exact hstr (.prerequisiteUnresolved, .enum ["warn".toList, "fail".toList]) (by simp) _
      (hpolicy _)

/-- Settings can be given when their flags are of a list that can be given together. -/
theorem Given.of_keys {settings : List (Setting SquadFlag)} {keys : List SquadFlag}
    (hkeys : ∀ setting ∈ settings, setting.key ∈ keys)
    (hcompatible : spec.Compatible (.nonInteractive :: keys))
    (hsilent : .interview ∉ keys ∧ .nonInteractive ∉ keys)
    (hfits : ∀ setting ∈ settings, setting.Fits spec) : Given spec settings := by
  have hsubset : settings.map Setting.key ⊆ keys := by
    intro key hmem
    obtain ⟨setting, hsetting, rfl⟩ := List.mem_map.mp hmem
    exact hkeys setting hsetting
  have hmore := List.cons_subset_cons SquadFlag.nonInteractive hsubset
  refine ⟨hfits, ?_, fun hmem => hsilent.1 (hsubset hmem), fun hmem => hsilent.2 (hsubset hmem)⟩
  intro flag hflag hkey other hother hboth
  exact hcompatible flag hflag (hmore hkey) other hother (hmore hboth)

/-! ## Creating a task -/

section create

variable {req : CreateTask} {flags : Option PrerequisiteFlags}

/-- The flags a request to create a task sets. -/
def createKeys : List SquadFlag :=
  [.name, .description, .workspace, .interval, .mountScope, .agent, .model, .overlay, .agentModels,
    .prerequisiteIdentity, .prerequisiteSsh, .prerequisiteToken, .prerequisiteUnresolved]

/-- The settings of a request to create a task can be given. -/
theorem given_create (hcarried : req.Carried) (hflags : (flags.getD {}).Carried)
    (hpolicy : req.prerequisites = flags.map PrerequisitePolicy.fromFlags)
    (hslug : validateTaskSlug debug req.name = .ok ())
    (hpool : validateAgentsToModels debug req.agentsToModels = .ok ()) :
    Given squadAdd req.settings := by
  have hkeys : ∀ setting ∈ req.settings, setting.key ∈ createKeys := by
    intro setting hmem
    unfold CreateTask.settings optionSettings at hmem
    rw [settings_policy hpolicy] at hmem
    simp only [List.mem_append, List.mem_map, List.mem_cons, List.not_mem_nil, or_false] at hmem
    rcases hmem with ((((hmem | ⟨_, _, rfl⟩) | ⟨_, _, rfl⟩) | ⟨_, _, rfl⟩) | ⟨_, _, rfl⟩) | hmem
    · rcases hmem with rfl | rfl | rfl | rfl | rfl <;> exact of_decide_eq_true rfl
    · exact of_decide_eq_true rfl
    · exact of_decide_eq_true rfl
    · exact of_decide_eq_true rfl
    · exact of_decide_eq_true rfl
    · rcases keys_policy _ _ (List.mem_map_of_mem hmem) with hkey | hkey | hkey | hkey <;>
        (rw [hkey]; decide)
  refine .of_keys hkeys (by decide) (by decide) ?_
  intro setting hmem
  unfold CreateTask.settings optionSettings at hmem
  rw [settings_policy hpolicy] at hmem
  simp only [List.mem_append, List.mem_cons, List.not_mem_nil, or_false] at hmem
  rcases hmem with ((((hmem | hmem) | hmem) | hmem) | hmem) | hmem
  · rcases hmem with rfl | rfl | rfl | rfl | rfl
    · exact fits_free (by decide) (head_slug_ne_dash hslug)
    · exact fits_free (by decide) hcarried.description
    · apply fits_free (by decide)
      cases hworkspace : req.workspace with
      | default => decide
      | custom path => exact (hcarried.workspace path hworkspace).2.1
    · exact fits_free (by decide) (head_digits_ne_dash _)
    · cases req.mountScope <;> exact ⟨by decide, by decide⟩
  · exact fits_map (by decide) (by simpa using hcarried.agent) setting hmem
  · exact fits_map (by decide) (by simpa using hcarried.model) setting hmem
  · exact fits_map (by decide) hcarried.overlays setting hmem
  · exact fits_map (by decide) (head_specs_ne_dash hpool hcarried.pool) setting hmem
  · exact fits_policy hflags (by decide) (by decide) setting hmem

/-- The context of a request to create a task. -/
def createContext (server : Server) (req : CreateTask) : BuildContext SquadFlag :=
  settledContext server squadAdd req.settings ∅ []

/-- What the request sets each flag to. -/
theorem valuesOf_create (hpolicy : req.prerequisites = flags.map PrerequisitePolicy.fromFlags)
    (key : SquadFlag) :
    valuesOf key req.settings =
      match key with
      | .name => [req.name]
      | .description => [req.description]
      | .workspace => [req.workspace.flagValue]
      | .interval => [Nat.toDigits 10 req.intervalSecs]
      | .mountScope => [req.mountScope.flagValue]
      | .agent => req.agent.toList
      | .model => req.model.toList
      | .overlay => req.overlays
      | .agentModels => formatAgentModelsSpecs req.agentsToModels
      | key => valuesOf key (PrerequisitePolicy.fromFlags (flags.getD {})).settings := by
  unfold CreateTask.settings
  rw [settings_policy hpolicy]
  cases key <;> simp [valuesOf_policy]

/-- The daemon assembles the request from its settings. -/
theorem squadAddRequest_create (hcarried : req.Carried) (hflags : (flags.getD {}).Carried)
    (hpolicy : req.prerequisites = flags.map PrerequisitePolicy.fromFlags)
    (hgiven : Given squadAdd req.settings)
    (hinterval : LocalGateway.validateInterval req.intervalSecs = .ok ())
    (hpool : validateAgentsToModels debug req.agentsToModels = .ok ()) :
    squadAddRequest server (createContext server req) =
      (received server flags).map fun prerequisites => ⟨false, true, some
        { req with mountScope := req.mountScope.sent, prerequisites }⟩ := by
  have hadd := squadAdd_unattended
  have hvalues := valuesOf_create hpolicy
  have hnonInteractive : (createContext server req).bool .nonInteractive = true := by
    unfold BuildContext.bool createContext settledContext
    rw [AList.lookup_insert]
  have hinterview : (createContext server req).bool .interview = false := by
    unfold createContext
    rw [bool_settled hadd hgiven (by decide) (by decide) rfl, decide_eq_false_iff_not]
    intro hset
    exact hgiven.silent.1 (List.mem_map_of_mem hset)
  have hstring : ∀ key, squadAdd.Takes key .string → key ≠ .nonInteractive →
      ∀ value : Option Text, valuesOf key req.settings = value.toList →
        (value = none → ((squadAdd.flags.find? (·.key = key)).map FlagSpec.default).getD .none =
          .none) → (createContext server req).str key = value := by
    intro key htakes hkey value hvalue hdefault
    exact str_settled hadd hgiven htakes (by decide) hkey hvalue hdefault
  have hname := hstring .name (by decide) (by decide) (some req.name) (hvalues _) (by simp)
  have hdescription := hstring .description (by decide) (by decide) (some req.description)
    (hvalues _) (by simp)
  have hintervalText := hstring .interval (by decide) (by decide)
    (some (Nat.toDigits 10 req.intervalSecs)) (hvalues _) (by simp)
  have hworkspaceText := hstring .workspace (by decide) (by decide)
    (some req.workspace.flagValue) (hvalues _) (by simp)
  have hagent := hstring .agent (by decide) (by decide) req.agent (hvalues _) fun _ => rfl
  have hmodel := hstring .model (by decide) (by decide) req.model (hvalues _) fun _ => rfl
  have hscopeText : (createContext server req).str .mountScope = some req.mountScope.flagValue :=
    str_settled hadd hgiven (show squadAdd.Takes .mountScope (.enum ["cwd".toList, "gitroot".toList])
      by decide) (by decide) (by decide) (hvalues _) (by simp)
  have hoverlays : (createContext server req).strs .overlay = req.overlays :=
    (strs_settled hadd hgiven (by decide) (by decide)).trans (hvalues _)
  have hspecs : (createContext server req).strs .agentModels =
      formatAgentModelsSpecs req.agentsToModels :=
    (strs_settled hadd hgiven (by decide) (by decide)).trans (hvalues _)
  have hworkspace : squadWorkspace (createContext server req) = req.workspace := by
    unfold squadWorkspace
    rw [hworkspaceText]
    cases hcase : req.workspace with
    | default => rfl
    | custom path =>
      obtain ⟨hbytes, -, hkeyword⟩ := hcarried.workspace path hcase
      change (if fromUtf8Lossy path = defaultWorkspaceFlagValue then _ else _) = _
      rw [if_neg hkeyword]
      exact congrArg TaskWorkspace.custom hbytes
  have hscope : (if (createContext server req).str .mountScope = some "cwd".toList then
      MountScope.cwd else .gitRoot) = req.mountScope.sent := by
    rw [hscopeText]
    cases req.mountScope <;> rfl
  have hpolicyFlags : squadPrerequisitePolicy server (createContext server req) =
      received server flags := by
    apply squadPrerequisitePolicy_settled hadd hgiven hflags (by decide)
    intro entry hentry
    rw [hvalues]
    unfold prerequisiteKinds at hentry
    simp only [List.mem_cons, List.not_mem_nil, or_false] at hentry
    rcases hentry with rfl | rfl | rfl | rfl <;> rfl
  have hpoolRead := @parseAgentModelsSpecs_format server.debug _ (writtenEntries hpool hcarried.pool)
  have hseconds : parseSquadInterval (createContext server req).path
      (Nat.toDigits 10 req.intervalSecs) = .ok req.intervalSecs :=
    parseSquadInterval_digits (validateInterval_lt hinterval)
  unfold squadAddRequest BuildContext.requireStr
  simp only [hinterview, hnonInteractive, hscope, hname, hdescription, hintervalText, hagent, hmodel,
    hoverlays, hspecs, hworkspace, hpolicyFlags]
  simp only [bind, Except.bind, hseconds, hpoolRead, orInvalid]
  cases received server flags <;> rfl

end create

/-! ## Editing a task -/

section update

variable {req : UpdateTask} {flags : Option PrerequisiteFlags}

/-- The flags a request to edit a task sets. -/
def updateKeys (req : UpdateTask) : List SquadFlag :=
  [.description, .interval, if req.agent = some none then .clearAgent else .agent,
    if req.model = some none then .clearModel else .model,
    if req.overlays = some [] then .clearOverlays else .overlay,
    if req.agentsToModels.map formatAgentModelsSpecs = some [] then .clearAgentModels
      else .agentModels,
    .prerequisiteIdentity, .prerequisiteSsh, .prerequisiteToken, .prerequisiteUnresolved]

theorem keys_clearedSettings {key clearKey : SquadFlag} {value : Option (Option Text)}
    (hmem : setting ∈ clearedSettings key clearKey value) :
    setting.key = if value = some none then clearKey else key := by
  rcases value with _ | _ | value
  · cases hmem
  · rw [List.mem_singleton.mp hmem]
    rfl
  · rw [List.mem_singleton.mp hmem]
    rfl

theorem keys_replacedSettings {key clearKey : SquadFlag} {values : Option (List Text)}
    (hmem : setting ∈ replacedSettings key clearKey values) :
    setting.key = if values = some [] then clearKey else key := by
  rcases values with _ | _ | ⟨first, rest⟩
  · cases hmem
  · rw [List.mem_singleton.mp hmem]
    rfl
  · obtain ⟨text, -, rfl⟩ := List.mem_map.mp hmem
    rfl

/-- The settings of a request to edit a task can be given. -/
theorem given_update (hcarried : req.Carried) (hflags : (flags.getD {}).Carried)
    (hpolicy : req.prerequisites = flags.map PrerequisitePolicy.fromFlags)
    (hpool : validateAgentsToModels debug (req.agentsToModels.getD .empty) = .ok ()) :
    Given squadEdit req.settings := by
  have hkeys : ∀ setting ∈ req.settings, setting.key ∈ updateKeys req := by
    intro setting hmem
    unfold UpdateTask.settings at hmem
    rw [settings_policy hpolicy] at hmem
    simp only [List.mem_append] at hmem
    unfold updateKeys
    rcases hmem with (((((hmem | hmem) | hmem) | hmem) | hmem) | hmem) | hmem
    · simp [keys_optionSettings hmem]
    · simp [keys_optionSettings hmem]
    · simp [keys_clearedSettings hmem]
    · simp [keys_clearedSettings hmem]
    · simp [keys_replacedSettings hmem]
    · simp [keys_replacedSettings hmem]
    · rcases keys_policy _ _ (List.mem_map_of_mem hmem) with hkey | hkey | hkey | hkey <;>
        simp [hkey]
  have hsilent : .interview ∉ updateKeys req ∧ .nonInteractive ∉ updateKeys req := by
    unfold updateKeys
    constructor <;> (split_ifs <;> decide)
  have hcompatible : squadEdit.Compatible (.nonInteractive :: updateKeys req) := by
    unfold updateKeys
    split_ifs <;> decide
  refine .of_keys hkeys hcompatible hsilent ?_
  intro setting hmem
  unfold UpdateTask.settings at hmem
  rw [settings_policy hpolicy] at hmem
  simp only [List.mem_append] at hmem
  rcases hmem with (((((hmem | hmem) | hmem) | hmem) | hmem) | hmem) | hmem
  · exact fits_map (by decide) (by simpa using hcarried.description) setting hmem
  · refine fits_map (by decide) ?_ setting hmem
    intro text htext
    rw [Option.mem_toList, Option.map_eq_some_iff] at htext
    obtain ⟨number, -, rfl⟩ := htext
    exact head_digits_ne_dash number
  · exact fits_clearedSettings (by decide) (by decide) hcarried.agent setting hmem
  · exact fits_clearedSettings (by decide) (by decide) hcarried.model setting hmem
  · exact fits_replacedSettings (by decide) (by decide) hcarried.overlays setting hmem
  · refine fits_replacedSettings (by decide) (by decide) ?_ setting hmem
    intro specs hspecs
    rw [Option.mem_def, Option.map_eq_some_iff] at hspecs
    obtain ⟨pool, hsome, rfl⟩ := hspecs
    rw [hsome] at hpool
    exact head_specs_ne_dash hpool (hcarried.pool pool hsome)
  · exact fits_policy hflags (by decide) (by decide) setting hmem

/-- The context of a request to edit the task of the given name. -/
def updateContext (server : Server) (name : Text) (req : UpdateTask) : BuildContext SquadFlag :=
  settledContext server squadEdit req.settings
    ((∅ : NameMap Text (List Text)).insert "name".toList [name]) []

/-- What the request sets each flag to. -/
theorem valuesOf_update (hpolicy : req.prerequisites = flags.map PrerequisitePolicy.fromFlags)
    (key : SquadFlag) :
    valuesOf key req.settings =
      match key with
      | .description => req.description.toList
      | .interval => (req.intervalSecs.map (Nat.toDigits 10)).toList
      | .agent => req.agent.join.toList
      | .model => req.model.join.toList
      | .overlay => req.overlays.getD []
      | .agentModels => (req.agentsToModels.map formatAgentModelsSpecs).getD []
      | key => valuesOf key (PrerequisitePolicy.fromFlags (flags.getD {})).settings := by
  unfold UpdateTask.settings
  rw [settings_policy hpolicy]
  cases key <;> simp [valuesOf_policy]

/-- Which flags without a value the request sets. -/
theorem switch_mem_update (hpolicy : req.prerequisites = flags.map PrerequisitePolicy.fromFlags)
    (key : SquadFlag) :
    Setting.switch key ∈ req.settings ↔
      match key with
      | .clearAgent => req.agent = some none
      | .clearModel => req.model = some none
      | .clearOverlays => req.overlays = some []
      | .clearAgentModels => req.agentsToModels.map formatAgentModelsSpecs = some []
      | _ => False := by
  have hoption : ∀ other value, Setting.switch key ∉ optionSettings other value := by
    intro other value hmem
    obtain ⟨text, -, hsame⟩ := List.mem_map.mp hmem
    cases hsame
  have hcleared : ∀ other clearKey value, Setting.switch key ∈ clearedSettings other clearKey value ↔
      value = some none ∧ clearKey = key := by
    intro other clearKey value
    rcases value with _ | _ | text <;> simp [clearedSettings, eq_comm]
  have hreplaced : ∀ other clearKey values,
      Setting.switch key ∈ replacedSettings other clearKey values ↔
        values = some [] ∧ clearKey = key := by
    intro other clearKey values
    rcases values with _ | _ | ⟨first, rest⟩ <;> simp [replacedSettings, eq_comm]
  unfold UpdateTask.settings
  rw [settings_policy hpolicy]
  simp only [PrerequisitePolicy.settings, List.mem_append, hoption, hcleared, hreplaced]
  cases key <;> simp

theorem formatAgentModelsSpecs_eq_nil :
    formatAgentModelsSpecs pool = [] ↔ pool = .empty := by
  unfold formatAgentModelsSpecs
  rw [List.map_eq_nil_iff]
  constructor
  · intro hempty
    ext1
    exact hempty
  · rintro rfl
    rfl

/-- The daemon assembles the update from its settings. -/
theorem squadUpdate_update {name : Text} (hflags : (flags.getD {}).Carried)
    (hpolicy : req.prerequisites = flags.map PrerequisitePolicy.fromFlags)
    (hgiven : Given squadEdit req.settings)
    (hinterval : req.intervalSecs.toList.forM LocalGateway.validateInterval = .ok ())
    (hpool : validateAgentsToModels debug (req.agentsToModels.getD .empty) = .ok ())
    (hcarriedPool : ∀ pool ∈ req.agentsToModels, CarriedPool pool) :
    squadUpdate server (updateContext server name req) =
      (received server flags).map fun prerequisites => { req with prerequisites } := by
  have hedit := squadEdit_unattended
  have hvalues := valuesOf_update hpolicy
  have hswitch := switch_mem_update hpolicy
  have hstring : ∀ key, squadEdit.Takes key .string → key ≠ .nonInteractive →
      ∀ value : Option Text, valuesOf key req.settings = value.toList →
        (value = none → ((squadEdit.flags.find? (·.key = key)).map FlagSpec.default).getD .none =
          .none) → (updateContext server name req).str key = value := by
    intro key htakes hkey value hvalue hdefault
    exact str_settled hedit hgiven htakes (by decide) hkey hvalue hdefault
  have hbool : ∀ key, squadEdit.Takes key .bool → key ≠ .nonInteractive →
      ((squadEdit.flags.find? (·.key = key)).map FlagSpec.default).getD .none = .bool false →
        (updateContext server name req).bool key = decide (Setting.switch key ∈ req.settings) := by
    intro key htakes hkey hdefault
    exact bool_settled hedit hgiven htakes hkey hdefault
  have hinterview : (updateContext server name req).bool .interview = false := by
    rw [hbool _ (by decide) (by decide) rfl]
    simp [hswitch]
  have hdescription := hstring .description (by decide) (by decide) req.description (hvalues _)
    fun _ => rfl
  have hintervalText := hstring .interval (by decide) (by decide)
    (req.intervalSecs.map (Nat.toDigits 10)) (hvalues _) fun _ => rfl
  have hagentText := hstring .agent (by decide) (by decide) req.agent.join (hvalues _) fun _ => rfl
  have hmodelText := hstring .model (by decide) (by decide) req.model.join (hvalues _) fun _ => rfl
  have hoverlayTexts : (updateContext server name req).strs .overlay = req.overlays.getD [] :=
    (strs_settled hedit hgiven (by decide) (by decide)).trans (hvalues _)
  have hspecs : (updateContext server name req).strs .agentModels =
      (req.agentsToModels.map formatAgentModelsSpecs).getD [] :=
    (strs_settled hedit hgiven (by decide) (by decide)).trans (hvalues _)
  have hagent : setOrCleared (updateContext server name req) .agent .clearAgent = req.agent := by
    unfold setOrCleared
    rw [hagentText, hbool .clearAgent (by decide) (by decide) rfl]
    simp only [hswitch]
    rcases req.agent with _ | _ | agent <;> rfl
  have hmodel : setOrCleared (updateContext server name req) .model .clearModel = req.model := by
    unfold setOrCleared
    rw [hmodelText, hbool .clearModel (by decide) (by decide) rfl]
    simp only [hswitch]
    rcases req.model with _ | _ | model <;> rfl
  have hoverlays : (if (updateContext server name req).strs .overlay ≠ [] then
      some ((updateContext server name req).strs .overlay)
      else if (updateContext server name req).bool .clearOverlays then some [] else none) =
        req.overlays := by
    rw [hoverlayTexts, hbool .clearOverlays (by decide) (by decide) rfl]
    simp only [hswitch]
    rcases req.overlays with _ | _ | ⟨first, rest⟩ <;> rfl
  have hread : updatedPool server (updateContext server name req) = .ok req.agentsToModels := by
    unfold updatedPool
    rw [hspecs, hbool .clearAgentModels (by decide) (by decide) rfl]
    simp only [hswitch]
    cases hsome : req.agentsToModels with
    | none => rfl
    | some pool =>
      rw [hsome] at hpool
      have hpoolRead : parseAgentModelsSpecs server.debug (formatAgentModelsSpecs pool) = .ok pool :=
        parseAgentModelsSpecs_format (writtenEntries hpool (hcarriedPool pool hsome))
      by_cases hempty : formatAgentModelsSpecs pool = []
      · rw [formatAgentModelsSpecs_eq_nil.mp hempty]
        rfl
      · have hgivenSpecs : (Option.map formatAgentModelsSpecs (some pool)).getD [] ≠ [] := hempty
        rw [if_pos hgivenSpecs]
        simp only [Option.map_some, Option.getD_some, hpoolRead, orInvalid]
        rfl
  have hseconds : updatedInterval (updateContext server name req) = .ok req.intervalSecs := by
    unfold updatedInterval
    rw [hintervalText]
    cases hsome : req.intervalSecs with
    | none => rfl
    | some number =>
      rw [hsome] at hinterval
      have hvalid := forM_ok.mp hinterval number (by simp)
      have hnumber : parseSquadInterval (updateContext server name req).path
          (Nat.toDigits 10 number) = .ok number :=
        parseSquadInterval_digits (validateInterval_lt hvalid)
      simp only [Option.map_some, hnumber]
      rfl
  have hpolicyFlags : squadPrerequisitePolicy server (updateContext server name req) =
      received server flags := by
    apply squadPrerequisitePolicy_settled hedit hgiven hflags (by decide)
    intro entry hentry
    rw [hvalues]
    unfold prerequisiteKinds at hentry
    simp only [List.mem_cons, List.not_mem_nil, or_false] at hentry
    rcases hentry with rfl | rfl | rfl | rfl <;> rfl
  unfold squadUpdate
  simp only [hinterview, hoverlays, hread, hseconds, hpolicyFlags, hdescription, hagent, hmodel]
  simp only [bind, Except.bind]
  cases received server flags <;> rfl

end update

/-! ## The round trip -/

section roundTrip

/-- The daemon reads what the remote gateway wrote: the request that was accepted, with the scope
and the decisions that the daemon makes of it. -/
theorem remote_round_trip (gateway : LocalGateway) (server : Server) (flags : Option PrerequisiteFlags)
    (hflags : (flags.getD {}).Carried) :
    (∀ req : CreateTask, req.prerequisites = flags.map PrerequisitePolicy.fromFlags →
      req.Carried → gateway.acceptCreate req = .ok () →
        readCreate server (createArgs req) = (received server flags).map fun prerequisites =>
          ⟨false, true, some { req with mountScope := req.mountScope.sent, prerequisites }⟩) ∧
    ∀ (name : Text) (req : UpdateTask),
      req.prerequisites = flags.map PrerequisitePolicy.fromFlags → req.Carried →
        gateway.acceptUpdate name req = .ok () →
          readUpdate server (updateArgs name req) = (received server flags).map fun prerequisites =>
            (name, { req with prerequisites }) := by
  constructor
  · intro req hpolicy hcarried haccepted
    unfold LocalGateway.acceptCreate at haccepted
    obtain ⟨⟨⟩, hfields, haccepted⟩ := bind_eq_ok.mp haccepted
    obtain ⟨⟨⟩, hslug, hfields⟩ := bind_eq_ok.mp hfields
    obtain ⟨⟨⟩, hinterval, -⟩ := bind_eq_ok.mp hfields
    obtain ⟨gitRoot, -, haccepted⟩ := bind_eq_ok.mp haccepted
    obtain ⟨⟨⟩, -, hpool⟩ := bind_eq_ok.mp haccepted
    have hgiven := given_create hcarried hflags hpolicy hslug hpool
    have hcontext : daemonContext server squadAdd (createArgs req) =
        .ok (createContext server req) := by
      have hassign : assignPositionals squadAdd.arguments [] (∅, []) = ((∅, []), []) := rfl
      have hsettings := @daemonContext_settings server squadAdd _ [] _ _ squadAdd_unattended hgiven
        (by simp) hassign
      rw [createArgs_eq]
      exact hsettings
    unfold readCreate
    rw [hcontext]
    show squadAddRequest server (createContext server req) = _
    rw [squadAddRequest_create hcarried hflags hpolicy hgiven hinterval hpool]
  · intro name req hpolicy hcarried haccepted
    unfold LocalGateway.acceptUpdate at haccepted
    cases hstored : gateway.tasks name with
    | none =>
      rw [hstored] at haccepted
      cases haccepted
    | some task =>
      obtain ⟨repoScope, mountScope, existing⟩ := task
      rw [hstored] at haccepted
      obtain ⟨⟨⟩, hfields, hpool⟩ := bind_eq_ok.mp haccepted
      obtain ⟨⟨⟩, hinterval, -⟩ := bind_eq_ok.mp hfields
      have hslug := gateway.slug_of_task name (by rw [hstored]; rfl)
      have hgiven := given_update hcarried hflags hpolicy hpool
      have hcontext : daemonContext server squadEdit (updateArgs name req) =
          .ok (updateContext server name req) := by
        rw [updateArgs_eq]
        apply daemonContext_settings squadEdit_unattended hgiven _ rfl
        intro word hword
        rw [List.mem_singleton.mp hword]
        exact head_slug_ne_dash hslug
      have hname : (updateContext server name req).requireArgument "name".toList = .ok name := by
        unfold BuildContext.requireArgument updateContext settledContext
        rw [AList.lookup_insert]
        simp
      have hupdate := @squadUpdate_update _ server req flags name hflags hpolicy hgiven hinterval
        hpool hcarried.pool
      unfold readUpdate
      simp only [hcontext, hname, hupdate, bind, Except.bind]
      cases received server flags <;> rfl

/-- A gateway without repositories, and with one task. -/
def plainGateway : LocalGateway where
  host :=
    { homeDir := none
      canonicalize := fun _ => none
      pathExists := fun _ => false
      isDir := fun _ => false
      createDirAll := fun _ => false
      debug := fun text => shown text
      canonicalize_canonical := Overlay.Host.nowhere_canonical
      createDirAll_of_isDir := Overlay.Host.created_of_false }
  gitRootOf := fun _ => none
  globalAgents := []
  validateTaskAgents := fun _ _ => .ok ()
  tasks := fun name => if name = "deps".toList then some ([], .directory, none) else none
  slug_of_task := by
    intro name hstored
    by_cases hname : name = "deps".toList
    · rw [hname]
      rfl
    · rw [if_neg hname] at hstored
      cases hstored

/-- A server that decided nothing about credentials. -/
def plainServer : Server := ⟨["squad".toList], default, fun text => shown text⟩

/-- A client that lets nobody use its identity. -/
def denyIdentity : PrerequisiteFlags := { identity := some .deny }

/-- A request for a directory, with a pool of agents and a decision. -/
def weeklyTask : CreateTask where
  name := "deps".toList
  description := "update --all".toList
  workspace := .default
  mountScope := .directory
  intervalSecs := 3600
  agent := some "codex".toList
  model := none
  overlays := []
  agentsToModels := SortedMap.empty.upsert "codex".toList fun _ => ["a".toList, "b".toList]
  prerequisites := some (.fromFlags denyIdentity)

theorem remote_round_trip_weekly :
    readCreate plainServer (createArgs weeklyTask) = .ok ⟨false, true, some
      { weeklyTask with
        mountScope := .gitRoot
        prerequisites := some (PrerequisitePolicy.fromFlags denyIdentity).remote }⟩ ∧
    readUpdate plainServer (updateArgs "deps".toList { model := some none }) =
      .ok ("deps".toList, { model := some none }) := by
  constructor
  · have hflags : ((some denyIdentity).getD {}).Carried := by
      refine ⟨?_, by simp [denyIdentity], by simp [denyIdentity], rfl⟩
      rintro identity ⟨⟩
      exact ⟨⟨"deny".toList, rfl⟩, fun name email hsame => by cases hsame⟩
    have hcarried : weeklyTask.Carried := by
      refine ⟨by decide, ?_, by decide, by decide, by decide, ?_⟩
      · intro path hsame
        cases hsame
      intro entry hentry
      rw [List.mem_singleton.mp hentry]
      exact ⟨⟨by decide, by decide⟩, by decide⟩
    exact (remote_round_trip plainGateway plainServer (some denyIdentity) hflags).1 weeklyTask rfl
      hcarried rfl
  · have hflags : ((none : Option PrerequisiteFlags).getD {}).Carried :=
      ⟨by simp, by simp, by simp, rfl⟩
    have hcarried : ({ model := some none } : UpdateTask).Carried :=
      ⟨by simp, by simp, by simp, by simp, by simp⟩
    exact (remote_round_trip plainGateway plainServer none hflags).2 "deps".toList
      { model := some none } rfl hcarried rfl

/-- The daemon does not read the request itself: the decision it holds becomes that of a remote
client. -/
theorem remote_decision_differs :
    ¬ ∀ (gateway : LocalGateway) (server : Server) (req : CreateTask)
      (flags : Option PrerequisiteFlags),
      req.prerequisites = flags.map PrerequisitePolicy.fromFlags →
        gateway.acceptCreate req = .ok () → ∃ nonInteractive,
          readCreate server (createArgs req) = .ok ⟨false, nonInteractive, some req⟩ := by
  intro hall
  obtain ⟨nonInteractive, hread⟩ := hall plainGateway plainServer weeklyTask (some denyIdentity) rfl
    rfl
  have hsource : ((readCreate plainServer (createArgs weeklyTask)).toOption.bind fun request =>
      request.prefilled.bind fun req => req.prerequisites.map (·.gitIdentity.source)) =
        some .remoteTask := rfl
  rw [hread] at hsource
  cases hsource

end roundTrip

end Awman.Squad
