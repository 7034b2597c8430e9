import Awman.PrerequisitePolicies

/-!
# The credentials of a container

The options of a container carry credentials of two origins: those found in the keychain, as variables
or as a staged file, and the variables that were declared for it.  When a declared variable serves a
provider, the keychain's credentials for it are dropped.
-/

namespace Awman.ContainerOptions

open Awman.Squad (validEnvName)

/-! ## Options -/

/-- A provider that a credential authenticates to. -/
inductive Service where
  | anthropic
  | openai
  | github
  | google
  | aws
  | groq
  | mistral
  deriving DecidableEq

/-- The provider of a variable. -/
def serviceForCredential (key : String) : Option Service :=
  if key = "ANTHROPIC_API_KEY" ∨ key = "CLAUDE_CODE_OAUTH_TOKEN" then some .anthropic
  else if key = "OPENAI_API_KEY" then some .openai
  else if key = "GH_TOKEN" ∨ key = "GITHUB_TOKEN" then some .github
  else if key = "GEMINI_API_KEY" ∨ key = "GOOGLE_API_KEY" then some .google
  else if key = "AWS_ACCESS_KEY_ID" ∨ key = "AWS_SECRET_ACCESS_KEY" then some .aws
  else if key = "GROQ_API_KEY" then some .groq
  else if key = "MISTRAL_API_KEY" then some .mistral
  else none

/-- A credential that is staged as a file. -/
structure RefreshableCredentialDelivery where
  /-- The variable it stands for. -/
  credentialEnvKey : String
  stagedPath : String
  deriving DecidableEq

/-- What an agent writes to its standard output. -/
inductive AgentOutputFormat where
  | text
  | claudeStreamJson
  | codexJson
  deriving DecidableEq

/-- A variable with its value. -/
abbrev EnvPair := String × String

/-- An option that the resolution reads or changes. -/
inductive ContainerOption where
  | envPassthrough (name : String)
  | envOverride (key value : String)
  | envLiteral (key value : String)
  | interactive (on : Bool)
  | agentOutputFormat (format : AgentOutputFormat)
  | acp (on : Bool)
  | yolo (on : Bool)
  | plan (on : Bool)
  | agentCredentials (envVars : List EnvPair)
  | refreshableCredential (credential : RefreshableCredentialDelivery)
  | agentModeFlags (flags : List String)

/-- The options merged. -/
structure ResolvedContainerOptions where
  /-- The variables passed from the host. -/
  envPassthrough : List String := []
  /-- The values of this launch. -/
  envOverrides : List EnvPair := []
  /-- The variables given as they are. -/
  envLiteral : List EnvPair := []
  interactive : Bool := false
  agentOutputFormat : AgentOutputFormat := .text
  /-- Whether the agent is spoken to by its client protocol. -/
  acp : Bool := false
  /-- Whether every permission is granted. -/
  yolo : Bool := false
  /-- Whether the agent only plans. -/
  plan : Bool := false
  /-- The keychain's credentials given as variables. -/
  agentCredentials : List EnvPair := []
  /-- The keychain's credentials given as files. -/
  refreshableCredentials : List RefreshableCredentialDelivery := []
  agentModeFlags : List String := []

/-- Merge an option. -/
def ResolvedContainerOptions.ingest (r : ResolvedContainerOptions) :
    ContainerOption → ResolvedContainerOptions
  | .envPassthrough name => { r with envPassthrough := r.envPassthrough ++ [name] }
  | .envOverride key value => { r with envOverrides := r.envOverrides ++ [(key, value)] }
  | .envLiteral key value => { r with envLiteral := r.envLiteral ++ [(key, value)] }
  | .interactive on => { r with interactive := on }
  | .agentOutputFormat format => { r with agentOutputFormat := format }
  | .acp on => { r with acp := on }
  | .yolo on => { r with yolo := on }
  | .plan on => { r with plan := on }
  | .agentCredentials envVars => { r with agentCredentials := r.agentCredentials ++ envVars }
  | .refreshableCredential credential =>
    { r with refreshableCredentials := r.refreshableCredentials ++ [credential] }
  | .agentModeFlags flags => { r with agentModeFlags := r.agentModeFlags ++ flags }

/-! ## Deduplication -/

/-- The environment of the host. -/
abbrev HostEnv := String → Option String

/-- The providers that are served by a passed variable with a value or by one given as it is. -/
def coveredCredentialServices (envPassthrough : List String) (envLiteral : List EnvPair)
    (lookupEnv : HostEnv) : List Service :=
  let resolvable := envPassthrough.filter fun name => (lookupEnv name).any fun value => value != ""
  (resolvable ++ envLiteral.map fun literal => literal.1).filterMap serviceForCredential

/-- Drop the credentials given as variables whose provider is covered. -/
def dedupCredentialsByDeclaredEnv (agentCredentials : List EnvPair) (envPassthrough : List String)
    (envLiteral : List EnvPair) (lookupEnv : HostEnv) : List EnvPair :=
  let covered := coveredCredentialServices envPassthrough envLiteral lookupEnv
  if covered.isEmpty then agentCredentials
  else
    agentCredentials.filter fun credential =>
      match serviceForCredential credential.1 with
      | some service => !covered.contains service
      | none => true

/-- How the removal of a file ends. -/
inductive Unlinking where
  | removed
  | notFound
  | failed (message : String)

/-- What becomes of operations on staged files. -/
structure StagedFiles where
  removeFile : String → Unlinking
  /-- Whether a file can be overwritten. -/
  overwrite : String → Bool

/-- Why options are refused. -/
inductive ResolveError where
  | conflict (message : String)
  | credentialSuppression (stagedPath : String) (service : Option Service) (message : String)

/-- Leave no secret in a staged file, or say why that failed. -/
def neutralizeSuppressedCredential (files : StagedFiles) (path : String) : Option String :=
  match files.removeFile path with
  | .removed | .notFound => none
  | .failed message => if files.overwrite path then none else some message

/-- Keep the staged credentials whose provider is not covered, and take the secrets out of the
others. -/
def keepRefreshable (files : StagedFiles) (covered : List Service) :
    List RefreshableCredentialDelivery →
      Except ResolveError (List RefreshableCredentialDelivery)
  | [] => .ok []
  | credential :: rest =>
    let service := serviceForCredential credential.credentialEnvKey
    if (service.map fun service => covered.contains service).getD false then
      match neutralizeSuppressedCredential files credential.stagedPath with
      | some message => .error (.credentialSuppression credential.stagedPath service message)
      | none => keepRefreshable files covered rest
    else (keepRefreshable files covered rest).map fun kept => credential :: kept

/-- Drop the staged credentials whose provider is covered. -/
def dedupRefreshableByDeclaredEnv (files : StagedFiles)
    (refreshable : List RefreshableCredentialDelivery) (envPassthrough : List String)
    (envLiteral : List EnvPair) (lookupEnv : HostEnv) :
    Except ResolveError (List RefreshableCredentialDelivery) :=
  let covered := coveredCredentialServices envPassthrough envLiteral lookupEnv
  if covered.isEmpty then .ok refreshable else keepRefreshable files covered refreshable

/-- Refuse modes that exclude each other. -/
def ResolvedContainerOptions.validate (r : ResolvedContainerOptions) : Except ResolveError Unit :=
  if r.yolo && r.plan then .error (.conflict "yolo and plan modes are mutually exclusive")
  else .ok ()

/-- The flags that make an agent write a format. -/
def AgentOutputFormat.flags : AgentOutputFormat → List String
  | .text => []
  | .claudeStreamJson => ["--output-format", "stream-json", "--verbose"]
  | .codexJson => ["--json"]

/-- Choose the flags for the output of the agent. -/
def ResolvedContainerOptions.renderOutput (r : ResolvedContainerOptions) :
    ResolvedContainerOptions :=
  if !r.interactive && !r.acp then
    { r with agentModeFlags := r.agentModeFlags ++ r.agentOutputFormat.flags }
  else { r with agentOutputFormat := .text }

/-- Merge the options. -/
def ResolvedContainerOptions.resolve (files : StagedFiles) (hostVar : HostEnv)
    (options : List ContainerOption) : Except ResolveError ResolvedContainerOptions :=
  let r := options.foldl ResolvedContainerOptions.ingest {}
  let r := { r with agentCredentials :=
    dedupCredentialsByDeclaredEnv r.agentCredentials r.envPassthrough r.envLiteral hostVar }
  match dedupRefreshableByDeclaredEnv files r.refreshableCredentials r.envPassthrough r.envLiteral
      hostVar with
  | .error error => .error error
  | .ok kept =>
    let r := { r with refreshableCredentials := kept }
    match r.validate with
    | .error error => .error error
    | .ok () => .ok r.renderOutput

/-! ## What reaches the container -/

/-- A name that a passed variable may have. -/
def isEnvVarName (name : String) : Bool :=
  name.toList.head?.any (fun first => first.isAlpha || first == '_') &&
    name.toList.all fun character => character.isAlphanum || character == '_'

/-- Set a variable to its value of this launch. -/
def override (values : List EnvPair) (pair : EnvPair) : List EnvPair :=
  if validEnvName pair.1.toList then (values.filter fun value => value.1 != pair.1) ++ [pair]
  else values

/-- The values of the variables that are passed, those of this launch in front of the host's. -/
def resolveEnvPassthrough (hostVar : HostEnv) (envPassthrough : List String)
    (envOverrides : List EnvPair) : List EnvPair :=
  let values := (envPassthrough.filter isEnvVarName).filterMap fun name =>
    (hostVar name).map fun value => (name, value)
  envOverrides.foldl override values

/-- The variables that reach the container by declaration. -/
def declaredVars (hostVar : HostEnv) (envPassthrough : List String)
    (envOverrides envLiteral : List EnvPair) : List EnvPair :=
  resolveEnvPassthrough hostVar envPassthrough envOverrides ++ envLiteral

/-- The value of a variable: the last one it is set to. -/
def valueOf (pairs : List EnvPair) (key : String) : Option String :=
  (pairs.reverse.find? fun pair => pair.1 = key).map fun pair => pair.2

/-- Some variable of the provider has a value that is not empty. -/
def HasValue (pairs : List EnvPair) (service : Service) : Prop :=
  ∃ key value, serviceForCredential key = some service ∧ valueOf pairs key = some value ∧ value ≠ ""

/-- Some variable of the provider is set. -/
def Mentions (pairs : List EnvPair) (service : Service) : Prop :=
  ∃ pair ∈ pairs, serviceForCredential pair.1 = some service

/-- Some file is staged for the provider. -/
def Stages (refreshable : List RefreshableCredentialDelivery) (service : Service) : Prop :=
  ∃ credential ∈ refreshable, serviceForCredential credential.credentialEnvKey = some service

/-- The variables that reach the container by the declarations among the resolved options. -/
def ResolvedContainerOptions.declared (r : ResolvedContainerOptions) (hostVar : HostEnv) :
    List EnvPair :=
  declaredVars hostVar r.envPassthrough r.envOverrides r.envLiteral

/-! ## What the options hold -/

/-- The names of the variables to pass. -/
def passthroughs (options : List ContainerOption) : List String :=
  options.filterMap fun
    | .envPassthrough name => some name
    | _ => none

/-- The values for this launch. -/
def overrides (options : List ContainerOption) : List EnvPair :=
  options.filterMap fun
    | .envOverride key value => some (key, value)
    | _ => none

/-- The variables given as they are. -/
def literals (options : List ContainerOption) : List EnvPair :=
  options.filterMap fun
    | .envLiteral key value => some (key, value)
    | _ => none

/-- The keychain's credentials given as variables. -/
def credentials (options : List ContainerOption) : List EnvPair :=
  options.flatMap fun
    | .agentCredentials envVars => envVars
    | _ => []

/-- The keychain's credentials given as files. -/
def refreshables (options : List ContainerOption) : List RefreshableCredentialDelivery :=
  options.filterMap fun
    | .refreshableCredential credential => some credential
    | _ => none

/-- The keychain has a credential for the provider. -/
def KeychainServes (options : List ContainerOption) (service : Service) : Prop :=
  Mentions (credentials options) service ∨ Stages (refreshables options) service

/-- A variable of the provider is given as it is, or passed and not empty on the host. -/
def Covered (hostVar : HostEnv) (options : List ContainerOption) (service : Service) : Prop :=
  Mentions (literals options) service ∨
    ∃ name ∈ passthroughs options, serviceForCredential name = some service ∧
      ∃ value, hostVar name = some value ∧ value ≠ ""

/-- The provider has one kind of credential, and one that is not empty if the keychain had any. -/
structure Deduplicated (hostVar : HostEnv) (options : List ContainerOption)
    (r : ResolvedContainerOptions) (service : Service) : Prop where
  /-- Not both kinds. -/
  single : ¬ ((Mentions r.agentCredentials service ∨ Stages r.refreshableCredentials service) ∧
    Mentions (r.declared hostVar) service)
  served : KeychainServes options service →
    HasValue (r.declared hostVar) service ∨ HasValue r.agentCredentials service ∨
      Stages r.refreshableCredentials service

/-- Where a declared variable covers the provider, one that reaches the container has a value that is
not empty; where none does, none reaches the container, and a credential of the keychain is not
empty. -/
structure Separated (hostVar : HostEnv) (options : List ContainerOption) (service : Service) :
    Prop where
  /-- What covers the provider is not empty. -/
  covered : Covered hostVar options service →
    HasValue (declaredVars hostVar (passthroughs options) (overrides options) (literals options)) service
  /-- No variable of the provider is set for this launch. -/
  overridden : ¬ Covered hostVar options service → ¬ Mentions (overrides options) service
  /-- No variable that is passed for the provider is empty on the host. -/
  emptied : ¬ Covered hostVar options service →
    ∀ name ∈ passthroughs options, serviceForCredential name = some service → hostVar name = none
  /-- What the keychain has is not empty. -/
  kept : ¬ Covered hostVar options service →
    HasValue (credentials options) service ∨ Stages (refreshables options) service

variable {hostVar : HostEnv} {options : List ContainerOption} {service : Service}
  {pairs front back : List EnvPair} {key value : String}

/-! ## Variables -/

/-- A variable that authenticates to a provider has a name that every check accepts. -/
theorem valid_of_service (h : serviceForCredential key = some service) :
    isEnvVarName key = true ∧ validEnvName key.toList = true := by
  unfold serviceForCredential at h
  split_ifs at h with hanthropic hopenai hgithub hgoogle haws hgroq hmistral
  · rcases hanthropic with rfl | rfl <;> exact ⟨by decide, by decide⟩
  · subst hopenai
    exact ⟨by decide, by decide⟩
  · rcases hgithub with rfl | rfl <;> exact ⟨by decide, by decide⟩
  · rcases hgoogle with rfl | rfl <;> exact ⟨by decide, by decide⟩
  · rcases haws with rfl | rfl <;> exact ⟨by decide, by decide⟩
  · subst hgroq
    exact ⟨by decide, by decide⟩
  · subst hmistral
    exact ⟨by decide, by decide⟩

theorem mentions_append :
    Mentions (front ++ back) service ↔ Mentions front service ∨ Mentions back service := by
  simp [Mentions, or_and_right, exists_or]

theorem mentions_cons {pair : EnvPair} :
    Mentions (pair :: back) service ↔
      serviceForCredential pair.1 = some service ∨ Mentions back service := by
  simp [Mentions]

/-- A variable that has a value is set. -/
theorem mentions_of_hasValue (h : HasValue pairs service) : Mentions pairs service := by
  obtain ⟨key, value, hservice, hvalue, _⟩ := h
  obtain ⟨pair, hfound, _⟩ := Option.map_eq_some_iff.mp hvalue
  have hmem := List.mem_reverse.mp (List.mem_of_find?_eq_some hfound)
  have hkey : pair.1 = key := by simpa using List.find?_some hfound
  exact ⟨pair, hmem, by rw [hkey, hservice]⟩

/-- A variable that is kept keeps its value. -/
theorem valueOf_filter (keep : String → Bool) (pairs : List EnvPair) (key : String) :
    valueOf (pairs.filter fun pair => keep pair.1) key =
      if keep key then valueOf pairs key else none := by
  unfold valueOf
  rw [← List.filter_reverse, List.find?_filter]
  by_cases hkeep : keep key
  · have hsame : (fun pair : EnvPair => decide (keep pair.1 = true ∧ decide (pair.1 = key) = true)) =
        fun pair => decide (pair.1 = key) := by
      funext pair
      by_cases hkey : pair.1 = key
      · simp [hkey, hkeep]
      · simp [hkey]
    rw [if_pos hkeep, hsame]
  · have hnone : (fun pair : EnvPair => decide (keep pair.1 = true ∧ decide (pair.1 = key) = true)) =
        fun _ => false := by
      funext pair
      by_cases hkey : pair.1 = key
      · simp [hkey, hkeep]
      · simp [hkey]
    rw [if_neg hkeep, hnone]
    simp

/-- A value of this launch is set beside the others. -/
theorem mentions_override {pair : EnvPair} :
    Mentions (override pairs pair) service ↔
      Mentions pairs service ∨ serviceForCredential pair.1 = some service := by
  unfold override
  split
  · rw [mentions_append]
    constructor
    · rintro (hkept | hnew)
      · obtain ⟨other, hmem, hservice⟩ := hkept
        exact Or.inl ⟨other, List.mem_of_mem_filter hmem, hservice⟩
      · exact Or.inr (by simpa [Mentions] using hnew)
    · rintro (hold | hnew)
      · obtain ⟨other, hmem, hservice⟩ := hold
        by_cases hkey : other.1 = pair.1
        · exact Or.inr ⟨pair, List.mem_singleton_self pair, by rw [← hkey, hservice]⟩
        · exact Or.inl ⟨other, List.mem_filter.mpr ⟨hmem, by simpa using hkey⟩, hservice⟩
      · exact Or.inr ⟨pair, List.mem_singleton_self pair, hnew⟩
  · rename_i hinvalid
    have hnone : serviceForCredential pair.1 ≠ some service :=
      fun h => hinvalid (valid_of_service h).2
    simp [hnone]

theorem mentions_overrides (values : List EnvPair) :
    Mentions (values.foldl override pairs) service ↔
      Mentions pairs service ∨ Mentions values service := by
  induction values generalizing pairs with
  | nil => simp [Mentions]
  | cons pair values ih => rw [List.foldl_cons, ih, mentions_override, mentions_cons, or_assoc]

/-- Which providers the variables that reach the container serve. -/
theorem mentions_declaredVars (names : List String) (values : List EnvPair) (literal : List EnvPair) :
    Mentions (declaredVars hostVar names values literal) service ↔
      (∃ name ∈ names, serviceForCredential name = some service ∧ hostVar name ≠ none) ∨
        Mentions values service ∨ Mentions literal service := by
  have hpassed : Mentions ((names.filter isEnvVarName).filterMap fun name =>
      (hostVar name).map fun value => (name, value)) service ↔
      ∃ name ∈ names, serviceForCredential name = some service ∧ hostVar name ≠ none := by
    constructor
    · rintro ⟨pair, hmem, hservice⟩
      obtain ⟨name, hname, hpair⟩ := List.mem_filterMap.mp hmem
      obtain ⟨value, hvalue, rfl⟩ := Option.map_eq_some_iff.mp hpair
      exact ⟨name, List.mem_of_mem_filter hname, hservice, by rw [hvalue]; simp⟩
    · rintro ⟨name, hname, hservice, hset⟩
      obtain ⟨value, hvalue⟩ := Option.ne_none_iff_exists'.mp hset
      refine ⟨(name, value), List.mem_filterMap.mpr ⟨name, ?_, by rw [hvalue]; rfl⟩, hservice⟩
      exact List.mem_filter.mpr ⟨hname, (valid_of_service hservice).1⟩
  rw [declaredVars, mentions_append, resolveEnvPassthrough, mentions_overrides, hpassed, or_assoc]

/-! ## Merging -/

/-- What is merged is what the options hold. -/
theorem foldl_ingest (options : List ContainerOption) (r : ResolvedContainerOptions) :
    let merged := options.foldl ResolvedContainerOptions.ingest r
    merged.envPassthrough = r.envPassthrough ++ passthroughs options ∧
      merged.envOverrides = r.envOverrides ++ overrides options ∧
      merged.envLiteral = r.envLiteral ++ literals options ∧
      merged.agentCredentials = r.agentCredentials ++ credentials options ∧
      merged.refreshableCredentials = r.refreshableCredentials ++ refreshables options := by
  induction options generalizing r with
  | nil => simp [passthroughs, overrides, literals, credentials, refreshables]
  | cons option options ih =>
    obtain ⟨hpassed, hoverrides, hliterals, hcredentials, hstaged⟩ := ih (r.ingest option)
    simp only [List.foldl_cons]
    rw [hpassed, hoverrides, hliterals, hcredentials, hstaged]
    cases option <;>
      simp [ResolvedContainerOptions.ingest, passthroughs, overrides, literals, credentials,
        refreshables]

theorem mem_coveredCredentialServices :
    service ∈ coveredCredentialServices (passthroughs options) (literals options) hostVar ↔
      Covered hostVar options service := by
  unfold coveredCredentialServices Covered Mentions
  simp only [List.mem_filterMap, List.mem_append, List.mem_filter, List.mem_map,
    Option.any_eq_true, bne_iff_ne]
  constructor
  · rintro ⟨name, ⟨hname, value, hvalue, hfull⟩ | ⟨literal, hliteral, rfl⟩, hservice⟩
    · exact Or.inr ⟨name, hname, hservice, value, hvalue, hfull⟩
    · exact Or.inl ⟨literal, hliteral, hservice⟩
  · rintro (⟨literal, hliteral, hservice⟩ | ⟨name, hname, hservice, value, hvalue, hfull⟩)
    · exact ⟨literal.1, Or.inr ⟨literal, hliteral, rfl⟩, hservice⟩
    · exact ⟨name, Or.inl ⟨hname, value, hvalue, hfull⟩, hservice⟩

/-- Whether a credential given as variable is kept. -/
def uncovered (covered : List Service) (key : String) : Bool :=
  match serviceForCredential key with
  | some service => !covered.contains service
  | none => true

theorem dedupCredentials_eq (given : List EnvPair) (names : List String) (literal : List EnvPair) :
    dedupCredentialsByDeclaredEnv given names literal hostVar =
      given.filter fun pair => uncovered (coveredCredentialServices names literal hostVar) pair.1 := by
  unfold dedupCredentialsByDeclaredEnv
  dsimp only
  split
  · rename_i hempty
    have hnil := List.isEmpty_iff.mp hempty
    have hall : ∀ pair ∈ given,
        uncovered (coveredCredentialServices names literal hostVar) pair.1 = true := by
      intro pair _
      rw [hnil, uncovered]
      split <;> rfl
    exact (List.filter_eq_self.mpr hall).symm
  · rfl

variable {covered : List Service} {files : StagedFiles}
  {refreshable : List RefreshableCredentialDelivery}

theorem uncovered_of_service (h : serviceForCredential key = some service) :
    uncovered covered key = true ↔ service ∉ covered := by
  simp [uncovered, h]

/-- The staged credentials that stay are those whose provider is not covered. -/
theorem keepRefreshable_eq {kept : List RefreshableCredentialDelivery}
    (h : keepRefreshable files covered refreshable = .ok kept) :
    kept = refreshable.filter fun credential => uncovered covered credential.credentialEnvKey := by
  induction refreshable generalizing kept with
  | nil =>
    obtain rfl : [] = kept := Except.ok.inj h
    rfl
  | cons credential rest ih =>
    have hcovered : ((serviceForCredential credential.credentialEnvKey).map
        fun service => covered.contains service).getD false =
        !uncovered covered credential.credentialEnvKey := by
      unfold uncovered
      cases serviceForCredential credential.credentialEnvKey <;> simp
    rw [keepRefreshable, hcovered] at h
    split at h
    · rename_i hdropped
      have hnot : uncovered covered credential.credentialEnvKey = false := by simpa using hdropped
      split at h
      · cases h
      · rw [ih h, List.filter_cons_of_neg (by simp [hnot])]
    · rename_i hkept
      have hstays : uncovered covered credential.credentialEnvKey = true := by simpa using hkept
      cases hrest : keepRefreshable files covered rest with
      | error error =>
        rw [hrest] at h
        cases h
      | ok others =>
        rw [hrest] at h
        obtain rfl : credential :: others = kept := Except.ok.inj h
        rw [ih hrest, List.filter_cons, if_pos hstays]

theorem dedupRefreshable_eq {kept : List RefreshableCredentialDelivery} {names : List String}
    {literal : List EnvPair}
    (h : dedupRefreshableByDeclaredEnv files refreshable names literal hostVar = .ok kept) :
    kept = refreshable.filter fun credential =>
      uncovered (coveredCredentialServices names literal hostVar) credential.credentialEnvKey := by
  unfold dedupRefreshableByDeclaredEnv at h
  dsimp only at h
  split at h
  · rename_i hempty
    have hnil := List.isEmpty_iff.mp hempty
    obtain rfl : refreshable = kept := Except.ok.inj h
    have hall : ∀ credential ∈ refreshable, uncovered
        (coveredCredentialServices names literal hostVar) credential.credentialEnvKey = true := by
      intro credential _
      rw [hnil, uncovered]
      split <;> rfl
    exact (List.filter_eq_self.mpr hall).symm
  · exact keepRefreshable_eq h

/-! ## The resolved options -/

/-- What the resolved options hold: the declarations as they were given, and the credentials whose
provider is not covered. -/
structure Resolved (hostVar : HostEnv) (options : List ContainerOption)
    (r : ResolvedContainerOptions) : Prop where
  declared : r.declared hostVar =
    declaredVars hostVar (passthroughs options) (overrides options) (literals options)
  agentCredentials : r.agentCredentials = (credentials options).filter fun pair =>
    uncovered (coveredCredentialServices (passthroughs options) (literals options) hostVar) pair.1
  refreshableCredentials : r.refreshableCredentials = (refreshables options).filter fun credential =>
    uncovered (coveredCredentialServices (passthroughs options) (literals options) hostVar)
      credential.credentialEnvKey

theorem resolved_of_resolve {r : ResolvedContainerOptions}
    (h : ResolvedContainerOptions.resolve files hostVar options = .ok r) :
    Resolved hostVar options r := by
  obtain ⟨hpassed, hoverrides, hliterals, hcredentials, hstaged⟩ := foldl_ingest options {}
  simp only [List.nil_append] at hpassed hoverrides hliterals hcredentials hstaged
  unfold ResolvedContainerOptions.resolve at h
  simp only [hpassed, hliterals, hcredentials, hstaged] at h
  split at h
  · cases h
  · rename_i kept hkept
    split at h
    · cases h
    · cases h
      have hrefreshable := dedupRefreshable_eq hkept
      unfold ResolvedContainerOptions.renderOutput
      split
      · refine ⟨?_, dedupCredentials_eq _ _ _, hrefreshable⟩
        rw [ResolvedContainerOptions.declared]
        rw [hoverrides]
      · refine ⟨?_, dedupCredentials_eq _ _ _, hrefreshable⟩
        rw [ResolvedContainerOptions.declared]
        rw [hoverrides]

/-- Variables of a provider are kept when it is not covered. -/
theorem mentions_filter_uncovered :
    Mentions (pairs.filter fun pair => uncovered covered pair.1) service ↔
      Mentions pairs service ∧ service ∉ covered := by
  constructor
  · rintro ⟨pair, hmem, hservice⟩
    obtain ⟨hpair, hkept⟩ := List.mem_filter.mp hmem
    exact ⟨⟨pair, hpair, hservice⟩, (uncovered_of_service hservice).mp hkept⟩
  · rintro ⟨⟨pair, hmem, hservice⟩, hkept⟩
    exact ⟨pair, List.mem_filter.mpr ⟨hmem, (uncovered_of_service hservice).mpr hkept⟩, hservice⟩

theorem hasValue_filter_uncovered :
    HasValue (pairs.filter fun pair => uncovered covered pair.1) service ↔
      HasValue pairs service ∧ service ∉ covered := by
  constructor
  · rintro ⟨key, value, hservice, hvalue, hfull⟩
    rw [valueOf_filter] at hvalue
    split at hvalue
    · rename_i hkept
      exact ⟨⟨key, value, hservice, hvalue, hfull⟩, (uncovered_of_service hservice).mp hkept⟩
    · cases hvalue
  · rintro ⟨⟨key, value, hservice, hvalue, hfull⟩, hkept⟩
    refine ⟨key, value, hservice, ?_, hfull⟩
    rw [valueOf_filter, if_pos ((uncovered_of_service hservice).mpr hkept), hvalue]

theorem stages_filter_uncovered :
    Stages (refreshable.filter fun credential => uncovered covered credential.credentialEnvKey)
        service ↔ Stages refreshable service ∧ service ∉ covered := by
  constructor
  · rintro ⟨credential, hmem, hservice⟩
    obtain ⟨hcredential, hkept⟩ := List.mem_filter.mp hmem
    exact ⟨⟨credential, hcredential, hservice⟩, (uncovered_of_service hservice).mp hkept⟩
  · rintro ⟨⟨credential, hmem, hservice⟩, hkept⟩
    exact ⟨credential, List.mem_filter.mpr ⟨hmem, (uncovered_of_service hservice).mpr hkept⟩, hservice⟩

/-- A provider has one kind of credential and keeps one that is not empty exactly when the
declarations for it are apart from what the keychain has. -/
theorem deduplicated_iff {r : ResolvedContainerOptions} (h : Resolved hostVar options r) :
    Deduplicated hostVar options r service ↔
      (KeychainServes options service → Separated hostVar options service) := by
  have hdeclared := @mentions_declaredVars hostVar service (passthroughs options) (overrides options)
    (literals options)
  have hmentions : Mentions r.agentCredentials service ↔
      Mentions (credentials options) service ∧ ¬ Covered hostVar options service := by
    rw [h.agentCredentials, mentions_filter_uncovered, mem_coveredCredentialServices]
  have hstages : Stages r.refreshableCredentials service ↔
      Stages (refreshables options) service ∧ ¬ Covered hostVar options service := by
    rw [h.refreshableCredentials, stages_filter_uncovered, mem_coveredCredentialServices]
  have hvalue : HasValue r.agentCredentials service ↔
      HasValue (credentials options) service ∧ ¬ Covered hostVar options service := by
    rw [h.agentCredentials, hasValue_filter_uncovered, mem_coveredCredentialServices]
  constructor
  · intro hdedup hkeychain
    have hserved := hdedup.served hkeychain
    have hsingle := hdedup.single
    rw [h.declared] at hserved hsingle
    refine ⟨?_, ?_, ?_, ?_⟩
    · intro hcovered
      rcases hserved with hvalue' | hvalue' | hstaged
      · exact hvalue'
      · exact absurd hcovered (hvalue.mp hvalue').2
      · exact absurd hcovered (hstages.mp hstaged).2
    all_goals
      intro huncovered
      have hkept : Mentions r.agentCredentials service ∨ Stages r.refreshableCredentials service :=
        hkeychain.imp (fun hthere => hmentions.mpr ⟨hthere, huncovered⟩)
          fun hthere => hstages.mpr ⟨hthere, huncovered⟩
      have hnone : ¬ Mentions (declaredVars hostVar (passthroughs options) (overrides options)
          (literals options)) service := fun hthere => hsingle ⟨hkept, hthere⟩
    · exact fun hthere => hnone (hdeclared.mpr (Or.inr (Or.inl hthere)))
    · intro name hname hservice
      by_contra hset
      exact hnone (hdeclared.mpr (Or.inl ⟨name, hname, hservice, hset⟩))
    · rcases hserved with hvalue' | hvalue' | hstaged
      · exact absurd (mentions_of_hasValue hvalue') hnone
      · exact Or.inl (hvalue.mp hvalue').1
      · exact Or.inr (hstages.mp hstaged).1
  · intro hseparated
    constructor
    · rintro ⟨hkept, hthere⟩
      have huncovered : ¬ Covered hostVar options service :=
        hkept.elim (fun hmem => (hmentions.mp hmem).2) fun hmem => (hstages.mp hmem).2
      have hkeychain : KeychainServes options service :=
        hkept.imp (fun hmem => (hmentions.mp hmem).1) fun hmem => (hstages.mp hmem).1
      have hapart := hseparated hkeychain
      rw [h.declared] at hthere
      rcases hdeclared.mp hthere with ⟨name, hname, hservice, hset⟩ | hoverride | hliteral
      · exact hset (hapart.emptied huncovered name hname hservice)
      · exact hapart.overridden huncovered hoverride
      · exact huncovered (Or.inl hliteral)
    · intro hkeychain
      have hapart := hseparated hkeychain
      by_cases hcovered : Covered hostVar options service
      · rw [h.declared]
        exact Or.inl (hapart.covered hcovered)
      · rcases hapart.kept hcovered with hfull | hstaged
        · exact Or.inr (Or.inl (hvalue.mpr ⟨hfull, hcovered⟩))
        · exact Or.inr (Or.inr (hstages.mpr ⟨hstaged, hcovered⟩))

/-- Resolved options have one kind of credential for each provider, and one that is not empty for
each that the keychain has one for, exactly when the declarations are apart from the keychain's
credentials. -/
theorem resolve_deduplicated {files : StagedFiles} {r : ResolvedContainerOptions}
    (h : ResolvedContainerOptions.resolve files hostVar options = .ok r) :
    (∀ service, Deduplicated hostVar options r service) ↔
      ∀ service, KeychainServes options service → Separated hostVar options service := by
  have hresolved := resolved_of_resolve h
  constructor
  · intro hall service
    exact (deduplicated_iff hresolved).mp (hall service)
  · intro hall service
    exact (deduplicated_iff hresolved).mpr (hall service)

/-- Files that can be removed. -/
def removable : StagedFiles := ⟨fun _ => .removed, fun _ => true⟩

theorem resolve_deduplicated_unset :
    (∀ service, Deduplicated (fun _ => none)
      [.envPassthrough "ANTHROPIC_API_KEY", .agentCredentials [("CLAUDE_CODE_OAUTH_TOKEN", "token")]]
      { envPassthrough := ["ANTHROPIC_API_KEY"],
        agentCredentials := [("CLAUDE_CODE_OAUTH_TOKEN", "token")] } service) ↔
      ∀ service, KeychainServes [.envPassthrough "ANTHROPIC_API_KEY",
        .agentCredentials [("CLAUDE_CODE_OAUTH_TOKEN", "token")]] service →
        Separated (fun _ => none) [.envPassthrough "ANTHROPIC_API_KEY",
          .agentCredentials [("CLAUDE_CODE_OAUTH_TOKEN", "token")]] service :=
  @resolve_deduplicated _ _ removable _ rfl

/-- A passed variable that is empty on the host reaches the container beside the keychain's token. -/
theorem empty_passthrough_beside_token :
    ¬ ∀ (files : StagedFiles) (hostVar : HostEnv) (options : List ContainerOption)
      (r : ResolvedContainerOptions),
      ResolvedContainerOptions.resolve files hostVar options = .ok r →
        ∀ service, Deduplicated hostVar options r service := by
  intro hall
  have hdedup := hall removable (fun _ => some "")
    [.envPassthrough "ANTHROPIC_API_KEY", .agentCredentials [("CLAUDE_CODE_OAUTH_TOKEN", "token")]]
    _ rfl .anthropic
  refine hdedup.single ⟨Or.inl ⟨("CLAUDE_CODE_OAUTH_TOKEN", "token"), ?_, by decide⟩,
    ("ANTHROPIC_API_KEY", ""), ?_, by decide⟩
  · exact List.mem_singleton_self _
  · have hdeclared : ResolvedContainerOptions.declared
        { envPassthrough := ["ANTHROPIC_API_KEY"],
          agentCredentials := [("CLAUDE_CODE_OAUTH_TOKEN", "token")] } (fun _ => some "") =
        [("ANTHROPIC_API_KEY", "")] := by decide
    exact hdeclared ▸ List.mem_singleton_self _

end Awman.ContainerOptions
