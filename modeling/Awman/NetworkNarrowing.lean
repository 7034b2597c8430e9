import Awman.NetworkConfig

/-!
# A repository block only narrows the global block

The host names an allow list admits are those the rules of the network stack match.  `within`
decides inclusion between the host names of two entries, and from it every part of the settings
`resolve` gives stays below the global block.
-/

namespace Awman.Network

open Awman.Checks Awman.SocketText
open Awman.TextCuts (byteLength units stripSuffix stripSuffix_eq_some)

/-! ## The host names an entry matches -/

/-- The label-aware match of a name and its subdomains, as the rules of the network stack make
it. -/
def matchesSuffix (hostname parent : List Char) : Bool :=
  hostname == parent ||
    (stripSuffix parent hostname).any
      (fun front => 1 < byteLength front && front.getLast? == some '.')

/-- A text ending in a dot has more than one byte exactly when something stands before the dot. -/
theorem one_lt_byteLength_dot (front : List Char) : 1 < byteLength (front ++ ['.']) ↔ front ≠ [] := by
  cases front with
  | nil => simp [byteLength, units]; decide
  | cons first rest =>
    have hfirst := Char.utf8Size_pos first
    have hdot := Char.utf8Size_pos '.'
    simp [byteLength, units]
    omega

/-- A name matches a suffix when it is that name or adds labels in front of it. -/
theorem matchesSuffix_iff {hostname parent : List Char} :
    matchesSuffix hostname parent = true ↔
      hostname = parent ∨ ∃ front, front ≠ [] ∧ hostname = front ++ '.' :: parent := by
  unfold matchesSuffix
  rw [Bool.or_eq_true, beq_iff_eq, Option.any_eq_true]
  apply or_congr_right
  constructor
  · rintro ⟨front, hstrip, hfront⟩
    rw [Bool.and_eq_true, decide_eq_true_eq, beq_iff_eq] at hfront
    obtain ⟨start, rfl⟩ := List.getLast?_eq_some_iff.mp hfront.2
    refine ⟨start, (one_lt_byteLength_dot start).mp hfront.1, ?_⟩
    rw [stripSuffix_eq_some.mp hstrip]
    simp
  · rintro ⟨front, hfront, rfl⟩
    refine ⟨front ++ ['.'], stripSuffix_eq_some.mpr (by simp), ?_⟩
    simp [(one_lt_byteLength_dot front).mpr hfront]

namespace NetworkAllowEntry

/-- The host names the rule of an entry matches. -/
def matchesHost (entry : NetworkAllowEntry) (hostname : List Char) : Bool :=
  match entry with
  | domain name => hostname == name.chars
  | suffix name => matchesSuffix hostname name.chars

/-- An entry matches its own name. -/
theorem matchesHost_name (entry : NetworkAllowEntry) : entry.matchesHost entry.name.chars = true := by
  cases entry with
  | domain name => simp [matchesHost, NetworkAllowEntry.name]
  | suffix name => simp [matchesHost, NetworkAllowEntry.name, matchesSuffix]

end NetworkAllowEntry

/-- A domain name does not start with a dot. -/
theorem DomainName.chars_ne_dot_cons (name : DomainName) (rest : List Char) :
    name.chars ≠ '.' :: rest := by
  intro hchars
  have hempty : [] ∈ name.chars.splitOn '.' := by
    rw [hchars]
    simp [List.splitOn, List.splitOnP_cons_eq_if_modifyHead]
  have hvalid := name.labels_valid [] hempty
  simp [validLabel] at hvalid

/-- `within` holds exactly when every host name the first entry matches is matched by the
second. -/
theorem NetworkAllowEntry.within_iff (entry other : NetworkAllowEntry) :
    entry.within other = true ↔
      ∀ hostname, entry.matchesHost hostname = true → other.matchesHost hostname = true := by
  constructor
  · intro hwithin hostname hmatches
    cases other with
    | domain second =>
      cases entry with
      | domain first =>
        have hsame : first = second := by simpa [within] using hwithin
        rw [← hsame]
        exact hmatches
      | suffix first => simp [within] at hwithin
    | suffix parent =>
      have hname : entry.name.chars = parent.chars ∨
          ∃ front, front ≠ [] ∧ entry.name.chars = front ++ '.' :: parent.chars := by
        simp only [within, Bool.or_eq_true, beq_iff_eq, List.isSuffixOf_iff_suffix] at hwithin
        apply hwithin.imp_right
        rintro ⟨front, hfront⟩
        refine ⟨front, ?_, hfront.symm⟩
        rintro rfl
        exact entry.name.chars_ne_dot_cons parent.chars hfront.symm
      cases entry with
      | domain first =>
        have hhost : hostname = first.chars := by simpa [matchesHost] using hmatches
        rw [hhost]
        exact matchesSuffix_iff.mpr hname
      | suffix first =>
        apply matchesSuffix_iff.mpr
        rcases matchesSuffix_iff.mp hmatches with rfl | ⟨front, hfront, rfl⟩
        · exact hname
        · rcases hname with hsame | ⟨middle, hmiddle, hsame⟩
          · exact .inr ⟨front, hfront, by rw [← hsame, NetworkAllowEntry.name]⟩
          · refine .inr ⟨front ++ '.' :: middle, by simp, ?_⟩
            rw [NetworkAllowEntry.name] at hsame
            rw [hsame]
            simp
  · intro hinclusion
    have hown := hinclusion _ entry.matchesHost_name
    cases other with
    | suffix parent =>
      rcases matchesSuffix_iff.mp hown with hsame | ⟨front, -, hsame⟩
      · simp [within, hsame]
      · have hsuffix : ('.' :: parent.chars).isSuffixOf entry.name.chars = true :=
          List.isSuffixOf_iff_suffix.mpr ⟨front, hsame.symm⟩
        simp [within, hsuffix]
    | domain second =>
      have hname : entry.name.chars = second.chars := by simpa [matchesHost] using hown
      cases entry with
      | domain first =>
        have hsame : first = second := DomainName.chars_injective hname
        simpa [within] using hsame
      | suffix first =>
        -- a wildcard also matches a subdomain, which an exact name does not
        have hsub : (suffix first).matchesHost ('x' :: '.' :: first.chars) = true :=
          matchesSuffix_iff.mpr (.inr ⟨['x'], by simp, rfl⟩)
        have hother := hinclusion _ hsub
        rw [NetworkAllowEntry.name] at hname
        simp only [matchesHost, ← hname, beq_iff_eq] at hother
        have hlength := congrArg List.length hother
        simp at hlength
        omega

/-! ## What a checked block holds -/

namespace BuiltinNetworkConfig

/-- The mode of a config file's block, or the default. -/
def configuredMode (config : Option BuiltinNetworkConfig) : NetworkMode :=
  (config.bind (·.mode)).getD default

/-- The host names matched by the allow list of a config file's block. -/
def ConfiguredMatches (config : Option BuiltinNetworkConfig) (hostname : List Char) : Prop :=
  ∃ raw ∈ (config.bind (·.allow)).getD [], ∃ entry,
    NetworkAllowEntry.parse raw = .ok entry ∧ entry.matchesHost hostname = true

/-- The host ports of a config file's block. -/
def configuredHostPorts (config : Option BuiltinNetworkConfig) : List (Fin 65536) :=
  (config.bind (·.hostPorts)).getD []

/-- The nameservers of a config file's block, as written. -/
def configuredNameservers (config : Option BuiltinNetworkConfig) : List (List Char) :=
  (config.bind (·.nameservers)).getD []

/-- Whether a config file's block asks for the host's certificates. -/
def configuredTrustHostCas (config : Option BuiltinNetworkConfig) : Bool :=
  (config.bind (·.trustHostCas)).getD false

/-- Every entry of a checked allow list is the parsed form of a written one. -/
theorem parsedAllow_mem {entries : List (List Char)} {allow : OrderedSet NetworkAllowEntry}
    (hparsed : parsedAllow entries = .ok allow) {entry : NetworkAllowEntry} (hentry : entry ∈ allow) :
    ∃ raw ∈ entries, NetworkAllowEntry.parse raw = .ok entry := by
  simp only [parsedAllow, bind_eq_ok, pure_eq_ok] at hparsed
  obtain ⟨-, -, parsed, hcollect, rfl⟩ := hparsed
  obtain ⟨raw, hraw, hparse⟩ :=
    mem_of_collect hcollect ((OrderedSet.mem_ofList parsed entry).mp hentry)
  exact ⟨raw, hraw, mapError_eq_ok.mp hparse⟩

/-- The checked host ports are the written ones. -/
theorem parsedHostPorts_mem {ports : List (Fin 65536)} {hostPorts : OrderedSet (Fin 65536)}
    (hparsed : parsedHostPorts ports = .ok hostPorts) (port : Fin 65536) :
    port ∈ hostPorts ↔ port ∈ ports := by
  simp only [parsedHostPorts, bind_eq_ok, pure_eq_ok] at hparsed
  obtain ⟨-, -, -, -, -, -, rfl⟩ := hparsed
  exact OrderedSet.mem_ofList ports port

/-- The checked nameservers are the parsed forms of the written ones. -/
theorem parsedNameservers_forall₂ {servers : List (List Char)} {nameservers : List SocketAddr}
    (hparsed : parsedNameservers servers = .ok nameservers) :
    List.Forall₂ (fun raw addr => parseNameserver raw = .ok addr) servers nameservers := by
  rw [parsedNameservers, collect_eq_ok] at hparsed
  exact hparsed.imp fun raw addr hparse => mapError_eq_ok.mp hparse

/-- What a checked block has in common with the block as written. -/
structure Reads (config : Option BuiltinNetworkConfig) (block : ParsedBlock) : Prop where
  mode : block.mode.getD default = configuredMode config
  allow : ∀ entry ∈ block.allow.getD .empty, ∀ hostname, entry.matchesHost hostname = true →
    ConfiguredMatches config hostname
  hostPorts : ∀ port, port ∈ block.hostPorts.getD .empty ↔ port ∈ configuredHostPorts config
  nameservers : List.Forall₂ (fun raw addr => parseNameserver raw = .ok addr)
    (configuredNameservers config) (block.nameservers.getD [])
  trustHostCas : block.trustHostCas.getD false = configuredTrustHostCas config

/-- A block that passes its check is read as it is written. -/
theorem parsedOrDefault_reads {config : Option BuiltinNetworkConfig} {block : ParsedBlock}
    (hparsed : parsedOrDefault config = .ok block) : Reads config block := by
  cases config with
  | none =>
    cases hparsed
    exact
      { mode := rfl
        allow := fun entry hentry => absurd hentry (OrderedSet.not_mem_empty entry)
        hostPorts := fun port =>
          iff_of_false (OrderedSet.not_mem_empty port) (List.not_mem_nil (a := port))
        nameservers := List.Forall₂.nil
        trustHostCas := rfl }
  | some config =>
    simp only [parsedOrDefault, parsed, bind_eq_ok, pure_eq_ok] at hparsed
    obtain ⟨allow, hallow, hostPorts, hports, nameservers, hservers, -, -, rfl⟩ := hparsed
    constructor
    · rfl
    · intro entry hentry hostname hmatches
      rcases checkField_eq_ok.mp hallow with ⟨-, rfl⟩ | ⟨entries, checked, hwritten, hcheck, rfl⟩
      · exact absurd hentry (OrderedSet.not_mem_empty entry)
      · obtain ⟨raw, hraw, hparse⟩ := parsedAllow_mem hcheck hentry
        exact ⟨raw, by simpa [hwritten] using hraw, entry, hparse, hmatches⟩
    · intro port
      rcases checkField_eq_ok.mp hports with ⟨hwritten, rfl⟩ | ⟨ports, checked, hwritten, hcheck, rfl⟩
      · simp [configuredHostPorts, hwritten]
      · simpa [configuredHostPorts, hwritten] using parsedHostPorts_mem hcheck port
    · rcases checkField_eq_ok.mp hservers with
        ⟨hwritten, rfl⟩ | ⟨servers, checked, hwritten, hcheck, rfl⟩
      · simp [configuredNameservers, hwritten]
      · simpa [configuredNameservers, hwritten] using parsedNameservers_forall₂ hcheck
    · rfl

/-! ## The settings -/

/-- Settings that stay below the block of the global config file. -/
structure Narrows (globalConfig : Option BuiltinNetworkConfig)
    (settings : BuiltinNetworkSettings) : Prop where
  mode : settings.mode ≤ configuredMode globalConfig
  /-- Below a global allow list, only names it matches are matched. -/
  allow : configuredMode globalConfig = .allowlist → ∀ hostname, ∀ entry ∈ settings.allow,
    entry.matchesHost hostname = true → ConfiguredMatches globalConfig hostname
  hostPorts : ∀ port ∈ settings.hostPorts, port ∈ configuredHostPorts globalConfig
  nameservers : List.Forall₂ (fun raw addr => parseNameserver raw = .ok addr)
    (configuredNameservers globalConfig) settings.nameservers
  /-- The host's certificates are shared exactly when the global block says so. -/
  trustHostCas : settings.trustHostCas = configuredTrustHostCas globalConfig

end BuiltinNetworkConfig

/-- What the settings promise about themselves. -/
structure BuiltinNetworkSettings.WellFormed (settings : BuiltinNetworkSettings) : Prop where
  /-- Allow entries exist only in mode `allowlist`. -/
  allow : settings.mode ≠ .allowlist → settings.allow = []
  /-- Mode `none` has no host ports. -/
  hostPorts : settings.mode = .none → settings.hostPorts = []

namespace BuiltinNetworkConfig

theorem resolveMode_le {globalMode mode : NetworkMode} {requested : Option NetworkMode}
    (hresolve : resolveMode globalMode requested = .ok mode) : mode ≤ globalMode := by
  cases requested with
  | none =>
    cases hresolve
    exact le_refl _
  | some requested =>
    rw [resolveMode] at hresolve
    split at hresolve
    · cases hresolve
    · rename_i hle
      cases hresolve
      exact not_lt.mp hle

/-- Outside mode `allowlist` no name is allowed. -/
theorem resolveAllow_empty {mode globalMode : NetworkMode}
    {globalAllow repoAllow : Option (OrderedSet NetworkAllowEntry)} {allow : OrderedSet NetworkAllowEntry}
    (hmode : mode ≠ .allowlist)
    (hresolve : resolveAllow mode globalMode globalAllow repoAllow = .ok allow) :
    allow.elements = [] := by
  rw [resolveAllow, if_neg hmode] at hresolve
  split at hresolve
  · cases hresolve
  · cases hresolve
    rfl

/-- Below a global allow list, every effective entry lies within one of its entries. -/
theorem resolveAllow_within {mode : NetworkMode}
    {globalAllow repoAllow : Option (OrderedSet NetworkAllowEntry)} {allow : OrderedSet NetworkAllowEntry}
    (hresolve : resolveAllow mode .allowlist globalAllow repoAllow = .ok allow)
    {entry : NetworkAllowEntry} (hentry : entry ∈ allow.elements) :
    ∃ ceiling ∈ globalAllow.getD .empty, entry.within ceiling = true := by
  by_cases hmode : mode = .allowlist
  · rw [resolveAllow, if_pos hmode] at hresolve
    cases repoAllow with
    | none =>
      cases hresolve
      exact ⟨entry, hentry, (entry.within_iff entry).mpr fun _ hmatches => hmatches⟩
    | some requested =>
      cases hfind : requested.elements.find?
          (fun entry => !(globalAllow.getD .empty).elements.any entry.within) with
      | some extra => simp [hfind] at hresolve
      | none =>
        simp only [beq_self_eq_true, hfind, Except.ok.injEq] at hresolve
        subst hresolve
        have hcovered := List.find?_eq_none.mp hfind entry hentry
        simpa [OrderedSet.mem_elements] using hcovered
  · rw [resolveAllow_empty hmode hresolve] at hentry
    cases hentry

/-- Every effective host port is an authorised one. -/
theorem resolveHostPorts_mem {globalPorts repoPorts : Option (OrderedSet (Fin 65536))}
    {hostPorts : OrderedSet (Fin 65536)}
    (hresolve : resolveHostPorts globalPorts repoPorts = .ok hostPorts) {port : Fin 65536}
    (hport : port ∈ hostPorts.elements) : port ∈ globalPorts.getD .empty := by
  cases repoPorts with
  | none =>
    cases hresolve
    exact hport
  | some requested =>
    cases hfind : requested.elements.find?
        (fun port => decide (port ∉ globalPorts.getD .empty)) with
    | some port =>
      simp only [resolveHostPorts, hfind] at hresolve
      cases hresolve
    | none =>
      simp only [resolveHostPorts, hfind, Except.ok.injEq] at hresolve
      subst hresolve
      have hauthorised := List.find?_eq_none.mp hfind port hport
      simpa using hauthorised

/-- The settings two blocks resolve to stay below the global block and keep their own rules. -/
theorem resolve_narrows {globalConfig repoConfig : Option BuiltinNetworkConfig}
    {settings : BuiltinNetworkSettings} (hresolve : resolve globalConfig repoConfig = .ok settings) :
    Narrows globalConfig settings ∧ settings.WellFormed := by
  simp only [resolve, bind_eq_ok, pure_eq_ok, mapError_eq_ok, refuseIf_eq_ok] at hresolve
  obtain ⟨globalBlock, hglobal, repo, hrepo, -, -, -, -, mode, hmode, -, -, allow, hallow, hostPorts,
    hports, -, hnone, -, -, rfl⟩ := hresolve
  have hreads := parsedOrDefault_reads hglobal
  refine ⟨⟨?_, ?_, ?_, hreads.nameservers, hreads.trustHostCas⟩, ⟨?_, ?_⟩⟩
  · rw [← hreads.mode]
    exact resolveMode_le hmode
  · intro hallowlist hostname entry hentry hmatches
    rw [hreads.mode, hallowlist] at hallow
    obtain ⟨ceiling, hceiling, hwithin⟩ := resolveAllow_within hallow hentry
    exact hreads.allow ceiling hceiling hostname
      ((entry.within_iff ceiling).mp hwithin hostname hmatches)
  · intro port hport
    exact (hreads.hostPorts port).mp (resolveHostPorts_mem hports hport)
  · intro hother
    exact resolveAllow_empty hother hallow
  · intro hmodeNone
    by_contra hsome
    exact hnone ⟨hmodeNone, hsome⟩

/-- A global block with a wildcard, an exact name and two host ports. -/
def wildcardCeiling : BuiltinNetworkConfig where
  mode := some .allowlist
  allow := some ["*.example.com".toList, "registry.test.org".toList]
  hostPorts := some [9000, 8765]
  nameservers := some ["1.1.1.1".toList]
  trustHostCas := some true

/-- A repository block that asks for one subdomain and one port. -/
def subdomainRepo : BuiltinNetworkConfig where
  mode := none
  allow := some [" API.Example.com.".toList]
  hostPorts := some [9000]
  nameservers := none
  trustHostCas := none

/-- The settings the two blocks resolve to. -/
def subdomainSettings : BuiltinNetworkSettings where
  mode := .allowlist
  allow := [.domain ⟨"api.example.com".toList, by decide⟩]
  hostPorts := [9000]
  nameservers := [⟨.v4 [1, 1, 1, 1], 53, 0⟩]
  trustHostCas := true

theorem resolve_narrows_subdomain :
    resolve (some wildcardCeiling) (some subdomainRepo) = .ok subdomainSettings ∧
      Narrows (some wildcardCeiling) subdomainSettings ∧ subdomainSettings.WellFormed := by
  have hresolve : resolve (some wildcardCeiling) (some subdomainRepo) = .ok subdomainSettings := by
    decide +kernel
  exact ⟨hresolve, resolve_narrows hresolve⟩

end BuiltinNetworkConfig

end Awman.Network
