import Awman.OverlayMounts

/-!
# Read-only overlays stay read-only

Every place of the host is mounted at most once, and read-only as soon as one source names it
read-only as a directory.  A context scope is decided by the first source that names it, so a later
source cannot make its directory read-only.
-/

namespace Awman.Overlay

open Awman.Checks

variable {host : Host} {sources : OverlaySources}

/-! ## What the sources name -/

/-- The overlays of a list; none if the list is invalid. -/
def listOverlays (host : Host) (list : List Char) : List TypedOverlay :=
  ((parseOverlayList host list).toOption).getD []

/-- The overlays of all sources, in the order in which they are collected. -/
def OverlaySources.overlays (sources : OverlaySources) (host : Host) : List TypedOverlay :=
  (sources.global.getD []).flatMap (listOverlays host) ++
    (sources.repo.getD []).flatMap (listOverlays host) ++
    sources.env.toList.flatMap (listOverlays host) ++ sources.cli ++
    (sources.workflow.getD []).flatMap (listOverlays host) ++
    (sources.step.getD []).flatMap (listOverlays host)

/-- The spec of a directory overlay. -/
def TypedOverlay.directorySpec : TypedOverlay → Option DirectorySpec
  | .directory spec => some spec
  | _ => none

/-- The spec of a context overlay. -/
def TypedOverlay.contextSpec : TypedOverlay → Option ContextOverlaySpec
  | .context spec => some spec
  | _ => none

variable {collected : CollectedOverlays} {cwd : HostPath} {mount : OverlaySpec}

theorem collectList_eq {result : CollectedOverlays} {list spec : List Char}
    (hresult : collectList host collected list spec = .ok result) :
    result = (listOverlays host list).foldl CollectedOverlays.processTyped collected := by
  unfold collectList at hresult
  unfold listOverlays
  cases hparsed : parseOverlayList host list with
  | error reason =>
    rw [hparsed] at hresult
    cases hresult
  | ok parsed =>
    rw [hparsed] at hresult
    cases hresult
    rfl

theorem collectLists_eq {result : CollectedOverlays} {lists : Option (List (List Char))}
    (hresult : collectLists host collected lists = .ok result) :
    result = ((lists.getD []).flatMap (listOverlays host)).foldl
      CollectedOverlays.processTyped collected := by
  unfold collectLists at hresult
  generalize lists.getD [] = lists at hresult
  induction lists generalizing collected with
  | nil =>
    cases hresult
    rfl
  | cons list rest ih =>
    rw [List.foldlM_cons] at hresult
    cases hfirst : collectList host collected list list with
    | error error =>
      rw [hfirst] at hresult
      cases hresult
    | ok next =>
      rw [hfirst] at hresult
      have hnext : next = (listOverlays host list).foldl CollectedOverlays.processTyped collected :=
        collectList_eq hfirst
      have hrest := ih hresult
      rw [hrest, hnext, List.flatMap_cons, List.foldl_append]

/-- Collecting goes through the overlays of all sources in their order. -/
theorem collectedOverlays_eq (hcollected : collectedOverlays host sources = .ok collected) :
    collected = (sources.overlays host).foldl CollectedOverlays.processTyped {} := by
  obtain ⟨afterGlobal, hglobal, hcollected⟩ := bind_eq_ok.mp hcollected
  obtain ⟨afterRepo, hrepo, hcollected⟩ := bind_eq_ok.mp hcollected
  obtain ⟨afterEnv, henv, hcollected⟩ := bind_eq_ok.mp hcollected
  obtain ⟨afterWorkflow, hworkflow, hstep⟩ := bind_eq_ok.mp hcollected
  have hafterEnv : afterEnv = (sources.env.toList.flatMap (listOverlays host)).foldl
      CollectedOverlays.processTyped afterRepo := by
    cases hlist : sources.env with
    | none =>
      rw [hlist] at henv
      cases henv
      rfl
    | some list =>
      rw [hlist, collectEnv] at henv
      rw [collectList_eq henv, Option.toList_some, List.flatMap_singleton]
  rw [collectLists_eq hstep, collectLists_eq hworkflow, hafterEnv, collectLists_eq hrepo,
    collectLists_eq hglobal]
  simp only [OverlaySources.overlays, List.foldl_append]

/-- Every directory spec is collected. -/
theorem foldl_processTyped_directories (overlays : List TypedOverlay) (collected : CollectedOverlays) :
    (overlays.foldl CollectedOverlays.processTyped collected).directories =
      collected.directories ++ overlays.filterMap TypedOverlay.directorySpec := by
  induction overlays generalizing collected with
  | nil => simp
  | cons overlay rest ih =>
    rw [List.foldl_cons, ih]
    cases overlay with
    | directory spec => simp [CollectedOverlays.processTyped, TypedOverlay.directorySpec]
    | skill spec =>
      cases spec with
      | all => rfl
      | named name =>
        rw [CollectedOverlays.processTyped]
        split <;> rfl
    | env | context =>
      rw [CollectedOverlays.processTyped]
      split <;> rfl

/-- The first spec of a scope is the one that is collected. -/
theorem foldl_processTyped_contexts (scope : ContextScope) (overlays : List TypedOverlay)
    (collected : CollectedOverlays) :
    (overlays.foldl CollectedOverlays.processTyped collected).contextOverlays.find?
        (·.scope = scope) =
      (collected.contextOverlays ++ overlays.filterMap TypedOverlay.contextSpec).find?
        (·.scope = scope) := by
  induction overlays generalizing collected with
  | nil => simp
  | cons overlay rest ih =>
    rw [List.foldl_cons, ih]
    cases overlay with
    | directory spec => rfl
    | skill spec =>
      cases spec with
      | all => rfl
      | named name =>
        rw [CollectedOverlays.processTyped]
        split <;> rfl
    | env name =>
      rw [CollectedOverlays.processTyped]
      split <;> rfl
    | context spec =>
      have hlater : (TypedOverlay.context spec :: rest).filterMap TypedOverlay.contextSpec =
          spec :: rest.filterMap TypedOverlay.contextSpec := rfl
      rw [hlater, CollectedOverlays.processTyped]
      split
      case isFalse => simp
      case isTrue hnamed =>
        -- A later spec of a scope that is already named is never the first one.
        rw [List.find?_append, List.find?_append]
        cases hfound : collected.contextOverlays.find? (·.scope = scope) with
        | some earlier => rfl
        | none =>
          have hother : spec.scope ≠ scope := by
            intro hsame
            obtain ⟨earlier, hearlier, hscope⟩ := List.any_eq_true.mp hnamed
            have hmissing := List.find?_eq_none.mp hfound earlier hearlier
            rw [hsame] at hscope
            exact hmissing hscope
          rw [Option.none_or, Option.none_or, List.find?_cons_of_neg (by simpa using hother)]

/-! ## What is mounted -/

/-- The resolved directory specs are added one after another. -/
theorem foldlM_resolve_eq {containerHome : Option (List Char)}
    {directories : List DirectorySpec} {byKey result : NameMap (List Char) OverlaySpec}
    (hresult : directories.foldlM (fun byKey spec => do
      let resolved ← resolveUserOverlay host spec cwd containerHome
      return insertOrMerge host byKey resolved) byKey = Except.ok result) :
    ∃ resolved : List OverlaySpec, result = resolved.foldl (insertOrMerge host) byKey ∧
      ∀ spec ∈ directories, ∃ mount ∈ resolved,
        resolveUserOverlay host spec cwd containerHome = .ok mount := by
  induction directories generalizing byKey with
  | nil =>
    cases hresult
    exact ⟨[], rfl, by simp⟩
  | cons spec rest ih =>
    rw [List.foldlM_cons] at hresult
    obtain ⟨next, hnext, hrest⟩ := bind_eq_ok.mp hresult
    obtain ⟨mount, hmount, hinsert⟩ := bind_eq_ok.mp hnext
    cases hinsert
    obtain ⟨resolved, hresolved, hall⟩ := ih hrest
    refine ⟨mount :: resolved, hresolved, ?_⟩
    intro other hother
    rcases List.mem_cons.mp hother with hsame | hother
    · rw [hsame]
      exact ⟨mount, List.mem_cons_self, hmount⟩
    · obtain ⟨found, hfound, hresolve⟩ := hall other hother
      exact ⟨found, List.mem_cons_of_mem mount hfound, hresolve⟩

/-- What is staged is added one after another. -/
theorem addStaged_eq {byKey result : NameMap (List Char) OverlaySpec}
    {staged : Except String (List OverlaySpec)} (hresult : addStaged host byKey staged = .ok result) :
    ∃ specs : List OverlaySpec, result = specs.foldl (insertOrMerge host) byKey := by
  obtain ⟨specs, -, hspecs⟩ := map_eq_ok.mp hresult
  exact ⟨specs, hspecs.symm⟩

/-- A directory overlay is resolved to its canonical path. -/
theorem resolveUserOverlay_eq {spec : DirectorySpec} {containerHome : Option (List Char)}
    (hmount : resolveUserOverlay host spec cwd containerHome = .ok mount) :
    mount.hostPath = host.canonicalizeLossy (host.makeAbsoluteWithCwd spec.host cwd) ∧
      mount.permission = spec.permission := by
  unfold resolveUserOverlay at hmount
  dsimp only at hmount
  split at hmount
  case isTrue => cases hmount
  case isFalse =>
    split at hmount
    case isTrue => cases hmount
    case isFalse =>
      cases hmount
      exact ⟨rfl, rfl⟩

/-- Every context overlay whose directory can be created is mounted. -/
theorem mem_resolveContextOverlays {dirs : ContextScope → HostPath} {specs : List ContextOverlaySpec}
    {mounts : List OverlaySpec} {spec : ContextOverlaySpec}
    (hmounts : resolveContextOverlays host (.ok dirs) specs = .ok mounts) (hspec : spec ∈ specs)
    (hcreated : host.createDirAll (dirs spec.scope) = true) :
    ⟨dirs spec.scope, spec.scope.containerPath, spec.permission⟩ ∈ mounts := by
  cases specs with
  | nil => cases hspec
  | cons first rest =>
    cases hmounts
    rw [List.mem_filterMap]
    exact ⟨spec, hspec, by rw [if_pos hcreated]⟩

/-- The mounts of a request merge specs among which are its directories and its context
directories. -/
theorem buildOverlays_eq {staging : Staging} {request : OverlayRequest} {mounts : List OverlaySpec}
    (hmounts : buildOverlays host staging cwd request = .ok mounts) :
    ∃ specs : List OverlaySpec,
      mounts.Perm ((specs.foldl (insertOrMerge host) ∅).entries.map (·.2)) ∧
      (∀ spec ∈ request.directories, ∃ mount ∈ specs,
        resolveUserOverlay host spec cwd request.containerHome = .ok mount) ∧
      ∀ mount ∈ request.contextOverlays, mount ∈ specs := by
  obtain ⟨afterDirectories, hdirectories, hmounts⟩ := bind_eq_ok.mp hmounts
  obtain ⟨afterSettings, hsettings, hmounts⟩ := bind_eq_ok.mp hmounts
  obtain ⟨afterSkills, hskills, hmounts⟩ := bind_eq_ok.mp hmounts
  obtain ⟨resolved, hresolved, hall⟩ := foldlM_resolve_eq hdirectories
  have hsettingsSpecs : ∃ settings : List OverlaySpec,
      afterSettings = settings.foldl (insertOrMerge host) afterDirectories := by
    unfold addAgentSettings at hsettings
    split at hsettings
    · exact addStaged_eq hsettings
    · cases hsettings
      exact ⟨[], rfl⟩
  have hskillSpecs : ∃ skills : List OverlaySpec,
      afterSkills = skills.foldl (insertOrMerge host) afterSettings := by
    unfold addSkills at hskills
    split at hskills
    · split at hskills
      · exact addStaged_eq hskills
      · cases hskills
        exact ⟨[], rfl⟩
    · cases hskills
      exact ⟨[], rfl⟩
  obtain ⟨settings, hsettings⟩ := hsettingsSpecs
  obtain ⟨skills, hskills⟩ := hskillSpecs
  cases hmounts
  refine ⟨resolved ++ settings ++ skills ++ request.contextOverlays, ?_, ?_, ?_⟩
  · rw [List.foldl_append, List.foldl_append, List.foldl_append, ← hresolved, ← hsettings,
      ← hskills]
    exact List.perm_insertionSort _ _
  · intro spec hspec
    obtain ⟨mount, hmount, hresolve⟩ := hall spec hspec
    exact ⟨mount, by simp [hmount], hresolve⟩
  · intro mount hmount
    simp [hmount]

/-- A merge keeps the path of the first overlay. -/
theorem OverlaySpec.merge_hostPath (existing spec : OverlaySpec) :
    (existing.merge spec).hostPath = existing.hostPath := by
  unfold OverlaySpec.merge
  split <;> rfl

/-- A merge is read-only as soon as one side is. -/
theorem OverlaySpec.merge_readOnly (existing spec : OverlaySpec)
    (hside : existing.permission = .readOnly ∨ spec.permission = .readOnly) :
    (existing.merge spec).permission = .readOnly := by
  unfold OverlaySpec.merge
  split
  case isTrue => rfl
  case isFalse hnarrowed =>
    cases hpermission : existing.permission with
    | readOnly => rfl
    | readWrite =>
      rw [hpermission] at hside
      have hspec : spec.permission = .readOnly := hside.resolve_left (by simp)
      exact absurd ⟨hspec, hpermission⟩ hnarrowed

/-- A mount is kept under its own key. -/
theorem mountKey_of_lookup {specs : List OverlaySpec} {key : List Char}
    (hlookup : (specs.foldl (insertOrMerge host) ∅).lookup key = some mount) :
    mountKey host mount = key := by
  have hmerge : ∀ first second : OverlaySpec,
      mountKey host (first.merge second) = mountKey host first := by
    intro first second
    rw [mountKey, OverlaySpec.merge_hostPath, mountKey]
  exact NameMap.keyOf_eq_of_lookup_foldl hmerge hlookup

section merged

variable {specs mounts : List OverlaySpec}
  (hmounts : mounts.Perm ((specs.foldl (insertOrMerge host) ∅).entries.map (·.2)))

include hmounts

/-- No two mounts have the same key. -/
theorem nodup_mountKeys : (mounts.map (mountKey host)).Nodup := by
  have hkeys : ((specs.foldl (insertOrMerge host) ∅).entries.map (·.2)).map (mountKey host) =
      (specs.foldl (insertOrMerge host) ∅).entries.keys := by
    rw [List.map_map, List.keys]
    refine List.map_congr_left fun entry hentry => ?_
    exact mountKey_of_lookup (AList.mem_lookup_iff.mpr hentry)
  rw [(hmounts.map _).nodup_iff, hkeys]
  exact AList.nodupKeys _

/-- A directory is mounted at most once. -/
theorem mounted_at_most_once (directory : HostPath) :
    (mounts.filter fun mount => host.canonicalize mount.hostPath = some directory).length ≤ 1 := by
  set found := mounts.filter fun mount => host.canonicalize mount.hostPath = some directory
  have hnodup : (found.map (mountKey host)).Nodup :=
    (List.filter_sublist.map _).nodup (nodup_mountKeys hmounts)
  have hsame : ∀ key ∈ found.map (mountKey host), key = Utf8Text.fromUtf8Lossy directory := by
    intro key hkey
    obtain ⟨mount, hmount, hmountKey⟩ := List.mem_map.mp hkey
    have hcanonical : host.canonicalize mount.hostPath = some directory := by
      simpa using List.of_mem_filter hmount
    rw [← hmountKey, mountKey, Host.conflictKey, hcanonical, Option.getD_some]
  rw [List.eq_replicate_of_mem hsame, List.nodup_replicate, List.length_map] at hnodup
  exact hnodup

/-- The place of an overlay is mounted. -/
theorem exists_mount_of_mem {spec : OverlaySpec} (hspec : spec ∈ specs) :
    ∃ mount ∈ mounts, mountKey host mount = mountKey host spec := by
  have hentry : ∃ mount, (specs.foldl (insertOrMerge host) ∅).lookup (mountKey host spec) =
      some mount := by
    exact NameMap.exists_lookup_foldl_mergeInto hspec
  obtain ⟨mount, hmount⟩ := hentry
  have hmem : mount ∈ mounts := hmounts.mem_iff.mpr (NameMap.mem_values_iff.mpr ⟨_, hmount⟩)
  exact ⟨mount, hmem, mountKey_of_lookup hmount⟩

/-- The place of a read-only overlay is mounted read-only. -/
theorem readOnly_of_mem {spec : OverlaySpec} (hspec : spec ∈ specs)
    (hreadOnly : spec.permission = .readOnly) (hmount : mount ∈ mounts)
    (hkey : mountKey host mount = mountKey host spec) : mount.permission = .readOnly := by
  obtain ⟨key, hlookup⟩ := NameMap.mem_values_iff.mp (hmounts.mem_iff.mp hmount)
  have hspecKey : mountKey host spec = key := hkey.symm.trans (mountKey_of_lookup hlookup)
  rw [insertOrMerge, NameMap.lookup_foldl_mergeInto] at hlookup
  have hmem : spec ∈ specs.filter (mountKey host · = key) := by
    simpa [hspec] using hspecKey
  exact NameMap.foldl_mergeValue_of_mem (fun mount => mount.permission = .readOnly)
    OverlaySpec.merge_readOnly hmem hreadOnly hlookup

end merged

/-! ## A whole launch -/

variable {launch : Launch}

/-- The directory a directory overlay names. -/
def Launch.namedDirectory (launch : Launch) (spec : DirectorySpec) : Option HostPath :=
  launch.host.canonicalize (ofComponents (Host.normalizeLexically
    (launch.host.makeAbsoluteWithCwd spec.host launch.cwd)))

/-- A source names the directory read-only in a directory overlay. -/
def Launch.DirectoryReadOnly (launch : Launch) (sources : OverlaySources) (directory : HostPath) :
    Prop :=
  ∃ spec, TypedOverlay.directory spec ∈ sources.overlays launch.host ∧
    spec.permission = .readOnly ∧ launch.namedDirectory spec = some directory

/-- A source names the scope read-only. -/
def Launch.ScopeReadOnly (launch : Launch) (sources : OverlaySources) (scope : ContextScope) :
    Prop :=
  TypedOverlay.context ⟨scope, .readOnly⟩ ∈ sources.overlays launch.host

/-- The first source that names the scope names it read-only. -/
def Launch.ScopeFirstReadOnly (launch : Launch) (sources : OverlaySources) (scope : ContextScope) :
    Prop :=
  ((sources.overlays launch.host).filterMap TypedOverlay.contextSpec).find? (·.scope = scope) =
    some ⟨scope, .readOnly⟩

/-- The directory of a scope. -/
def Launch.IsContextDir (launch : Launch) (scope : ContextScope) (directory : HostPath) : Prop :=
  ∃ dirs, launch.contextDirs = .ok dirs ∧ launch.host.LeadsTo (dirs scope) directory

/-- The mounts of a launch merge specs in which all its directory overlays and, unless their
directory cannot be created, its context overlays are found. -/
theorem Launch.mounts_eq {mounts : List OverlaySpec} (hmounts : launch.mounts sources = .ok mounts) :
    ∃ specs : List OverlaySpec,
      mounts.Perm ((specs.foldl (insertOrMerge launch.host) ∅).entries.map (·.2)) ∧
      (∀ spec, TypedOverlay.directory spec ∈ sources.overlays launch.host →
        ∃ mount ∈ specs, mount.permission = spec.permission ∧ mount.hostPath =
          launch.host.canonicalizeLossy
            (launch.host.makeAbsoluteWithCwd spec.host launch.cwd)) ∧
      ∀ dirs spec, launch.contextDirs = .ok dirs → launch.host.createDirAll (dirs spec.scope) →
        ((sources.overlays launch.host).filterMap TypedOverlay.contextSpec).find?
          (·.scope = spec.scope) = some spec →
        ∃ mount ∈ specs, mount.permission = spec.permission ∧ mount.hostPath = dirs spec.scope := by
  obtain ⟨collected, hcollected, hmounts⟩ := bind_eq_ok.mp hmounts
  obtain ⟨contexts, hcontexts, hbuilt⟩ := bind_eq_ok.mp hmounts
  have hcollected := collectedOverlays_eq (mapError_eq_ok.mp hcollected)
  obtain ⟨specs, hperm, hdirectories, hall⟩ := buildOverlays_eq hbuilt
  refine ⟨specs, hperm, ?_, ?_⟩
  · intro spec hspec
    have hmem : spec ∈ collected.directories := by
      rw [hcollected, foldl_processTyped_directories]
      simpa [TypedOverlay.directorySpec] using ⟨_, hspec, rfl⟩
    obtain ⟨mount, hmount, hresolved⟩ := hdirectories spec hmem
    have hfields := resolveUserOverlay_eq hresolved
    exact ⟨mount, hmount, hfields.2, hfields.1⟩
  · intro dirs spec hdirs hcreated hfirst
    have hmem : spec ∈ collected.contextOverlays := by
      have hfound := foldl_processTyped_contexts spec.scope (sources.overlays launch.host) {}
      rw [← hcollected, List.nil_append, hfirst] at hfound
      exact List.mem_of_find?_eq_some hfound
    rw [hdirs] at hcontexts
    have hmount := mem_resolveContextOverlays hcontexts hmem hcreated
    exact ⟨_, hall _ hmount, rfl, rfl⟩

/-- Every directory is mounted at most once.  It is mounted read-only if some source names it
read-only in a directory overlay, and if the first source that names its context scope does. -/
theorem Launch.mounts_keep_readOnly {mounts : List OverlaySpec}
    (hmounts : launch.mounts sources = .ok mounts) :
    (∀ directory, (mounts.filter fun mount =>
      launch.host.canonicalize mount.hostPath = some directory).length ≤ 1) ∧
    ∀ directory, launch.DirectoryReadOnly sources directory ∨
        (∃ scope, launch.IsContextDir scope directory ∧ launch.ScopeFirstReadOnly sources scope) →
      (∃ mount ∈ mounts, launch.host.conflictKey mount.hostPath =
        launch.host.conflictKey directory ∧ mount.permission = .readOnly) ∧
      ∀ mount ∈ mounts, launch.host.canonicalize mount.hostPath = some directory →
        mount.permission = .readOnly := by
  obtain ⟨specs, hperm, hdirectories, hcontexts⟩ := Launch.mounts_eq hmounts
  constructor
  · exact mounted_at_most_once hperm
  · intro directory hnamed
    -- Either kind of source contributes a read-only spec that leads to the directory.
    have hspec : ∃ spec ∈ specs, spec.permission = .readOnly ∧
        launch.host.canonicalize spec.hostPath = some directory := by
      rcases hnamed with ⟨named, hmem, hreadOnly, hdirectory⟩ | ⟨scope, hscope, hfirst⟩
      · obtain ⟨spec, hspec, hpermission, hpath⟩ := hdirectories named hmem
        rw [hreadOnly] at hpermission
        refine ⟨spec, hspec, hpermission, ?_⟩
        rw [hpath]
        exact Host.canonicalize_canonicalizeLossy hdirectory
      · obtain ⟨dirs, hdirs, hleads⟩ := hscope
        have hcreated := launch.host.createDirAll_of_isDir _ hleads.2
        obtain ⟨spec, hspec, hpermission, hpath⟩ :=
          hcontexts dirs ⟨scope, .readOnly⟩ hdirs hcreated hfirst
        refine ⟨spec, hspec, hpermission, ?_⟩
        rw [hpath]
        exact hleads.1
    obtain ⟨spec, hspec, hreadOnly, hleads⟩ := hspec
    have hkeyOf : ∀ path, launch.host.canonicalize path = some directory →
        launch.host.conflictKey path = mountKey launch.host spec := by
      intro path hpath
      rw [mountKey, Host.conflictKey, Host.conflictKey, hpath, hleads]
      rfl
    constructor
    · obtain ⟨mount, hmount, hkey⟩ := exists_mount_of_mem hperm hspec
      have hcanonical := launch.host.canonicalize_canonical _ _ hleads
      refine ⟨mount, hmount, ?_, readOnly_of_mem hperm hspec hreadOnly hmount hkey⟩
      rw [hkeyOf directory hcanonical]
      exact hkey
    · intro mount hmount hpath
      exact readOnly_of_mem hperm hspec hreadOnly hmount (hkeyOf mount.hostPath hpath)

/-! ## Examples -/

/-- A computer with the directories `/d` and `/g`; `/l` is a symbolic link to `/d`. -/
def smallHost : Host where
  homeDir := none
  canonicalize := fun path =>
    if path = textBytes ['/', 'd'] ∨ path = textBytes ['/', 'l'] then some (textBytes ['/', 'd'])
    else if path = textBytes ['/', 'g'] then some path else none
  pathExists := fun path => path = textBytes ['/', 'd'] ∨ path = textBytes ['/', 'g']
  isDir := fun path => path = textBytes ['/', 'd'] ∨ path = textBytes ['/', 'g']
  createDirAll := fun _ => true
  debug := shown
  canonicalize_canonical := by
    intro path canonical hpath
    split_ifs at hpath with hlink hplace
    · cases hpath
      decide
    · cases hpath
      rw [if_neg hlink, if_pos hplace]
  createDirAll_of_isDir := fun _ _ => rfl

/-- A launch on that computer, with the context directory `/g` for every scope. -/
def smallLaunch : Launch where
  host := smallHost
  staging := ⟨fun _ => .ok [], fun _ _ _ => .ok []⟩
  cwd := textBytes ['/']
  contextDirs := .ok fun _ => textBytes ['/', 'g']
  agent := none
  containerHome := none

/-- The global config mounts `/l` read-only and the command line mounts `d` for writing. -/
def twoSpellings : OverlaySources :=
  ⟨some [['/', 'l', ':', '/', 'a', ':', 'r', 'o']], none, none,
    [.directory ⟨['d'], ['/', 'b'], .readWrite⟩], none, none⟩

theorem twoSpellings_mounts : smallLaunch.mounts twoSpellings =
    .ok [⟨textBytes ['/', 'd'], ['/', 'a'], .readOnly⟩] := by
  rfl

theorem twoSpellings_keep_readOnly :
    smallLaunch.DirectoryReadOnly twoSpellings (textBytes ['/', 'd']) ∧
    ∃ mount ∈ [(⟨textBytes ['/', 'd'], ['/', 'a'], .readOnly⟩ : OverlaySpec)],
      smallHost.conflictKey mount.hostPath = smallHost.conflictKey (textBytes ['/', 'd']) ∧
        mount.permission = .readOnly := by
  have hnamed : smallLaunch.DirectoryReadOnly twoSpellings (textBytes ['/', 'd']) := by
    refine ⟨⟨['/', 'l'], ['/', 'a'], .readOnly⟩, ?_, rfl, rfl⟩
    have hoverlays : twoSpellings.overlays smallHost =
        [.directory ⟨['/', 'l'], ['/', 'a'], .readOnly⟩,
          .directory ⟨['d'], ['/', 'b'], .readWrite⟩] := rfl
    rw [show smallLaunch.host = smallHost from rfl, hoverlays]
    exact List.mem_cons_self
  exact ⟨hnamed, ((Launch.mounts_keep_readOnly twoSpellings_mounts).2 _ (.inl hnamed)).1⟩

/-- The global config names a scope without a permission and the command line names it
read-only. -/
def scopeTwice : OverlaySources :=
  ⟨some [['c', 'o', 'n', 't', 'e', 'x', 't', '(', 'g', 'l', 'o', 'b', 'a', 'l', ')']], none, none,
    [.context ⟨.global, .readOnly⟩], none, none⟩

/-- A scope one of the sources names read-only can be mounted for writing. -/
theorem scope_readOnly_lost :
    ¬ ∀ (launch : Launch) (sources : OverlaySources) (mounts : List OverlaySpec),
      launch.mounts sources = .ok mounts → ∀ scope directory, launch.IsContextDir scope directory →
        launch.ScopeReadOnly sources scope → ∀ mount ∈ mounts,
          launch.host.canonicalize mount.hostPath = some directory →
            mount.permission = .readOnly := by
  intro hclaim
  have hmounts : smallLaunch.mounts scopeTwice =
      .ok [⟨textBytes ['/', 'g'], ContextScope.global.containerPath, .readWrite⟩] := rfl
  have hdir : smallLaunch.IsContextDir .global (textBytes ['/', 'g']) := ⟨_, rfl, rfl, rfl⟩
  have hscope : smallLaunch.ScopeReadOnly scopeTwice .global := by
    have hoverlays : scopeTwice.overlays smallHost =
        [.context ⟨.global, .readWrite⟩, .context ⟨.global, .readOnly⟩] := rfl
    rw [Launch.ScopeReadOnly, show smallLaunch.host = smallHost from rfl, hoverlays]
    simp
  have hreadOnly := hclaim smallLaunch scopeTwice _ hmounts .global _ hdir hscope _
    List.mem_cons_self rfl
  cases hreadOnly

end Awman.Overlay
