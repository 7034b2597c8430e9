import Awman.EnvState

/-!
# When the payload environment is coherent

Coverage refreshes, pushes and loads leave the overlay and the required map in step if each of them
acts on what is still so: a refresh on coverage that no push has changed since, a push on names
that are still required, a load on names that nothing is required for yet.
-/

namespace Awman.Squad

open Interleaving

/-! ## What is under way -/

/-- The call will put a value for the name into the overlay. -/
def Position.lands (name : String) : Position → Prop
  | .landing values _ => name ∈ values
  | _ => False

/-- The call will collect the name from the overlay. -/
def Position.drops (name : String) : Position → Prop
  | .retaining wanted => name ∉ wanted
  | _ => False

/-- The call will record where the value of the name came from. -/
def Position.notes (name : String) : Position → Prop
  | .noting merged _ => name ∈ merged
  | _ => False

/-- The call will change the overlay or the sources by name. -/
def Position.concernsNames : Position → Bool
  | .landing .. => true
  | .retaining .. => true
  | .noting .. => true
  | _ => false

theorem Position.concerns_nothing {position : Position} (h : position.concernsNames = false)
    (name : String) : ¬position.lands name ∧ ¬position.drops name ∧ ¬position.notes name := by
  cases position <;> simp_all [concernsNames, lands, drops, notes]

open Position

/-- What a step of a call does to the required set, the overlay and the sources. -/
inductive CoverageStep (state : DaemonEnvState) : Position → Position → DaemonEnvState → Prop where
  /-- Nothing: the step is about the store, the answer or the next call. -/
  | elsewhere {old position : Position} {after : DaemonEnvState}
      (hfrom : old.concernsNames = false) (hto : position.concernsNames = false)
      (hentries : after.entries = state.entries) (hsources : after.sources = state.sources)
      (hoverlay : after.overlay = state.overlay) (hlog : after.log = state.log) :
      CoverageStep state old position after
  | refreshed (wanted : NameMap String (OrderedSet String)) (now : Time) (overlay : DaemonEnvMap) :
      CoverageStep state (.refreshing wanted now overlay) (.retaining wanted)
        (state.refresh wanted now overlay)
  | retained {wanted : NameMap String (OrderedSet String)} {position : Position}
      {after : DaemonEnvState} (hto : position.concernsNames = false)
      (hentries : after.entries = state.entries) (hsources : after.sources = state.sources)
      (hlog : after.log = state.log)
      (hoverlay : ∀ name, after.overlay.lookup name =
        if name ∈ wanted then state.overlay.lookup name else none) :
      CoverageStep state (.retaining wanted) position after
  | accepted (vars : DaemonEnvMap) (absent : List String) (now : Time) (answer : Answer) :
      CoverageStep state (.applyPush vars absent now) (.landing (state.provided vars) answer)
        (state.accept (state.provided vars) now)
  | landed (values overlay : DaemonEnvMap) (answer : Answer) :
      CoverageStep state (.landing values answer) (.persisting overlay answer)
        { state with
          overlay := values ∪ state.overlay
          log := .landed values :: state.log }
  | merged (loaded : DaemonEnvMap) :
      CoverageStep state (.merging loaded) (.noting (state.fresh loaded) loaded)
        { state with overlay := state.overlay ∪ state.fresh loaded }
  | noted (merged loaded : DaemonEnvMap) (answer : Answer) :
      CoverageStep state (.noting merged loaded) (.finished answer)
        { state with
          sources := (merged.mapEntries fun _ _ => EnvSource.keychain) ∪ state.sources }

theorem DaemonEnvState.degrade_coverage (state : DaemonEnvState) :
    state.degrade.entries = state.entries ∧ state.degrade.sources = state.sources ∧
      state.degrade.overlay = state.overlay ∧ state.degrade.log = state.log := by
  unfold degrade
  split <;> exact ⟨rfl, rfl, rfl, rfl⟩

/-- Every step of a call is one of these. -/
theorem DaemonEnvState.step_coverage {state after : DaemonEnvState} {old position : Position}
    {choice : Choice} (h : DaemonEnvState.step old choice state = some (position, after)) :
    CoverageStep state old position after := by
  obtain ⟨hentries, hsources, hoverlay, hlog⟩ := state.degrade_coverage
  cases old with
  | setRequired required now =>
    cases choice <;> simp only [step, Option.some.injEq, Prod.mk.injEq, reduceCtorEq] at h
    obtain ⟨rfl, rfl⟩ := h
    exact .elsewhere rfl rfl rfl rfl rfl rfl
  | refreshing wanted now overlay =>
    cases choice <;> simp only [step, Option.some.injEq, Prod.mk.injEq, reduceCtorEq] at h
    obtain ⟨rfl, rfl⟩ := h
    exact .refreshed wanted now overlay
  | retaining wanted =>
    cases choice <;> simp only [step, reduceCtorEq] at h
    split at h
    · next hempty =>
      cases h
      refine .retained rfl rfl rfl rfl fun name => ?_
      split
      · rfl
      · next hnot =>
        have hdropped := NameMap.isEmpty_iff.mp hempty name
        rw [NameMap.lookup_retain, Option.filter_eq_none_iff] at hdropped
        cases hvalue : state.overlay.lookup name with
        | none => rfl
        | some value => exact absurd (decide_eq_true hnot) (hdropped value hvalue)
    · cases h
      refine .retained rfl rfl rfl rfl fun name => ?_
      rw [NameMap.lookup_retain]
      cases state.overlay.lookup name <;> split <;> simp [Option.filter, *]
  | applyPush vars absent now =>
    cases choice <;> simp only [step, reduceCtorEq] at h
    split at h
    · cases h
      exact .elsewhere rfl rfl rfl rfl rfl rfl
    · cases h
      exact .accepted vars absent now _
  | landing values answer =>
    cases choice <;> simp only [step, Option.some.injEq, Prod.mk.injEq, reduceCtorEq] at h
    obtain ⟨rfl, rfl⟩ := h
    exact .landed values _ answer
  | loadFromStore probed =>
    cases probed <;> cases choice <;> simp only [step, reduceCtorEq] at h
    · split at h <;> cases h <;> exact .elsewhere rfl rfl rfl rfl rfl rfl
    · split at h
      · cases h
        exact .elsewhere rfl rfl rfl rfl rfl rfl
      · split at h <;> cases h <;> exact .elsewhere rfl rfl rfl rfl rfl rfl
  | loading store =>
    cases store <;> cases choice <;>
      simp only [step, Option.some.injEq, Prod.mk.injEq, reduceCtorEq] at h
    · split at h <;> cases h <;> exact .elsewhere rfl rfl rfl rfl rfl rfl
    · obtain ⟨rfl, rfl⟩ := h
      exact .elsewhere rfl rfl rfl rfl rfl rfl
    · obtain ⟨rfl, rfl⟩ := h
      exact .elsewhere rfl rfl rfl rfl rfl rfl
    · split at h <;> cases h <;> exact .elsewhere rfl rfl rfl rfl rfl rfl
    · obtain ⟨rfl, rfl⟩ := h
      exact .elsewhere rfl rfl rfl rfl rfl rfl
    · obtain ⟨rfl, rfl⟩ := h
      exact .elsewhere rfl rfl rfl rfl rfl rfl
  | merging loaded =>
    cases choice <;> simp only [step, reduceCtorEq] at h
    split at h <;> simp only [Option.some.injEq, Prod.mk.injEq] at h
    · obtain ⟨rfl, rfl⟩ := h
      exact .elsewhere rfl rfl rfl rfl rfl rfl
    · obtain ⟨rfl, rfl⟩ := h
      exact .merged loaded
  | noting merged loaded =>
    cases choice <;> simp only [step, Option.some.injEq, Prod.mk.injEq, reduceCtorEq] at h
    obtain ⟨rfl, rfl⟩ := h
    exact .noted merged loaded _
  | persisting overlay answer =>
    cases choice <;> simp only [step, reduceCtorEq] at h
    split at h <;> cases h <;> exact .elsewhere rfl rfl rfl rfl rfl rfl
  | storing | written | detached =>
    cases choice <;> simp only [step, Option.some.injEq, Prod.mk.injEq, reduceCtorEq] at h <;>
      obtain ⟨rfl, rfl⟩ := h <;> exact .elsewhere rfl rfl rfl rfl rfl rfl
  | degrading running answer =>
    cases running <;> cases choice <;>
      simp only [step, Option.some.injEq, Prod.mk.injEq, reduceCtorEq] at h <;>
      obtain ⟨rfl, rfl⟩ := h
    · exact .elsewhere rfl rfl hentries hsources hoverlay hlog
    · exact .elsewhere rfl rfl hentries hsources hoverlay hlog
    · exact .elsewhere rfl rfl rfl rfl rfl rfl
    · exact .elsewhere rfl rfl rfl rfl rfl rfl
  | finished answer => cases choice <;> simp [step] at h

/-- The required set of the latest refresh. -/
def lastRequired : List Note → Option (NameMap String (OrderedSet String))
  | [] => none
  | .required wanted :: _ => some wanted
  | _ :: earlier => lastRequired earlier

/-- Whether a value was accepted for the name and every later refresh required it. -/
def acceptedSince (name : String) : List Note → Prop
  | [] => False
  | .required wanted :: earlier => name ∈ wanted ∧ acceptedSince name earlier
  | .accepted values :: earlier => name ∈ values ∨ acceptedSince name earlier
  | .landed _ :: earlier => acceptedSince name earlier

/-- The value that reached the overlay last for a name. -/
def lastLanded (name : String) : List Note → Option String
  | [] => none
  | .landed values :: earlier => (values.lookup name).or (lastLanded name earlier)
  | _ :: earlier => lastLanded name earlier

/-- The overlay and what is reported about it agree. -/
structure Coherent (coverageDigest : String → String → String) (state : DaemonEnvState) : Prop where
  /-- Every value held is for a name of the last required set. -/
  required : ∀ wanted, lastRequired state.log = some wanted →
    ∀ name, name ∈ state.overlay → name ∈ wanted
  /-- A required name has no unmet clock exactly when a usable value is held. -/
  unmet : ∀ entry ∈ state.requiredEntries coverageDigest,
    entry.unmetSince = none ↔ isSetAndNonEmpty state.overlay entry.name = true
  /-- A required name has a source exactly when a value is held. -/
  source : ∀ entry ∈ state.requiredEntries coverageDigest,
    entry.source.isSome = true ↔ entry.name ∈ state.overlay
  /-- For a name that stayed required since a push was accepted, the value that landed last is
  held. -/
  accepted : ∀ name, acceptedSince name state.log →
    ∃ value, lastLanded name state.log = some value ∧ state.overlay.lookup name = some value

/-- A step acts on what is still so.  A refresh has read the coverage the overlay has or is about to
have; the values of a push are for names that are required, or that a refresh under way collects;
a load merges before the first refresh, or for names a push is about to provide or a refresh is
about to collect. -/
def ActsOnTheCurrent (config : Config DaemonEnvState Position) : Event Choice Position → Prop
  | .start _ _ => True
  | .step id _ =>
    match config.calls id with
    | some (.refreshing wanted _ overlay) => ∀ name ∈ wanted,
        (isSetAndNonEmpty overlay name = true ↔
          name ∈ config.shared.overlay ∨ config.Some (lands name)) ∧
        (config.Some (lands name) → name ∈ config.shared.entries) ∧
        (config.Some (drops name) → name ∈ config.shared.overlay →
          config.Some (lands name))
    | some (.landing values _) => ∀ name ∈ values,
        name ∈ config.shared.entries ↔ ¬config.Some (drops name)
    | some (.merging loaded) => lastRequired config.shared.log = none ∨
        ∀ name ∈ config.shared.fresh loaded,
          (name ∈ config.shared.entries ∧ config.Some (lands name)) ∨
          (name ∉ config.shared.entries ∧ config.Some (drops name))
    | _ => True

/-! ## The invariant -/

/-- What holds while calls are under way. -/
structure Coupled (config : Config DaemonEnvState Position) : Prop where
  /-- The entries are those of the last required set. -/
  entries : ∀ name, name ∈ config.shared.entries ↔
    ∃ wanted, lastRequired config.shared.log = some wanted ∧ name ∈ wanted
  usable : ∀ name value, config.shared.overlay.lookup name = some value → value ≠ ""
  landable : ∀ id values answer, config.calls id = some (.landing values answer) →
    ∀ name value, values.lookup name = some value → value ≠ ""
  collecting : ∀ name, config.Some (drops name) → lastRequired config.shared.log ≠ none
  held : ∀ name, name ∈ config.shared.overlay → lastRequired config.shared.log ≠ none →
    name ∈ config.shared.entries ∨ config.Some (drops name)
  /-- A required name is unmet unless a value is held or about to land. -/
  unmet : ∀ name entry, config.shared.entries.lookup name = some entry →
    (entry.unmetSince = none ↔ name ∈ config.shared.overlay ∨ config.Some (lands name))
  /-- A value that is held has a source, or is about to get one. -/
  sources : ∀ name, name ∈ config.shared.overlay →
    (name ∈ config.shared.entries ∨ lastRequired config.shared.log = none) →
    name ∈ config.shared.sources ∨ config.Some (notes name)
  landingSources : ∀ name, config.Some (lands name) → name ∈ config.shared.entries →
    name ∈ config.shared.sources
  /-- A value of a required name is collected only if another one lands. -/
  dropping : ∀ name, name ∈ config.shared.entries → config.Some (drops name) →
    name ∈ config.shared.overlay → config.Some (lands name)
  /-- A value accepted for a name that stayed required is about to land, or has. -/
  accepted : ∀ name, acceptedSince name config.shared.log → name ∈ config.shared.entries ∧
    (config.Some (lands name) ∨
      ∃ value, lastLanded name config.shared.log = some value ∧
        config.shared.overlay.lookup name = some value)

namespace Coupled

variable {config : Config DaemonEnvState Position} {id : Nat} {old position : Position}
  {shared : DaemonEnvState}

/-- Nothing has started yet. -/
theorem initial (store : Backend) (stored : Option DaemonEnvMap) :
    Coupled (Config.idle (.new store stored)) := by
  constructor
  case collecting => exact fun name hdrop => absurd hdrop Config.not_some_idle
  all_goals simp [Config.idle, DaemonEnvState.new, lastRequired, acceptedSince, Config.Some]

section

variable (h : Coupled config)
include h

theorem landable_move (hposition : ∀ values answer, position = .landing values answer →
      ∀ name value, values.lookup name = some value → value ≠ "") :
    ∀ other values answer, (config.move id position shared).calls other =
      some (.landing values answer) →
      ∀ name value, values.lookup name = some value → value ≠ "" := by
  intro other values answer hother
  by_cases hsame : other = id
  · rw [hsame, Config.move_self] at hother
    exact hposition values answer (Option.some.inj hother)
  · rw [Config.move_of_ne hsame] at hother
    exact h.landable other values answer hother

/-- A step that leaves the coverage and what is under way as they are. -/
theorem aside (hentries : shared.entries = config.shared.entries)
    (hsources : shared.sources = config.shared.sources)
    (hoverlay : shared.overlay = config.shared.overlay) (hlog : shared.log = config.shared.log)
    (hlands : ∀ name, (config.move id position shared).Some (lands name) ↔
      config.Some (lands name))
    (hdrops : ∀ name, (config.move id position shared).Some (drops name) ↔
      config.Some (drops name))
    (hnotes : ∀ name, (config.move id position shared).Some (notes name) ↔
      config.Some (notes name))
    (hposition : ∀ values answer, position ≠ .landing values answer) :
    Coupled (config.move id position shared) where
  entries := by simpa only [Config.move_shared, hentries, hlog] using h.entries
  usable := by simpa only [Config.move_shared, hoverlay] using h.usable
  landable := h.landable_move fun values answer heq => absurd heq (hposition values answer)
  collecting := by simpa only [Config.move_shared, hlog, hdrops] using h.collecting
  held := by simpa only [Config.move_shared, hentries, hoverlay, hlog, hdrops] using h.held
  unmet := by simpa only [Config.move_shared, hentries, hoverlay, hlands] using h.unmet
  sources := by
    simpa only [Config.move_shared, hentries, hoverlay, hsources, hlog, hnotes] using h.sources
  landingSources := by
    simpa only [Config.move_shared, hentries, hsources, hlands] using h.landingSources
  dropping := by
    simpa only [Config.move_shared, hentries, hoverlay, hlands, hdrops] using h.dropping
  accepted := by
    simpa only [Config.move_shared, hentries, hoverlay, hlog, hlands] using h.accepted

/-- Between two positions that concern no name nothing changes about what is under way. -/
theorem elsewhere (hold : config.calls id = some old) (hfrom : old.concernsNames = false)
    (hto : position.concernsNames = false) (hentries : shared.entries = config.shared.entries)
    (hsources : shared.sources = config.shared.sources)
    (hoverlay : shared.overlay = config.shared.overlay) (hlog : shared.log = config.shared.log) :
    Coupled (config.move id position shared) := by
  have hlanding := concerns_nothing hto
  have hbefore := concerns_nothing hfrom
  apply h.aside hentries hsources hoverlay hlog
  · intro name
    exact Config.some_move_iff hold (iff_of_false (hlanding name).1 (hbefore name).1)
  · intro name
    exact Config.some_move_iff hold (iff_of_false (hlanding name).2.1 (hbefore name).2.1)
  · intro name
    exact Config.some_move_iff hold (iff_of_false (hlanding name).2.2 (hbefore name).2.2)
  · rintro values answer rfl
    cases hto

/-- A call starts. -/
theorem started (hnew : config.calls id = none) (hto : position.concernsNames = false) :
    Coupled (config.move id position config.shared) := by
  have hlanding := concerns_nothing hto
  apply h.aside rfl rfl rfl rfl
  · intro name
    exact Config.some_start_iff hnew (hlanding name).1
  · intro name
    exact Config.some_start_iff hnew (hlanding name).2.1
  · intro name
    exact Config.some_start_iff hnew (hlanding name).2.2
  · rintro values answer rfl
    cases hto

/-- A refresh replaces the required set; what it does not want it collects next. -/
theorem refreshed {wanted : NameMap String (OrderedSet String)} {now : Time}
    {overlay : DaemonEnvMap} (hold : config.calls id = some (.refreshing wanted now overlay))
    (hcurrent : ∀ name ∈ wanted,
      (isSetAndNonEmpty overlay name = true ↔
        name ∈ config.shared.overlay ∨ config.Some (lands name)) ∧
      (config.Some (lands name) → name ∈ config.shared.entries) ∧
      (config.Some (drops name) → name ∈ config.shared.overlay →
        config.Some (lands name))) :
    Coupled (config.move id (.retaining wanted) (config.shared.refresh wanted now overlay)) := by
  have hlands (name : String) :
      (config.move id (.retaining wanted) (config.shared.refresh wanted now overlay)).Some
        (lands name) ↔ config.Some (lands name) :=
    Config.some_move_iff hold (by simp [lands])
  have hnotes (name : String) :
      (config.move id (.retaining wanted) (config.shared.refresh wanted now overlay)).Some
        (notes name) ↔ config.Some (notes name) :=
    Config.some_move_iff hold (by simp [notes])
  have hdrops (name : String) :
      (config.move id (.retaining wanted) (config.shared.refresh wanted now overlay)).Some
        (drops name) ↔ name ∉ wanted ∨ config.Some (drops name) :=
    Config.some_enter_iff hold (by simp [drops])
  have hentries (name : String) :
      name ∈ (config.shared.refresh wanted now overlay).entries ↔ name ∈ wanted :=
    NameMap.mem_mapEntries
  have hsources (name : String) (hwanted : name ∈ wanted) :
      name ∈ (config.shared.refresh wanted now overlay).sources ↔ name ∈ config.shared.sources := by
    simp [DaemonEnvState.refresh, NameMap.mem_iff_lookup, hwanted]
  constructor
  · intro name
    rw [Config.move_shared, hentries]
    simp [DaemonEnvState.refresh, lastRequired]
  · exact h.usable
  · exact h.landable_move (by simp)
  · intro name _
    simp [DaemonEnvState.refresh, lastRequired]
  · intro name _ _
    rw [Config.move_shared, hentries, hdrops]
    tauto
  · intro name entry hentry
    rw [Config.move_shared] at hentry ⊢
    rw [hlands]
    obtain ⟨requiredBy, hwanted, hrefreshed⟩ : ∃ requiredBy, wanted.lookup name = some requiredBy ∧
        DaemonEnvState.refreshedEntry overlay now name requiredBy
          (config.shared.entries.lookup name) = entry := by
      simpa [DaemonEnvState.refresh] using hentry
    rw [← hrefreshed, DaemonEnvState.refreshedEntry_unmetSince]
    exact (hcurrent name (NameMap.mem_iff_lookup.mpr ⟨requiredBy, hwanted⟩)).1
  · intro name hheld hwhy
    rw [Config.move_shared] at hheld hwhy ⊢
    rw [hnotes]
    have hwanted : name ∈ wanted := by
      rcases hwhy with hwanted | hnone
      · exact (hentries name).mp hwanted
      · simp [DaemonEnvState.refresh, lastRequired] at hnone
    rw [hsources name hwanted]
    apply h.sources name hheld
    by_cases hlast : lastRequired config.shared.log = none
    · exact Or.inr hlast
    · rcases h.held name hheld hlast with hentry | hdrop
      · exact Or.inl hentry
      · have hland := (hcurrent name hwanted).2.2 hdrop hheld
        exact Or.inl ((hcurrent name hwanted).2.1 hland)
  · intro name hland hentry
    rw [Config.move_shared] at hentry ⊢
    rw [hlands] at hland
    have hwanted := (hentries name).mp hentry
    rw [hsources name hwanted]
    exact h.landingSources name hland ((hcurrent name hwanted).2.1 hland)
  · intro name hentry hdrop hheld
    rw [Config.move_shared] at hentry hheld
    have hwanted := (hentries name).mp hentry
    rw [hdrops] at hdrop
    rw [hlands]
    exact (hcurrent name hwanted).2.2 (hdrop.resolve_left (not_not_intro hwanted)) hheld
  · intro name hsince
    rw [Config.move_shared] at hsince ⊢
    rw [hentries, hlands]
    exact ⟨hsince.1, (h.accepted name hsince.2).2⟩

/-- A refresh collects the values it does not want, or has nothing to collect. -/
theorem retained {wanted : NameMap String (OrderedSet String)}
    (hold : config.calls id = some (.retaining wanted)) (hto : position.concernsNames = false)
    (hentries : shared.entries = config.shared.entries)
    (hsources : shared.sources = config.shared.sources) (hlog : shared.log = config.shared.log)
    (hoverlay : ∀ name, shared.overlay.lookup name =
      if name ∈ wanted then config.shared.overlay.lookup name else none) :
    Coupled (config.move id position shared) := by
  have hplain := concerns_nothing hto
  have hlands (name : String) : (config.move id position shared).Some (lands name) ↔
      config.Some (lands name) :=
    Config.some_move_iff hold (iff_of_false (hplain name).1 (by simp [lands]))
  have hnotes (name : String) : (config.move id position shared).Some (notes name) ↔
      config.Some (notes name) :=
    Config.some_move_iff hold (iff_of_false (hplain name).2.2 (by simp [notes]))
  have hdropped (name : String) (h : (config.move id position shared).Some (drops name)) :
      config.Some (drops name) := (Config.Some.before' h).resolve_left (hplain name).2.1
  have hheld (name : String) : name ∈ shared.overlay ↔
      name ∈ wanted ∧ name ∈ config.shared.overlay := by
    have hafter : name ∈ shared.overlay ↔ _ := NameMap.mem_iff_lookup
    have hbefore : name ∈ config.shared.overlay ↔ _ := NameMap.mem_iff_lookup
    rw [hafter, hbefore, hoverlay]
    by_cases hwanted : name ∈ wanted <;> simp [hwanted]
  -- What this refresh was about to collect is gone.
  have hdrops (name : String) (hwanted : name ∈ wanted) (h : config.Some (drops name)) :
      (config.move id position shared).Some (drops name) :=
    h.stays hold fun hdrop => absurd hwanted hdrop
  have hcollected (name : String) (hnot : name ∉ wanted) : config.Some (drops name) :=
    ⟨id, .retaining wanted, hold, hnot⟩
  constructor
  · simpa only [Config.move_shared, hentries, hlog] using h.entries
  · intro name value hvalue
    rw [Config.move_shared, hoverlay] at hvalue
    split at hvalue
    · exact h.usable name value hvalue
    · cases hvalue
  · apply h.landable_move
    rintro values answer rfl
    cases hto
  · intro name hdrop
    rw [Config.move_shared, hlog]
    exact h.collecting name (hdropped name hdrop)
  · intro name hname hlast
    rw [Config.move_shared] at hname hlast ⊢
    rw [hheld] at hname
    rw [hlog] at hlast
    rw [hentries]
    exact (h.held name hname.2 hlast).imp_right (hdrops name hname.1)
  · intro name entry hentry
    rw [Config.move_shared] at hentry ⊢
    rw [hentries] at hentry
    rw [hlands, hheld, h.unmet name entry hentry]
    constructor
    · rintro (hname | hland)
      · by_cases hwanted : name ∈ wanted
        · exact Or.inl ⟨hwanted, hname⟩
        · have hrequired := NameMap.mem_iff_lookup.mpr ⟨entry, hentry⟩
          exact Or.inr (h.dropping name hrequired (hcollected name hwanted) hname)
      · exact Or.inr hland
    · exact Or.imp_left And.right
  · intro name hname hwhy
    rw [Config.move_shared] at hname hwhy ⊢
    rw [hheld] at hname
    rw [hentries, hlog] at hwhy
    rw [hsources, hnotes]
    exact h.sources name hname.2 hwhy
  · simpa only [Config.move_shared, hentries, hsources, hlands] using h.landingSources
  · intro name hentry hdrop hname
    rw [Config.move_shared] at hentry hname
    rw [hentries] at hentry
    rw [hheld] at hname
    rw [hlands]
    exact h.dropping name hentry (hdropped name hdrop) hname.2
  · intro name hsince
    rw [Config.move_shared] at hsince ⊢
    rw [hlog] at hsince ⊢
    rw [hentries, hlands]
    obtain ⟨hentry, hwhere⟩ := h.accepted name hsince
    refine ⟨hentry, ?_⟩
    rcases hwhere with hland | ⟨value, hlanded, hvalue⟩
    · exact Or.inl hland
    · by_cases hwanted : name ∈ wanted
      · refine Or.inr ⟨value, hlanded, ?_⟩
        rw [hoverlay, if_pos hwanted, hvalue]
      · have hname := NameMap.mem_iff_lookup.mpr ⟨value, hvalue⟩
        exact Or.inl (h.dropping name hentry (hcollected name hwanted) hname)

/-- A push is accepted; its values land next. -/
theorem acceptedPush {values : DaemonEnvMap} {now : Time} {answer : Answer}
    (hold : config.calls id = some old) (hfrom : old.concernsNames = false)
    (hrequired : ∀ name ∈ values, name ∈ config.shared.entries)
    (husable : ∀ name value, values.lookup name = some value → value ≠ "") :
    Coupled (config.move id (.landing values answer) (config.shared.accept values now)) := by
  have hplain := concerns_nothing hfrom
  have hnotes (name : String) : (config.move id (.landing values answer)
      (config.shared.accept values now)).Some (notes name) ↔
        config.Some (notes name) :=
    Config.some_move_iff hold (iff_of_false (by simp [notes]) (hplain name).2.2)
  have hdrops (name : String) : (config.move id (.landing values answer)
      (config.shared.accept values now)).Some (drops name) ↔
        config.Some (drops name) :=
    Config.some_move_iff hold (iff_of_false (by simp [drops]) (hplain name).2.1)
  have hlands (name : String) : (config.move id (.landing values answer)
      (config.shared.accept values now)).Some (lands name) ↔
        name ∈ values ∨ config.Some (lands name) :=
    Config.some_enter_iff hold fun hland => absurd hland (hplain name).1
  have hentries (name : String) : name ∈ (config.shared.accept values now).entries ↔
      name ∈ config.shared.entries := NameMap.mem_mapEntries
  have hsources (name : String) : name ∈ (config.shared.accept values now).sources ↔
      name ∈ values ∨ name ∈ config.shared.sources := by
    rw [DaemonEnvState.accept, AList.mem_union, NameMap.mem_mapEntries]
  constructor
  · intro name
    rw [Config.move_shared, hentries]
    exact h.entries name
  · exact h.usable
  · apply h.landable_move
    intro landing other heq
    cases heq
    exact husable
  · intro name hdrop
    rw [hdrops] at hdrop
    exact h.collecting name hdrop
  · intro name hname hlast
    rw [Config.move_shared, hentries, hdrops]
    exact h.held name hname hlast
  · intro name entry hentry
    obtain ⟨before, hbefore, hafter⟩ : ∃ before, config.shared.entries.lookup name = some before ∧
        (if name ∈ values then
          { before with lastProvidedAt := some now, unmetSince := none } else before) = entry := by
      simpa [DaemonEnvState.accept] using hentry
    rw [hlands, ← hafter]
    by_cases hvalue : name ∈ values
    · simp [hvalue]
    · rw [if_neg hvalue, h.unmet name before hbefore]
      simp [hvalue, DaemonEnvState.accept]
  · intro name hname hwhy
    rw [Config.move_shared] at hwhy ⊢
    rw [hentries] at hwhy
    rw [hsources, hnotes]
    exact (h.sources name hname hwhy).imp_left Or.inr
  · intro name hland hentry
    rw [Config.move_shared] at hentry ⊢
    rw [hlands] at hland
    rw [hentries] at hentry
    rw [hsources]
    exact hland.imp_right fun hbefore => h.landingSources name hbefore hentry
  · intro name hentry hdrop hname
    rw [Config.move_shared, hentries] at hentry
    rw [hdrops] at hdrop
    rw [hlands]
    exact Or.inr (h.dropping name hentry hdrop hname)
  · intro name hsince
    rw [Config.move_shared, hentries, hlands]
    rcases hsince with hvalue | hsince
    · exact ⟨hrequired name hvalue, Or.inl (Or.inl hvalue)⟩
    · obtain ⟨hentry, hwhere⟩ := h.accepted name hsince
      exact ⟨hentry, hwhere.imp_left Or.inr⟩

/-- The values of a push reach the overlay. -/
theorem landed {values overlay : DaemonEnvMap} {answer other : Answer}
    (hold : config.calls id = some (.landing values answer))
    (hcurrent : ∀ name ∈ values,
      name ∈ config.shared.entries ↔ ¬config.Some (drops name)) :
    Coupled (config.move id (.persisting overlay other)
      { config.shared with
        overlay := values ∪ config.shared.overlay
        log := .landed values :: config.shared.log }) := by
  set shared : DaemonEnvState := { config.shared with
    overlay := values ∪ config.shared.overlay
    log := .landed values :: config.shared.log } with hshared
  have hnotes (name : String) : (config.move id (.persisting overlay other) shared).Some
      (notes name) ↔ config.Some (notes name) :=
    Config.some_move_iff hold (by simp [notes])
  have hdrops (name : String) : (config.move id (.persisting overlay other) shared).Some
      (drops name) ↔ config.Some (drops name) :=
    Config.some_move_iff hold (by simp [drops])
  have hland (name : String) (hvalue : name ∈ values) : config.Some (lands name) :=
    ⟨id, .landing values answer, hold, hvalue⟩
  -- Other pushes may still have to land values for other names.
  have hlands (name : String) (hnot : name ∉ values) :
      (config.move id (.persisting overlay other) shared).Some (lands name) ↔
        config.Some (lands name) :=
    Config.some_move_iff hold (by simp [lands, hnot])
  have hlanded (name : String)
      (hlands : (config.move id (.persisting overlay other) shared).Some (lands name)) :
      config.Some (lands name) := (Config.Some.before' hlands).resolve_left (by simp [lands])
  have hheld (name : String) : name ∈ shared.overlay ↔ name ∈ values ∨ name ∈ config.shared.overlay :=
    AList.mem_union
  constructor
  · exact h.entries
  · intro name value hvalue
    rw [Config.move_shared, hshared, NameMap.lookup_union, Option.or_eq_some_iff] at hvalue
    rcases hvalue with hvalue | hvalue
    · exact h.landable id values answer hold name value hvalue
    · exact h.usable name value hvalue.2
  · exact h.landable_move (by simp)
  · intro name hdrop
    rw [hdrops] at hdrop
    exact h.collecting name hdrop
  · intro name hname hlast
    rw [Config.move_shared] at hname
    rw [hheld] at hname
    rw [hdrops]
    rcases hname with hvalue | hname
    · by_cases hdrop : config.Some (drops name)
      · exact Or.inr hdrop
      · exact Or.inl ((hcurrent name hvalue).mpr hdrop)
    · exact h.held name hname hlast
  · intro name entry hentry
    rw [h.unmet name entry hentry, Config.move_shared, hheld]
    by_cases hvalue : name ∈ values
    · exact iff_of_true (Or.inr (hland name hvalue)) (Or.inl (Or.inl hvalue))
    · rw [hlands name hvalue]
      simp [hvalue]
  · intro name hname hwhy
    rw [Config.move_shared, hheld] at hname
    rw [hnotes]
    by_cases hheldBefore : name ∈ config.shared.overlay
    · exact h.sources name hheldBefore hwhy
    · have hvalue := hname.resolve_right hheldBefore
      have hentry : name ∈ config.shared.entries := by
        rcases hwhy with hentry | hnone
        · exact hentry
        · rw [hcurrent name hvalue]
          exact fun hdrop => h.collecting name hdrop hnone
      exact Or.inl (h.landingSources name (hland name hvalue) hentry)
  · intro name hlands hentry
    exact h.landingSources name (hlanded name hlands) hentry
  · intro name hentry hdrop hname
    rw [Config.move_shared, hheld] at hname
    rw [hdrops] at hdrop
    have hvalue : name ∉ values := fun hvalue => (hcurrent name hvalue).mp hentry hdrop
    rw [hlands name hvalue]
    exact h.dropping name hentry hdrop (hname.resolve_left hvalue)
  · intro name hsince
    obtain ⟨hentry, hwhere⟩ := h.accepted name hsince
    refine ⟨hentry, ?_⟩
    by_cases hvalue : name ∈ values
    · obtain ⟨value, hvalue⟩ := NameMap.mem_iff_lookup.mp hvalue
      exact Or.inr ⟨value, by simp [hshared, lastLanded, hvalue], by simp [hshared, hvalue]⟩
    · have hnone := AList.lookup_eq_none.mpr hvalue
      rw [hlands name hvalue]
      refine hwhere.imp_right fun ⟨value, hlanded, hvalue⟩ => ⟨value, ?_, ?_⟩
      · simpa [hshared, lastLanded, hnone] using hlanded
      · simpa [hshared, hnone] using hvalue

/-- A load merges what it may into the overlay. -/
theorem merged {fresh loaded : DaemonEnvMap}
    (hold : config.calls id = some (.merging loaded))
    (husable : ∀ name value, fresh.lookup name = some value → value ≠ "")
    (hcurrent : lastRequired config.shared.log = none ∨ ∀ name ∈ fresh,
      (name ∈ config.shared.entries ∧ config.Some (lands name)) ∨
      (name ∉ config.shared.entries ∧ config.Some (drops name))) :
    Coupled (config.move id (.noting fresh loaded)
      { config.shared with overlay := config.shared.overlay ∪ fresh }) := by
  set shared : DaemonEnvState :=
    { config.shared with overlay := config.shared.overlay ∪ fresh } with hshared
  have hlands (name : String) : (config.move id (.noting fresh loaded) shared).Some
      (lands name) ↔ config.Some (lands name) :=
    Config.some_move_iff hold (by simp [lands])
  have hdrops (name : String) : (config.move id (.noting fresh loaded) shared).Some
      (drops name) ↔ config.Some (drops name) :=
    Config.some_move_iff hold (by simp [drops])
  have hnotes (name : String) : (config.move id (.noting fresh loaded) shared).Some
      (notes name) ↔ name ∈ fresh ∨ config.Some (notes name) :=
    Config.some_enter_iff hold (by simp [notes])
  have hheld (name : String) : name ∈ shared.overlay ↔ name ∈ config.shared.overlay ∨ name ∈ fresh :=
    AList.mem_union
  have hnothing (name : String) (hnone : lastRequired config.shared.log = none) :
      name ∉ config.shared.entries := by
    rw [h.entries]
    simp [hnone]
  constructor
  · exact h.entries
  · intro name value hvalue
    rw [Config.move_shared, hshared, NameMap.lookup_union, Option.or_eq_some_iff] at hvalue
    rcases hvalue with hvalue | hvalue
    · exact h.usable name value hvalue
    · exact husable name value hvalue.2
  · exact h.landable_move (by simp)
  · intro name hdrop
    rw [hdrops] at hdrop
    exact h.collecting name hdrop
  · intro name hname hlast
    rw [Config.move_shared, hheld] at hname
    rw [hdrops]
    rcases hname with hname | hfresh
    · exact h.held name hname hlast
    · exact ((hcurrent.resolve_left hlast) name hfresh).imp And.left And.right
  · intro name entry hentry
    have hrequired := NameMap.mem_iff_lookup.mpr ⟨entry, hentry⟩
    rw [h.unmet name entry hentry, Config.move_shared, hheld, hlands]
    constructor
    · exact Or.imp_left Or.inl
    · rintro ((hname | hfresh) | hland)
      · exact Or.inl hname
      · rcases hcurrent with hnone | hcurrent
        · exact absurd hrequired (hnothing name hnone)
        · exact Or.inr ((hcurrent name hfresh).resolve_right fun hnot => hnot.1 hrequired).2
      · exact Or.inr hland
  · intro name hname hwhy
    rw [Config.move_shared, hheld] at hname
    rw [hnotes]
    rcases hname with hname | hfresh
    · exact (h.sources name hname hwhy).imp_right Or.inr
    · exact Or.inr (Or.inl hfresh)
  · intro name hland hentry
    rw [hlands] at hland
    exact h.landingSources name hland hentry
  · intro name hentry hdrop hname
    rw [Config.move_shared, hheld] at hname
    rw [hdrops] at hdrop
    rw [hlands]
    rcases hname with hname | hfresh
    · exact h.dropping name hentry hdrop hname
    · rcases hcurrent with hnone | hcurrent
      · exact absurd hentry (hnothing name hnone)
      · exact ((hcurrent name hfresh).resolve_right fun hnot => hnot.1 hentry).2
  · intro name hsince
    rw [hlands]
    obtain ⟨hentry, hwhere⟩ := h.accepted name hsince
    refine ⟨hentry, hwhere.imp_right fun ⟨value, hlanded, hvalue⟩ => ⟨value, hlanded, ?_⟩⟩
    rw [Config.move_shared, hshared, NameMap.lookup_union, hvalue, Option.some_or]

/-- A load records where the merged values came from. -/
theorem noted {fresh loaded : DaemonEnvMap} {answer : Answer}
    (hold : config.calls id = some (.noting fresh loaded)) :
    Coupled (config.move id (.finished answer)
      { config.shared with
        sources := (fresh.mapEntries fun _ _ => EnvSource.keychain) ∪ config.shared.sources }) := by
  set shared : DaemonEnvState := { config.shared with
    sources := (fresh.mapEntries fun _ _ => EnvSource.keychain) ∪ config.shared.sources } with hshared
  have hlands (name : String) : (config.move id (.finished answer) shared).Some (lands name) ↔
      config.Some (lands name) := Config.some_move_iff hold (by simp [lands])
  have hdrops (name : String) : (config.move id (.finished answer) shared).Some (drops name) ↔
      config.Some (drops name) := Config.some_move_iff hold (by simp [drops])
  have hsources (name : String) :
      name ∈ shared.sources ↔ name ∈ fresh ∨ name ∈ config.shared.sources := by
    rw [hshared, AList.mem_union, NameMap.mem_mapEntries]
  constructor
  · exact h.entries
  · exact h.usable
  · exact h.landable_move (by simp)
  · simp only [hdrops]
    exact h.collecting
  · simp only [hdrops]
    exact h.held
  · simp only [hlands]
    exact h.unmet
  · intro name hname hwhy
    rw [Config.move_shared, hsources]
    rcases h.sources name hname hwhy with hsource | ⟨other, standing, hother, hnotes⟩
    · exact Or.inl (Or.inr hsource)
    · by_cases hsame : other = id
      · rw [hsame, hold] at hother
        cases hother
        exact Or.inl (Or.inl hnotes)
      · refine Or.inr ⟨other, standing, ?_, hnotes⟩
        rw [Config.move_of_ne hsame]
        exact hother
  · intro name hland hentry
    rw [hlands] at hland
    rw [Config.move_shared, hsources]
    exact Or.inr (h.landingSources name hland hentry)
  · simp only [hlands, hdrops]
    exact h.dropping
  · simp only [hlands]
    exact h.accepted

end

end Coupled

/-- Every step that acts on the current coverage keeps the invariant. -/
theorem coupled_preserved : envSystem.Preserves ActsOnTheCurrent Coupled where
  start := by
    intro config id position h hnew hstarts
    have hto : position.concernsNames = false := by
      cases position <;> simp_all [envSystem, Position.isCall, Position.concernsNames]
    exact h.started hnew hto
  step := by
    intro config id choice old position shared h hallowed hold hstep
    unfold ActsOnTheCurrent at hallowed
    simp only [hold] at hallowed
    cases DaemonEnvState.step_coverage hstep with
    | elsewhere hfrom hto hentries hsources hoverlay hlog =>
      exact h.elsewhere hold hfrom hto hentries hsources hoverlay hlog
    | refreshed wanted now overlay => exact h.refreshed hold hallowed
    | retained hto hentries hsources hlog hoverlay =>
      exact h.retained hold hto hentries hsources hlog hoverlay
    | accepted vars absent now answer =>
      exact h.acceptedPush hold rfl (fun name => DaemonEnvState.mem_provided)
        fun name value => DaemonEnvState.lookup_provided
    | landed values overlay answer => exact h.landed hold hallowed
    | merged loaded =>
      exact h.merged hold (fun name value hfresh => (DaemonEnvState.lookup_fresh hfresh).1) hallowed
    | noted merged loaded answer => exact h.noted hold

/-- Calls that act on the current coverage leave the environment coherent when they are over. -/
theorem envSystem_coherent (coverageDigest : String → String → String) (store : Backend)
    (stored : Option DaemonEnvMap) {events : List (Event Choice Position)}
    (hmeets : envSystem.Meets ActsOnTheCurrent (Config.idle (.new store stored)) events)
    (hover : (envSystem.run (Config.idle (.new store stored)) events).Every
      (·.isOver = true)) :
    Coherent coverageDigest (envSystem.run (Config.idle (.new store stored)) events).shared := by
  have hcoupled := coupled_preserved.run (Coupled.initial store stored) hmeets
  set config := envSystem.run (.idle (.new store stored)) events
  have hover : config.Every (·.isOver = true) := hover
  have hlands (name : String) : ¬config.Some (lands name) := by
    apply hover.not_some
    rintro (_ | _) <;> simp [Position.isOver, lands]
  have hdrops (name : String) : ¬config.Some (drops name) := by
    apply hover.not_some
    rintro (_ | _) <;> simp [Position.isOver, drops]
  have hnotes (name : String) : ¬config.Some (notes name) := by
    apply hover.not_some
    rintro (_ | _) <;> simp [Position.isOver, notes]
  have husable (name : String) : isSetAndNonEmpty config.shared.overlay name = true ↔
      name ∈ config.shared.overlay := by
    rw [NameMap.mem_iff_lookup, isSetAndNonEmpty, Option.any_eq_true]
    constructor
    · rintro ⟨value, hvalue, -⟩
      exact ⟨value, hvalue⟩
    · rintro ⟨value, hvalue⟩
      exact ⟨value, hvalue, decide_eq_true (hcoupled.usable name value hvalue)⟩
  constructor
  · intro wanted hlast name hname
    have hentry := (hcoupled.held name hname (by simp [hlast])).resolve_right (hdrops name)
    obtain ⟨last, hfound, hwanted⟩ := (hcoupled.entries name).mp hentry
    rw [hlast] at hfound
    exact Option.some.inj hfound ▸ hwanted
  · intro entry hentry
    obtain ⟨name, stored, hstored, rfl⟩ := DaemonEnvState.mem_requiredEntries hentry
    have hunmet := hcoupled.unmet name stored hstored
    rw [or_iff_left (hlands name)] at hunmet
    exact hunmet.trans (husable name).symm
  · intro entry hentry
    obtain ⟨name, stored, hstored, rfl⟩ := DaemonEnvState.mem_requiredEntries hentry
    have hrequired := NameMap.mem_iff_lookup.mpr ⟨stored, hstored⟩
    have hsource (hname : name ∈ config.shared.overlay) : name ∈ config.shared.sources :=
      (hcoupled.sources name hname (Or.inl hrequired)).resolve_right (hnotes name)
    show ((((config.shared.overlay.lookup name).filter (· ≠ "")).bind fun _ =>
      config.shared.sources.lookup name).isSome = true ↔ name ∈ config.shared.overlay)
    constructor
    · intro hsome
      obtain ⟨source, hreported⟩ := Option.isSome_iff_exists.mp hsome
      obtain ⟨value, hvalue, -⟩ := Option.bind_eq_some_iff.mp hreported
      exact NameMap.mem_iff_lookup.mpr ⟨value, (Option.filter_eq_some_iff.mp hvalue).1⟩
    · intro hname
      obtain ⟨value, hvalue⟩ := NameMap.mem_iff_lookup.mp hname
      obtain ⟨source, hfound⟩ := NameMap.mem_iff_lookup.mp (hsource hname)
      have hkept : (config.shared.overlay.lookup name).filter (· ≠ "") = some value :=
        Option.filter_eq_some_iff.mpr
          ⟨hvalue, decide_eq_true (hcoupled.usable name value hvalue)⟩
      rw [hkept, Option.bind_some, hfound]
      rfl
  · intro name hsince
    exact (hcoupled.accepted name hsince).2.resolve_left (hlands name)

/-! ## Runs -/

/-- A required set of one name. -/
def tokenRequired : NameMap String (List String) := AList.singleton "TOKEN" ["nightly"]

/-- A refresh that requires the name, then a push that provides it. -/
def refreshThenPush : List (Event Choice Position) :=
  [.start 0 (.setRequired tokenRequired 1), .step 0 .proceed, .step 0 .proceed, .step 0 .proceed,
    .start 1 (.applyPush (AList.singleton "TOKEN" "v1") [] 2), .step 1 .proceed, .step 1 .proceed,
    .step 1 .proceed]

theorem refreshThenPush_over :
    (envSystem.run (Config.idle (.new .noStore none)) refreshThenPush).Every (·.isOver = true) :=
  System.every_run_idle (by decide +kernel)

/-- The refresh reads an overlay that stays empty until it takes its lock, and the push lands what
is still required. -/
theorem refreshThenPush_current :
    envSystem.Meets ActsOnTheCurrent (Config.idle (.new .noStore none)) refreshThenPush := by
  refine ⟨trivial, trivial, ?refresh, trivial, trivial, trivial, ?landing, trivial, trivial⟩
  case refresh =>
    intro name hname
    have hplain : (envSystem.run (.idle (.new .noStore none)) (refreshThenPush.take 2)).Every
        fun position => (!position.concernsNames) = true := System.every_run_idle (by decide +kernel)
    have hlands : ¬(envSystem.run (.idle (.new .noStore none)) (refreshThenPush.take 2)).Some
        (lands name) := by
      apply hplain.not_some
      intro position hposition
      exact (concerns_nothing (by simpa using hposition) name).1
    have hdrops : ¬(envSystem.run (.idle (.new .noStore none)) (refreshThenPush.take 2)).Some
        (drops name) := by
      apply hplain.not_some
      intro position hposition
      exact (concerns_nothing (by simpa using hposition) name).2.1
    refine ⟨iff_of_false ?_ ?_, fun hland => absurd hland hlands, fun hdrop => absurd hdrop hdrops⟩
    · exact Bool.false_ne_true
    · rintro (hheld | hland)
      · exact absurd hheld (AList.notMem_empty name)
      · exact hlands hland
  case landing =>
    intro name hname
    have hplain : (envSystem.run (.idle (.new .noStore none)) (refreshThenPush.take 6)).Every
        fun position => (match position with
          | .retaining _ => false
          | _ => true) = true := System.every_run_idle (by decide +kernel)
    apply iff_of_true (NameMap.mem_mapEntries.mpr (DaemonEnvState.mem_provided hname))
    apply hplain.not_some
    rintro (_ | _) hposition <;> simp_all [drops]

/-- The two calls leave the environment coherent. -/
theorem envSystem_coherent_refreshThenPush :
    Coherent (fun _ _ => "9f86d081884c7d65")
      (envSystem.run (Config.idle (.new .noStore none)) refreshThenPush).shared :=
  envSystem_coherent _ .noStore none refreshThenPush_current refreshThenPush_over

/-- A refresh that reads the overlay before a push and takes its lock after it. -/
def pushDuringRefresh : List (Event Choice Position) :=
  [.start 0 (.setRequired tokenRequired 1), .step 0 .proceed, .step 0 .proceed, .step 0 .proceed,
    .start 1 (.setRequired tokenRequired 2), .step 1 .proceed,
    .start 2 (.applyPush (AList.singleton "TOKEN" "v1") [] 3), .step 2 .proceed, .step 2 .proceed,
    .step 2 .proceed, .step 1 .proceed, .step 1 .proceed]

/-- A name can be reported as unmet although its value is held: the refresh that read the overlay
before the push starts its unmet clock after it. -/
theorem pushDuringRefresh_unmet :
    (envSystem.run (Config.idle (.new .noStore none)) pushDuringRefresh).Every (·.isOver = true) ∧
    ¬Coherent (fun _ _ => "9f86d081884c7d65")
      (envSystem.run (Config.idle (.new .noStore none)) pushDuringRefresh).shared := by
  refine ⟨System.every_run_idle (by decide +kernel), fun hcoherent => ?_⟩
  have hentry : (⟨"TOKEN", OrderedSet.ofList ["nightly"], 1, some 3, some 2, some .pushed,
      some "9f86d081884c7d65"⟩ : RequiredEnvEntry) ∈
      (envSystem.run (.idle (.new .noStore none)) pushDuringRefresh).shared.requiredEntries
        (fun _ _ => "9f86d081884c7d65") := List.mem_singleton_self _
  have hunmet := hcoherent.unmet _ hentry
  have hheld : isSetAndNonEmpty (envSystem.run (.idle (.new .noStore none))
      pushDuringRefresh).shared.overlay "TOKEN" = true := by
    decide +kernel
  exact absurd (hunmet.mpr hheld) (by simp)

end Awman.Squad
