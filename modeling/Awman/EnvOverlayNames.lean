import Awman.OverlayAcceptance

/-!
# The variables that overlay specs name

A run parses the overlay specs of its task and passes the variables of the `env(...)` expressions.  The
daemon asks its clients for the values of these variables; it finds their names by looking only for specs
that are one such expression, spelled out.
-/

namespace Awman.Overlay

open Awman.Network (trim)
open Awman.TextCuts

/-- The variable of a spec that is `env(...)`, if its argument is one nonempty text without a comma. -/
def envOverlayName (spec : List Char) : Option (List Char) :=
  match (stripPrefix "env(".toList (trim spec)).bind (stripSuffix [')']) with
  | none => none
  | some inner =>
    let name := trim inner
    if name.isEmpty || name.contains ',' then none else some name

/-- Add the variable of a spec to those found before. -/
def addEnvOverlayName (names : List (List Char)) (spec : List Char) : List (List Char) :=
  match envOverlayName spec with
  | none => names
  | some name => if names.contains name then names else names ++ [name]

/-- Every variable that is named by a spec `env(...)`, once and in the order of the specs; specs of any
other shape are ignored. -/
def envOverlayNames (specs : List (List Char)) : List (List Char) := specs.foldl addEnvOverlayName []

/-- The variable of an overlay. -/
def TypedOverlay.envName? : TypedOverlay → Option (List Char)
  | .env name => some name
  | .directory _ | .skill _ | .context _ => none

/-- The variables a run passes for its specs. -/
def runEnvNames (host : Host) (specs : List (List Char)) : List (List Char) :=
  specs.flatMap fun spec =>
    match parseOverlayList host spec with
    | .ok overlays => overlays.filterMap TypedOverlay.envName?
    | .error _ => []

/-- An element of a list is an `env` expression with a variable: blanks may stand around the tag and the
variable, and any text behind the last parenthesis. -/
def EnvExpression (piece name : List Char) : Prop :=
  ∃ tag args dropped, piece = tag ++ '(' :: (args ++ ')' :: dropped) ∧ '(' ∉ tag ∧ ')' ∉ dropped ∧
    trim tag = "env".toList ∧ trim args = name

/-- A spec is one `env` expression, spelled out: no blank stands before the parenthesis, and nothing
behind the other one. -/
def SpelledOut (spec name : List Char) : Prop :=
  ∃ args, trim spec = "env(".toList ++ (args ++ [')']) ∧ trim args = name

variable {host : Host} {spec name : List Char} {specs : List (List Char)}

/-! ## The names that are looked for -/

theorem envOverlayName_eq_some :
    envOverlayName spec = some name ↔ SpelledOut spec name ∧ name ≠ [] ∧ ',' ∉ name := by
  have hcut : ∀ args, (stripPrefix "env(".toList (trim spec)).bind (stripSuffix [')']) = some args ↔
      trim spec = "env(".toList ++ (args ++ [')']) := by
    intro args
    simp only [Option.bind_eq_some_iff, stripPrefix_eq_some, stripSuffix_eq_some]
    constructor
    · rintro ⟨rest, hspec, rfl⟩
      exact hspec
    · intro hspec
      exact ⟨_, hspec, rfl⟩
  unfold envOverlayName SpelledOut
  simp only [← hcut]
  cases (stripPrefix "env(".toList (trim spec)).bind (stripSuffix [')']) with
  | none => simp
  | some inner =>
    simp only [Option.some.injEq, exists_eq_left']
    constructor
    · intro h
      split at h
      case isTrue => cases h
      case isFalse hname =>
          rw [← Option.some.inj h]
          simp only [Bool.or_eq_true, List.isEmpty_iff, List.contains_iff_mem, not_or] at hname
          exact ⟨rfl, hname⟩
    · rintro ⟨rfl, hempty, hcomma⟩
      rw [if_neg]
      simp only [Bool.or_eq_true, List.isEmpty_iff, List.contains_iff_mem, not_or]
      exact ⟨hempty, hcomma⟩

theorem mem_addEnvOverlayName {names : List (List Char)} :
    name ∈ addEnvOverlayName names spec ↔ name ∈ names ∨ envOverlayName spec = some name := by
  unfold addEnvOverlayName
  cases envOverlayName spec with
  | none => simp
  | some found =>
    dsimp only
    split
    case isTrue hmem =>
        rw [List.contains_iff_mem] at hmem
        constructor
        · exact Or.inl
        · rintro (hold | hnew)
          · exact hold
          · rw [← Option.some.inj hnew]
            exact hmem
    case isFalse =>
        rw [List.mem_append, List.mem_singleton, Option.some.injEq, eq_comm (a := name)]

theorem mem_envOverlayNames :
    name ∈ envOverlayNames specs ↔ ∃ spec ∈ specs, envOverlayName spec = some name := by
  have hfold : ∀ names, name ∈ specs.foldl addEnvOverlayName names ↔
      name ∈ names ∨ ∃ spec ∈ specs, envOverlayName spec = some name := by
    induction specs with
    | nil => simp
    | cons spec rest ih =>
      intro names
      rw [List.foldl_cons, ih, mem_addEnvOverlayName, or_assoc, List.exists_mem_cons_iff]
  unfold envOverlayNames
  rw [hfold]
  simp

/-! ## The names a run passes -/

theorem envName_of_readAs {piece : List Char} (h : ReadAs host piece (.env name)) :
    EnvExpression piece name ∧ EnvName name := by
  cases h with
  | tagged hopen hclose hargs =>
    generalize htag : trim _ = tag at hargs
    generalize hargsText : trim _ = args at hargs
    cases hargs with
    | env hname => exact ⟨⟨_, _, _, rfl, hopen, hclose, htag, hargsText⟩, hname⟩

/-- An `env` expression that is read at all is read as its variable. -/
theorem readAs_of_envExpression {piece : List Char} {overlay : TypedOverlay}
    (hpiece : EnvExpression piece name) (hread : ReadAs host piece overlay) : overlay = .env name := by
  obtain ⟨tag, args, dropped, rfl, hopen, hclose, htag, rfl⟩ := hpiece
  have hparse := parseSingleTypedOverlay_iff.mpr hread
  rw [parseSingleTypedOverlay_tagged hopen hclose, htag] at hparse
  have hargs := parseTagged_iff.mp hparse
  cases hargs with
  | env => rfl

theorem mem_runEnvNames :
    name ∈ runEnvNames host specs ↔
      ∃ spec ∈ specs, ∃ overlays, parseOverlayList host spec = .ok overlays ∧ .env name ∈ overlays := by
  have hname : ∀ overlay : TypedOverlay, overlay.envName? = some name ↔ overlay = .env name := by
    intro overlay
    cases overlay with
    | env | directory | skill | context => simp [TypedOverlay.envName?]
  unfold runEnvNames
  rw [List.mem_flatMap]
  refine exists_congr fun spec => and_congr_right fun _ => ?_
  cases parseOverlayList host spec with
  | error reason => simp
  | ok overlays =>
    simp only [List.mem_filterMap, hname, exists_eq_right, Except.ok.injEq, exists_eq_left']

/-- The variables of an accepted spec are those of its `env` expressions. -/
theorem env_mem_iff {overlays : List TypedOverlay} (hparse : parseOverlayList host spec = .ok overlays) :
    .env name ∈ overlays ↔ ∃ piece ∈ pieces spec, EnvExpression piece name := by
  have hread := parseOverlayList_eq_ok.mp hparse
  constructor
  · intro hmem
    obtain ⟨piece, hpiece, hoverlay⟩ := RelatedLists.exists_value hread _ hmem
    exact ⟨piece, hpiece, (envName_of_readAs hoverlay).1⟩
  · rintro ⟨piece, hpiece, henv⟩
    obtain ⟨overlay, hmem, hoverlay⟩ := RelatedLists.exists_result hread piece hpiece
    rw [readAs_of_envExpression henv hoverlay] at hmem
    exact hmem

/-! ## Both -/

/-- A spec that is one `env` expression is its only element. -/
theorem envExpression_of_spelledOut (hspelled : SpelledOut spec name) (hcomma : ',' ∉ name) :
    ∃ piece ∈ pieces spec, EnvExpression piece name := by
  obtain ⟨args, hspec, rfl⟩ := hspelled
  have hargs : ',' ∉ args := by
    rwa [mem_trim_iff (by decide)] at hcomma
  have htrim : ',' ∉ trim spec := by
    rw [hspec]
    simp [hargs]
  have hnone : ',' ∉ spec := by
    rwa [mem_trim_iff (by decide)] at htrim
  refine ⟨trim spec, ?_, "env".toList, args, [], ?_, by decide, by simp, by decide, rfl⟩
  · rw [pieces_bare hnone, hspec]
    simp
  · rw [hspec]
    rfl

/-- For specs that are accepted, the variables the daemon finds are among those a run passes. -/
theorem mem_runEnvNames_of_found
    (haccepted : ∀ spec ∈ specs, ∃ overlays, parseOverlayList host spec = .ok overlays)
    (hname : name ∈ envOverlayNames specs) : name ∈ runEnvNames host specs := by
  obtain ⟨spec, hspec, hfound⟩ := mem_envOverlayNames.mp hname
  obtain ⟨hspelled, -, hcomma⟩ := envOverlayName_eq_some.mp hfound
  obtain ⟨overlays, hparse⟩ := haccepted spec hspec
  refine mem_runEnvNames.mpr ⟨spec, hspec, overlays, hparse, ?_⟩
  exact (env_mem_iff hparse).mpr (envExpression_of_spelledOut hspelled hcomma)

/-- For specs that are accepted, the daemon finds exactly the variables a run passes when every variable
of an `env` expression is named by a spec that is this expression alone, spelled out. -/
theorem envOverlayNames_agree_iff (host : Host) (specs : List (List Char))
    (haccepted : ∀ spec ∈ specs, ∃ overlays, parseOverlayList host spec = .ok overlays) :
    (∀ name, name ∈ envOverlayNames specs ↔ name ∈ runEnvNames host specs) ↔
      ∀ spec ∈ specs, ∀ piece ∈ pieces spec, ∀ name, EnvExpression piece name →
        ∃ other ∈ specs, SpelledOut other name := by
  constructor
  · intro hsame spec hspec piece hpiece name henv
    obtain ⟨overlays, hparse⟩ := haccepted spec hspec
    have hmem := (env_mem_iff hparse).mpr ⟨piece, hpiece, henv⟩
    have hrun := mem_runEnvNames.mpr ⟨spec, hspec, overlays, hparse, hmem⟩
    obtain ⟨other, hother, hfound⟩ := mem_envOverlayNames.mp ((hsame name).mpr hrun)
    exact ⟨other, hother, (envOverlayName_eq_some.mp hfound).1⟩
  · intro hspelled name
    refine ⟨mem_runEnvNames_of_found haccepted, fun hrun => ?_⟩
    obtain ⟨spec, hspec, overlays, hparse, hmem⟩ := mem_runEnvNames.mp hrun
    obtain ⟨piece, hpiece, hread⟩ :=
      RelatedLists.exists_value (parseOverlayList_eq_ok.mp hparse) _ hmem
    obtain ⟨henv, hvalid⟩ := envName_of_readAs hread
    obtain ⟨other, hother, hform⟩ := hspelled spec hspec piece hpiece name henv
    refine mem_envOverlayNames.mpr ⟨other, hother, envOverlayName_eq_some.mpr ⟨hform, ?_, ?_⟩⟩
    · rintro rfl
      obtain ⟨first, hfirst, -⟩ := hvalid.1
      cases hfirst
    · intro hcomma
      exact absurd (hvalid.2 ',' hcomma) (by decide)

theorem envOverlayNames_agree_sample :
    envOverlayNames ["env(A)".toList, " env( B ) ".toList] = ["A".toList, "B".toList] ∧
      ∀ name, name ∈ envOverlayNames ["env(A)".toList, " env( B ) ".toList] ↔
        name ∈ runEnvNames bareHost ["env(A)".toList, " env( B ) ".toList] := by
  have haccepted : ∀ spec ∈ ["env(A)".toList, " env( B ) ".toList],
      ∃ overlays, parseOverlayList bareHost spec = .ok overlays := by
    intro spec hspec
    simp only [List.mem_cons, List.not_mem_nil, or_false] at hspec
    rcases hspec with rfl | rfl
    · exact ⟨[.env "A".toList], rfl⟩
    · exact ⟨[.env "B".toList], rfl⟩
  refine ⟨by decide, (envOverlayNames_agree_iff bareHost _ haccepted).mpr ?_⟩
  intro spec hspec piece hpiece name henv
  obtain ⟨overlays, hparse⟩ := haccepted spec hspec
  have hmem := (env_mem_iff hparse).mpr ⟨piece, hpiece, henv⟩
  simp only [List.mem_cons, List.not_mem_nil, or_false] at hspec
  rcases hspec with rfl | rfl
  · have hoverlays : overlays = [.env "A".toList] := (Except.ok.inj hparse).symm
    rw [hoverlays, List.mem_singleton, TypedOverlay.env.injEq] at hmem
    exact ⟨_, List.mem_cons_self, "A".toList, by decide, hmem.symm⟩
  · have hoverlays : overlays = [.env "B".toList] := (Except.ok.inj hparse).symm
    rw [hoverlays, List.mem_singleton, TypedOverlay.env.injEq] at hmem
    exact ⟨_, List.mem_cons_of_mem _ List.mem_cons_self, " B ".toList, by decide, hmem.symm⟩

/-- Two expressions in one spec, and a blank before the parenthesis: the daemon finds no variable. -/
theorem env_names_missed :
    parseOverlayList bareHost "env(A), env(B)".toList = .ok [.env "A".toList, .env "B".toList] ∧
      parseOverlayList bareHost "env (A)".toList = .ok [.env "A".toList] ∧
      envOverlayNames ["env (A)".toList] = [] ∧
      ¬∀ name, name ∈ envOverlayNames ["env(A), env(B)".toList] ↔
        name ∈ runEnvNames bareHost ["env(A), env(B)".toList] := by
  refine ⟨rfl, rfl, by decide, fun hsame => ?_⟩
  have hrun : "A".toList ∈ runEnvNames bareHost ["env(A), env(B)".toList] := by
    rw [mem_runEnvNames]
    exact ⟨_, List.mem_cons_self, [.env "A".toList, .env "B".toList], rfl, List.mem_cons_self⟩
  have hnone : envOverlayNames ["env(A), env(B)".toList] = [] := by decide
  have hfound := (hsame "A".toList).mpr hrun
  rw [hnone] at hfound
  cases hfound

end Awman.Overlay
