import Awman.Library.TextCuts
import Awman.OverlayLists

/-!
# Which texts are overlay expressions

The grammar says what a bare spec is and which arguments each tag takes.  Reading an expression accepts
these, and with them whatever stands behind the last closing parenthesis.
-/

namespace Awman.Overlay

open Awman.Network (trim isWhiteSpace)

variable {host : Host} {text args tag first container last : List Char} {overlay : TypedOverlay}
  {spec : DirectorySpec}

/-! ## Texts cut at colons -/

section

variable {separator : Char}

theorem dropWhile_of_notMem (h : separator ∉ text) : text.dropWhile (· != separator) = [] := by
  rw [List.dropWhile_eq_nil_iff]
  intro character hmem
  rw [bne_iff_ne]
  exact fun heq => h (heq ▸ hmem)

theorem all_ne_of_notMem (h : separator ∉ text) :
    ∀ character ∈ text, (character != separator) = true := by
  intro character hmem
  rw [bne_iff_ne]
  exact fun heq => h (heq ▸ hmem)

variable {front : List Char}

theorem dropWhile_cut (h : separator ∉ front) (back : List Char) :
    (front ++ separator :: back).dropWhile (· != separator) = separator :: back := by
  rw [List.dropWhile_append_of_pos (all_ne_of_notMem h), List.dropWhile_cons_of_neg (by simp)]

theorem takeWhile_cut (h : separator ∉ front) (back : List Char) :
    (front ++ separator :: back).takeWhile (· != separator) = front := by
  rw [List.takeWhile_append_of_pos (all_ne_of_notMem h), List.takeWhile_cons_of_neg (by simp),
    List.append_nil]

theorem splitAtMost_of_notMem (h : separator ∉ text) (count : Nat) :
    splitAtMost separator (count + 1) text = [text] := by
  cases count with
  | zero => rfl
  | succ count => rw [splitAtMost, dropWhile_of_notMem h]

/-- Each part ends at the first separator. -/
theorem splitAtMost_append (h : separator ∉ front) (back : List Char) (count : Nat) :
    splitAtMost separator (count + 2) (front ++ separator :: back) =
      front :: splitAtMost separator (count + 1) back := by
  rw [splitAtMost, dropWhile_cut h, takeWhile_cut h]

end

/-- A text has no separator, or is cut at its first one. -/
theorem cut_cases (separator : Char) (text : List Char) :
    separator ∉ text ∨ ∃ front back, text = front ++ separator :: back ∧ separator ∉ front := by
  by_cases hmem : separator ∈ text
  · obtain ⟨front, back, heq, hnot⟩ := List.eq_append_cons_of_mem hmem
    exact Or.inr ⟨front, back, heq, hnot⟩
  · exact Or.inl hmem

/-! ## The grammar -/

/-- The permission behind a bare spec. -/
inductive BarePermission : List Char → OverlayPermission → Prop where
  | none : BarePermission [] .readWrite
  | readWrite : BarePermission "rw".toList .readWrite
  | readOnly : BarePermission "ro".toList .readOnly

/-- A permission as arguments have it. -/
inductive Permission : List Char → OverlayPermission → Prop where
  | readWrite : Permission "rw".toList .readWrite
  | readOnly : Permission "ro".toList .readOnly

/-- A bare `host:container` or `host:container:permission`. -/
inductive BareSpec : List Char → DirectorySpec → Prop where
  | plain {first container : List Char} (hfirst : first ≠ []) (hcolon : ':' ∉ first)
      (habsolute : container.head? = some '/') (hrest : ':' ∉ container) :
      BareSpec (first ++ ':' :: container) ⟨first, container, .readWrite⟩
  | permitted {first container last : List Char} {permission : OverlayPermission} (hfirst : first ≠ [])
      (hcolon : ':' ∉ first) (habsolute : container.head? = some '/') (hrest : ':' ∉ container)
      (hlast : BarePermission last permission) :
      BareSpec (first ++ ':' :: (container ++ ':' :: last)) ⟨first, container, permission⟩

/-- The host path of arguments, with the home directory for `~`. -/
def expanded (host : Host) (path : List Char) : List Char :=
  Utf8Text.fromUtf8Lossy (host.expandTilde path)

/-- The arguments of `dir(...)`. -/
inductive DirArgs (host : Host) : List Char → DirectorySpec → Prop where
  | plain {first container : List Char} (hfirst : trim first ≠ []) (hcolon : ':' ∉ first)
      (hcontainer : trim container ≠ []) (hrest : ':' ∉ container) :
      DirArgs host (first ++ ':' :: container)
        ⟨expanded host (trim first), trim container, .readWrite⟩
  | permitted {first container last : List Char} {permission : OverlayPermission}
      (hfirst : trim first ≠ []) (hcolon : ':' ∉ first) (hcontainer : trim container ≠ [])
      (hrest : ':' ∉ container) (hlast : Permission (trim last) permission) :
      DirArgs host (first ++ ':' :: (container ++ ':' :: last))
        ⟨expanded host (trim first), trim container, permission⟩

/-- A component of a skill's name. -/
def SkillSegment (segment : List Char) : Prop :=
  segment ≠ [] ∧ segment ≠ ['.'] ∧ segment ≠ ['.', '.'] ∧ '/' ∉ segment ∧ ',' ∉ segment

/-- The argument of `skill(...)`. -/
inductive SkillArgs : List Char → SkillSpec → Prop where
  | all : SkillArgs ['*'] .all
  | named {name : List Char} (hname : SkillSegment name) (hstar : name ≠ ['*']) :
      SkillArgs name (.named name)
  | library {library name : List Char} (hlibrary : SkillSegment library) (hname : SkillSegment name) :
      SkillArgs (library ++ '/' :: name) (.named (library ++ '/' :: name))

/-- The name of an environment variable. -/
def EnvName (name : List Char) : Prop :=
  (∃ first ∈ name.head?, first.isAlpha = true ∨ first = '_') ∧
    ∀ character ∈ name, isNameChar character = true

/-- The arguments of `context(...)`. -/
inductive ContextArgs : List Char → ContextOverlaySpec → Prop where
  | plain {name : List Char} {scope : ContextScope} (hcolon : ':' ∉ name)
      (hscope : ContextScope.ofText (trim name) = some scope) : ContextArgs name ⟨scope, .readWrite⟩
  | permitted {name last : List Char} {scope : ContextScope} {permission : OverlayPermission}
      (hcolon : ':' ∉ name) (hscope : ContextScope.ofText (trim name) = some scope)
      (hlast : Permission (trim last) permission) :
      ContextArgs (name ++ ':' :: last) ⟨scope, permission⟩

/-- The arguments that are valid for a tag. -/
inductive Arguments (host : Host) : List Char → List Char → TypedOverlay → Prop where
  | dir {args : List Char} {spec : DirectorySpec} (hargs : DirArgs host args spec) :
      Arguments host "dir".toList args (.directory spec)
  | skill {args : List Char} {spec : SkillSpec} (hargs : SkillArgs args spec) :
      Arguments host "skill".toList args (.skill spec)
  | ssh :
      Arguments host "ssh".toList [] (.directory
        ⟨Utf8Text.fromUtf8Lossy (joinPath (host.homeDir.getD []) (textBytes ".ssh".toList)),
          "~/.ssh".toList, .readOnly⟩)
  | env {args : List Char} (hargs : EnvName args) : Arguments host "env".toList args (.env args)
  | context {args : List Char} {spec : ContextOverlaySpec} (hargs : ContextArgs args spec) :
      Arguments host "context".toList args (.context spec)

/-- A text is an overlay expression: a bare spec, or a tag with its arguments up to the closing
parenthesis, with which the text ends. -/
inductive Expression (host : Host) : List Char → TypedOverlay → Prop where
  | bare {text : List Char} {spec : DirectorySpec} (hopen : '(' ∉ text) (hcomma : ',' ∉ text)
      (hspec : BareSpec text spec) : Expression host text (.directory spec)
  | tagged {tag args : List Char} {overlay : TypedOverlay} (hopen : '(' ∉ tag)
      (hbalanced : balanced 0 args = true) (hargs : Arguments host (trim tag) (trim args) overlay) :
      Expression host (tag ++ '(' :: (args ++ [')'])) overlay

/-- A text is read as an overlay: as an expression, whatever parentheses are between the first and the
last one and whatever stands behind. -/
inductive ReadAs (host : Host) : List Char → TypedOverlay → Prop where
  | bare {text : List Char} {spec : DirectorySpec} (hopen : '(' ∉ text) (hspec : BareSpec text spec) :
      ReadAs host text (.directory spec)
  | tagged {tag args dropped : List Char} {overlay : TypedOverlay} (hopen : '(' ∉ tag)
      (hclose : ')' ∉ dropped) (hargs : Arguments host (trim tag) (trim args) overlay) :
      ReadAs host (tag ++ '(' :: (args ++ ')' :: dropped)) overlay

/-- The first parenthesis of a text is closed by the parenthesis the text ends with. -/
def WellClosed (text : List Char) : Prop :=
  ∃ tag args, text = tag ++ '(' :: (args ++ [')']) ∧ '(' ∉ tag ∧ balanced 0 args = true

/-! ## What each parser accepts -/

theorem split_two {first container : List Char} (hfirst : ':' ∉ first) (hcontainer : ':' ∉ container) :
    splitAtMost ':' 3 (first ++ ':' :: container) = [first, container] := by
  rw [splitAtMost_append hfirst, splitAtMost_of_notMem hcontainer]

theorem split_three {first container : List Char} (hfirst : ':' ∉ first) (hcontainer : ':' ∉ container)
    (last : List Char) :
    splitAtMost ':' 3 (first ++ ':' :: (container ++ ':' :: last)) = [first, container, last] := by
  rw [splitAtMost_append hfirst, splitAtMost_append hcontainer]
  rfl

/-- A text has no colon, or one, or is cut at its first two. -/
theorem colon_cases (text : List Char) :
    ':' ∉ text ∨
      (∃ first container, text = first ++ ':' :: container ∧ ':' ∉ first ∧ ':' ∉ container) ∨
        ∃ first container last, text = first ++ ':' :: (container ++ ':' :: last) ∧ ':' ∉ first ∧
          ':' ∉ container := by
  rcases cut_cases ':' text with hnone | ⟨first, back, rfl, hfirst⟩
  · exact Or.inl hnone
  · rcases cut_cases ':' back with hback | ⟨container, last, rfl, hcontainer⟩
    · exact Or.inr (Or.inl ⟨first, back, rfl, hfirst, hback⟩)
    · exact Or.inr (Or.inr ⟨first, container, last, rfl, hfirst, hcontainer⟩)

theorem parseOverlaySpec_two_iff (hfirst : ':' ∉ first) (hcontainer : ':' ∉ container) :
    parseOverlaySpec (first ++ ':' :: container) = .ok spec ↔
      first ≠ [] ∧ container.head? = some '/' ∧ spec = ⟨first, container, .readWrite⟩ := by
  rw [parseOverlaySpec, split_two hfirst hcontainer]
  constructor
  · intro h
    dsimp only at h
    split_ifs at h with hempty hblank habsolute
    cases h
    exact ⟨by simpa using hempty, by simpa using habsolute, rfl⟩
  · rintro ⟨hempty, habsolute, rfl⟩
    have hnonempty : container ≠ [] := fun hnil => by rw [hnil] at habsolute; cases habsolute
    simp [hempty, hnonempty, habsolute]

theorem parseOverlaySpec_three_iff (hfirst : ':' ∉ first) (hcontainer : ':' ∉ container) :
    parseOverlaySpec (first ++ ':' :: (container ++ ':' :: last)) = .ok spec ↔
      first ≠ [] ∧ container.head? = some '/' ∧ ∃ permission, BarePermission last permission ∧
        spec = ⟨first, container, permission⟩ := by
  rw [parseOverlaySpec, split_three hfirst hcontainer]
  constructor
  · intro h
    dsimp only at h
    split_ifs at h with hempty hblank habsolute hwrite hread
    · cases h
      refine ⟨by simpa using hempty, by simpa using habsolute, .readWrite, ?_, rfl⟩
      rcases hwrite with rfl | rfl
      · exact .readWrite
      · exact .none
    · cases h
      refine ⟨by simpa using hempty, by simpa using habsolute, .readOnly, ?_, rfl⟩
      rw [hread]
      exact .readOnly
  · rintro ⟨hempty, habsolute, permission, hpermission, rfl⟩
    have hnonempty : container ≠ [] := fun hnil => by rw [hnil] at habsolute; cases habsolute
    cases hpermission with
    | none | readWrite | readOnly => simp [hempty, hnonempty, habsolute]

/-- The bare form is read exactly as its grammar says. -/
theorem parseOverlaySpec_iff : parseOverlaySpec text = .ok spec ↔ BareSpec text spec := by
  constructor
  · intro h
    rcases colon_cases text with hnone | ⟨first, container, rfl, hfirst, hcontainer⟩ |
      ⟨first, container, last, rfl, hfirst, hcontainer⟩
    · rw [parseOverlaySpec, splitAtMost_of_notMem hnone] at h
      cases h
    · obtain ⟨hempty, habsolute, rfl⟩ := (parseOverlaySpec_two_iff hfirst hcontainer).mp h
      exact .plain hempty hfirst habsolute hcontainer
    · obtain ⟨hempty, habsolute, permission, hpermission, rfl⟩ :=
        (parseOverlaySpec_three_iff hfirst hcontainer).mp h
      exact .permitted hempty hfirst habsolute hcontainer hpermission
  · intro h
    cases h with
    | plain hempty hcolon habsolute hrest =>
      exact (parseOverlaySpec_two_iff hcolon hrest).mpr ⟨hempty, habsolute, rfl⟩
    | permitted hempty hcolon habsolute hrest hlast =>
      exact (parseOverlaySpec_three_iff hcolon hrest).mpr ⟨hempty, habsolute, _, hlast, rfl⟩

variable {fullExpr : List Char}

theorem parseDirOverlayArgs_two_iff (hfirst : ':' ∉ first) (hcontainer : ':' ∉ container) :
    parseDirOverlayArgs host (first ++ ':' :: container) fullExpr = .ok spec ↔
      trim first ≠ [] ∧ trim container ≠ [] ∧
        spec = ⟨expanded host (trim first), trim container, .readWrite⟩ := by
  rw [parseDirOverlayArgs, split_two hfirst hcontainer]
  constructor
  · intro h
    dsimp only at h
    split_ifs at h with hargs hempty hblank
    cases h
    exact ⟨by simpa using hempty, by simpa using hblank, rfl⟩
  · rintro ⟨hempty, hblank, rfl⟩
    simp [hempty, hblank, expanded]

theorem parseDirOverlayArgs_three_iff (hfirst : ':' ∉ first) (hcontainer : ':' ∉ container) :
    parseDirOverlayArgs host (first ++ ':' :: (container ++ ':' :: last)) fullExpr = .ok spec ↔
      trim first ≠ [] ∧ trim container ≠ [] ∧ ∃ permission, Permission (trim last) permission ∧
        spec = ⟨expanded host (trim first), trim container, permission⟩ := by
  rw [parseDirOverlayArgs, split_three hfirst hcontainer]
  constructor
  · intro h
    dsimp only at h
    split_ifs at h with hargs hread hempty hblank hwrite hempty hblank
    · cases h
      refine ⟨by simpa using hempty, by simpa using hblank, .readOnly, ?_, rfl⟩
      rw [hread]
      exact .readOnly
    · cases h
      refine ⟨by simpa using hempty, by simpa using hblank, .readWrite, ?_, rfl⟩
      rw [hwrite]
      exact .readWrite
  · rintro ⟨hempty, hblank, permission, hpermission, rfl⟩
    generalize hshown : trim last = shownPermission at hpermission
    cases hpermission with
    | readWrite | readOnly => simp [hempty, hblank, hshown, expanded]

/-- `dir(…)` is read exactly as its grammar says. -/
theorem parseDirOverlayArgs_iff :
    parseDirOverlayArgs host args fullExpr = .ok spec ↔ DirArgs host args spec := by
  constructor
  · intro h
    rcases colon_cases args with hnone | ⟨first, container, rfl, hfirst, hcontainer⟩ |
      ⟨first, container, last, rfl, hfirst, hcontainer⟩
    · rw [parseDirOverlayArgs, splitAtMost_of_notMem hnone] at h
      split_ifs at h
    · obtain ⟨hempty, hblank, rfl⟩ := (parseDirOverlayArgs_two_iff hfirst hcontainer).mp h
      exact .plain hempty hfirst hblank hcontainer
    · obtain ⟨hempty, hblank, permission, hpermission, rfl⟩ :=
        (parseDirOverlayArgs_three_iff hfirst hcontainer).mp h
      exact .permitted hempty hfirst hblank hcontainer hpermission
  · intro h
    cases h with
    | plain hempty hcolon hblank hrest =>
      exact (parseDirOverlayArgs_two_iff hcolon hrest).mpr ⟨hempty, hblank, rfl⟩
    | permitted hempty hcolon hblank hrest hlast =>
      exact (parseDirOverlayArgs_three_iff hcolon hrest).mpr ⟨hempty, hblank, _, hlast, rfl⟩

/-- A component of a skill's name, as the check of the components has it. -/
theorem skillSegment_iff {segment : List Char} (hslash : '/' ∉ segment) (hcomma : ',' ∉ segment) :
    SkillSegment segment ↔ ¬ (segment = [] ∨ segment = ['.'] ∨ segment = ['.', '.']) := by
  rw [SkillSegment, not_or, not_or]
  simp only [hslash, hcomma, not_false_eq_true, and_true]

/-- `skill(…)` is read exactly as its grammar says. -/
theorem parseSkillArgs_iff {skill : SkillSpec} :
    parseSkillArgs args = .ok skill ↔ SkillArgs args skill := by
  constructor
  · intro h
    rw [parseSkillArgs] at h
    split_ifs at h with hempty hcomma hstar hcount hsegments
    · cases h
      rw [hstar]
      exact .all
    · cases h
      have hcomma : ',' ∉ args := by simpa using hcomma
      rcases cut_cases '/' args with hnone | ⟨library, name, hargs, hlibrary⟩
      · rw [List.splitOn_eq_singleton hnone] at hsegments
        exact .named ((skillSegment_iff hnone hcomma).mpr (by simpa using hsegments)) hstar
      · rw [hargs, List.mem_append, List.mem_cons, not_or, not_or] at hcomma
        have hname : '/' ∉ name := by
          rw [hargs, List.count_append, List.count_cons_self] at hcount
          rw [← List.count_eq_zero]
          omega
        rw [hargs, List.splitOn_append_cons_self_of_not_mem hlibrary, List.splitOn_eq_singleton hname,
          List.any_cons, List.any_cons, List.any_nil, Bool.or_false, Bool.or_eq_true, not_or,
          decide_eq_true_eq, decide_eq_true_eq] at hsegments
        rw [hargs]
        exact .library ((skillSegment_iff hlibrary hcomma.1).mpr hsegments.1)
          ((skillSegment_iff hname hcomma.2.2).mpr hsegments.2)
  · intro h
    rw [parseSkillArgs]
    cases h with
    | all => rfl
    | named hname hstar =>
      obtain ⟨hempty, hdot, hdots, hslash, hcomma⟩ := hname
      rw [List.splitOn_eq_singleton hslash, List.count_eq_zero.mpr hslash]
      simp [hempty, hdot, hdots, hcomma, hstar]
    | @library library name hlibrary hname =>
      obtain ⟨hempty, hdot, hdots, hslash, hcomma⟩ := hlibrary
      obtain ⟨hempty', hdot', hdots', hslash', hcomma'⟩ := hname
      have hstar : library ++ '/' :: name ≠ ['*'] := by
        intro hsame
        have hmem : '/' ∈ ['*'] := hsame ▸ List.mem_append_right _ List.mem_cons_self
        exact absurd hmem (by decide)
      rw [List.splitOn_append_cons_self_of_not_mem hslash, List.splitOn_eq_singleton hslash',
        List.count_append, List.count_cons_self, List.count_eq_zero.mpr hslash,
        List.count_eq_zero.mpr hslash']
      simp [hempty, hdot, hdots, hcomma, hempty', hdot', hdots', hcomma', hstar]

/-- `env(…)` takes one name. -/
theorem parseEnvArgs_iff {name : List Char} :
    parseEnvArgs host args = .ok name ↔ EnvName args ∧ name = args := by
  have hcheck : (args.head?.any (fun first => first.isAlpha || first == '_') &&
      args.all isNameChar) = true ↔ EnvName args := by
    rw [EnvName, Bool.and_eq_true, List.all_eq_true, Option.any_eq_true]
    simp
  rw [parseEnvArgs]
  constructor
  · intro h
    split_ifs at h with hempty hcomma hname
    cases h
    exact ⟨hcheck.mp hname, rfl⟩
  · rintro ⟨hname, rfl⟩
    have hempty : ¬ name.isEmpty = true := by
      intro hnil
      obtain ⟨first, hfirst, -⟩ := hname.1
      rw [List.isEmpty_iff.mp hnil] at hfirst
      cases hfirst
    have hcomma : ¬ name.contains ',' = true := by
      intro hmem
      have hchar := hname.2 ',' (by simpa using hmem)
      cases hchar
    rw [if_neg hempty, if_neg hcomma, if_pos (hcheck.mpr hname)]

/-- `context(…)` is read exactly as its grammar says. -/
theorem parseContextArgs_iff {expr : List Char} {context : ContextOverlaySpec} :
    parseContextArgs args expr = .ok context ↔ ContextArgs args context := by
  constructor
  · intro h
    rw [parseContextArgs] at h
    dsimp only at h
    split_ifs at h with hempty
    rcases cut_cases ':' args with hnone | ⟨name, last, rfl, hname⟩
    · rw [splitAtMost_of_notMem hnone] at h
      cases hscope : ContextScope.ofText (trim args) with
      | none =>
        rw [List.headD_cons, hscope] at h
        cases h
      | some scope =>
        rw [List.headD_cons, hscope] at h
        cases h
        exact .plain hnone hscope
    · rw [splitAtMost_append hname] at h
      cases hscope : ContextScope.ofText (trim name) with
      | none =>
        rw [List.headD_cons, hscope] at h
        cases h
      | some scope =>
        rw [List.headD_cons, hscope] at h
        simp only [splitAtMost, List.tail_cons, List.head?_cons, Option.map_some] at h
        split_ifs at h with hread hwrite
        · cases h
          refine .permitted hname hscope ?_
          rw [hread]
          exact .readOnly
        · cases h
          refine .permitted hname hscope ?_
          rw [hwrite]
          exact .readWrite
  · intro h
    rw [parseContextArgs]
    have hblank : ContextScope.ofText (trim []) = none := by decide
    cases h with
    | plain hcolon hscope =>
      have hempty : args ≠ [] := fun hnil => by rw [hnil, hblank] at hscope; cases hscope
      rw [splitAtMost_of_notMem hcolon]
      simp [hempty, hscope]
    | @permitted name last scope permission hcolon hscope hlast =>
      rw [splitAtMost_append hcolon]
      generalize hpermission : trim last = shownPermission at hlast
      cases hlast with
      | readWrite | readOnly => simp [hscope, splitAtMost, hpermission]

/-- Each tag reads its own arguments. -/
theorem parseTagged_iff {expr : List Char} :
    parseTagged host tag args expr = .ok overlay ↔ Arguments host tag args overlay := by
  constructor
  · intro h
    rw [parseTagged] at h
    split_ifs at h with hdir hskill hskills hssh hargs henv hcontext
    · obtain ⟨spec, hspec, rfl⟩ := Checks.map_eq_ok.mp h
      rw [hdir]
      exact .dir (parseDirOverlayArgs_iff.mp hspec)
    · obtain ⟨spec, hspec, rfl⟩ := Checks.map_eq_ok.mp h
      rw [hskill]
      exact .skill (parseSkillArgs_iff.mp hspec)
    · cases h
      have hnil : args = [] := by simpa using hargs
      rw [hssh, hnil]
      exact .ssh
    · obtain ⟨name, hname, rfl⟩ := Checks.map_eq_ok.mp h
      obtain ⟨hname, rfl⟩ := parseEnvArgs_iff.mp hname
      rw [henv]
      exact .env hname
    · obtain ⟨spec, hspec, rfl⟩ := Checks.map_eq_ok.mp h
      rw [hcontext]
      exact .context (parseContextArgs_iff.mp hspec)
  · intro h
    rw [parseTagged]
    cases h with
    | dir hargs =>
      rw [if_pos rfl]
      exact Checks.map_eq_ok.mpr ⟨_, parseDirOverlayArgs_iff.mpr hargs, rfl⟩
    | skill hargs =>
      rw [if_neg (by decide), if_pos rfl]
      exact Checks.map_eq_ok.mpr ⟨_, parseSkillArgs_iff.mpr hargs, rfl⟩
    | ssh =>
      rw [if_neg (by decide), if_neg (by decide), if_neg (by decide), if_pos rfl]
      rfl
    | env hargs =>
      rw [if_neg (by decide), if_neg (by decide), if_neg (by decide), if_neg (by decide), if_pos rfl]
      exact Checks.map_eq_ok.mpr ⟨_, parseEnvArgs_iff.mpr ⟨hargs, rfl⟩, rfl⟩
    | context hargs =>
      rw [if_neg (by decide), if_neg (by decide), if_neg (by decide), if_neg (by decide),
        if_neg (by decide), if_pos rfl]
      exact Checks.map_eq_ok.mpr ⟨_, parseContextArgs_iff.mpr hargs, rfl⟩

/-! ## Reading one expression -/

/-- What stands between the first and the last parenthesis. -/
theorem between_eq (args : List Char) {dropped : List Char} (hclose : ')' ∉ dropped) :
    ((args ++ ')' :: dropped).rdropWhile (· != ')')).dropLast = args := by
  have hreverse : ')' ∉ dropped.reverse := fun hmem => hclose (List.mem_reverse.mp hmem)
  have hdrop := dropWhile_cut hreverse args.reverse
  have hall : (args ++ ')' :: dropped).reverse = dropped.reverse ++ ')' :: args.reverse := by simp
  rw [List.rdropWhile, hall, hdrop, List.reverse_cons, List.reverse_reverse, List.dropLast_concat]

theorem parseSingleTypedOverlay_tagged {args dropped : List Char} (hopen : '(' ∉ tag)
    (hclose : ')' ∉ dropped) :
    parseSingleTypedOverlay host (tag ++ '(' :: (args ++ ')' :: dropped)) =
      parseTagged host (trim tag) (trim args) (tag ++ '(' :: (args ++ ')' :: dropped)) := by
  rw [parseSingleTypedOverlay, dropWhile_cut hopen, takeWhile_cut hopen]
  dsimp only
  rw [if_neg (by simp), if_neg (by simp), between_eq args hclose]

theorem parseSingleTypedOverlay_bare (hopen : '(' ∉ text) :
    parseSingleTypedOverlay host text = (parseOverlaySpec text).map .directory := by
  rw [parseSingleTypedOverlay, dropWhile_of_notMem hopen]

/-- Reading an expression accepts exactly what the grammar has, up to the last parenthesis. -/
theorem parseSingleTypedOverlay_iff :
    parseSingleTypedOverlay host text = .ok overlay ↔ ReadAs host text overlay := by
  constructor
  · intro h
    rcases cut_cases '(' text with hnone | ⟨tag, inside, rfl, htag⟩
    · rw [parseSingleTypedOverlay_bare hnone] at h
      obtain ⟨spec, hspec, rfl⟩ := Checks.map_eq_ok.mp h
      exact .bare hnone (parseOverlaySpec_iff.mp hspec)
    · cases hcut : TextCuts.rsplitOnce ')' inside with
      | none =>
        have hclose := TextCuts.rsplitOnce_eq_none.mp hcut
        rw [parseSingleTypedOverlay, dropWhile_cut htag] at h
        dsimp only at h
        split_ifs at h with hmissing horder
        exact absurd (by simpa using horder) hclose
      | some parts =>
        obtain ⟨args, dropped⟩ := parts
        obtain ⟨rfl, hdropped⟩ := TextCuts.rsplitOnce_eq_some.mp hcut
        rw [parseSingleTypedOverlay_tagged htag hdropped] at h
        exact .tagged htag hdropped (parseTagged_iff.mp h)
  · intro h
    cases h with
    | bare hopen hspec =>
      rw [parseSingleTypedOverlay_bare hopen]
      exact Checks.map_eq_ok.mpr ⟨_, parseOverlaySpec_iff.mpr hspec, rfl⟩
    | tagged hopen hclose hargs =>
      rw [parseSingleTypedOverlay_tagged hopen hclose]
      exact parseTagged_iff.mpr hargs

/-- What is read and well closed is an expression of the grammar. -/
theorem ReadAs.expression (h : ReadAs host text overlay) (hcomma : '(' ∉ text → ',' ∉ text)
    (hclosed : '(' ∈ text → WellClosed text) : Expression host text overlay := by
  cases h with
  | bare hopen hspec => exact .bare hopen (hcomma hopen) hspec
  | @tagged tag args dropped overlay hopen hclose hargs =>
    obtain ⟨other, inner, hsame, hother, hbalanced⟩ := hclosed (by simp)
    have hfirst := TextCuts.splitOnce_append hopen (args ++ ')' :: dropped)
    rw [hsame, TextCuts.splitOnce_append hother] at hfirst
    obtain ⟨rfl, hinside⟩ := Prod.mk.inj (Option.some.inj hfirst)
    have hlast := TextCuts.rsplitOnce_append args hclose
    rw [← hinside, TextCuts.rsplitOnce_append inner (by simp)] at hlast
    cases hlast
    exact .tagged hopen hbalanced hargs

/-- What the grammar derives is what the parser reads. -/
theorem Expression.readAs (h : Expression host text overlay) : ReadAs host text overlay := by
  cases h with
  | bare hopen hcomma hspec => exact .bare hopen hspec
  | tagged hopen hbalanced hargs => exact .tagged hopen (by simp) hargs

theorem Expression.wellClosed (h : Expression host text overlay) (hmem : '(' ∈ text) :
    WellClosed text := by
  cases h with
  | bare hopen hcomma hspec => exact absurd hmem hopen
  | tagged hopen hbalanced hargs => exact ⟨_, _, rfl, hopen, hbalanced⟩

/-- Tags have no commas. -/
theorem Arguments.comma_notMem (h : Arguments host tag args overlay) : ',' ∉ tag := by
  cases h <;> decide

/-- An expression separates nothing and leaves nothing open. -/
theorem Expression.depthAfter_eq (h : Expression host text overlay) : depthAfter 0 text = some 0 := by
  cases h with
  | bare hopen hcomma hspec => exact depthAfter_plain hopen hcomma
  | @tagged tag args overlay hopen hbalanced hargs =>
    have hcomma : ',' ∉ tag := fun hmem =>
      hargs.comma_notMem ((mem_trim_iff (by decide)).mpr hmem)
    have hbehind : depthAfter 1 (args ++ [')']) = some 0 := by
      rw [depthAfter_append, depthAfter_balanced hbalanced]
      rfl
    rw [depthAfter_append, depthAfter_plain hopen hcomma]
    exact hbehind

end Awman.Overlay
