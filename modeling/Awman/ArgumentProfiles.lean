import Awman.ArgumentReadings
import Awman.Library.Checks

/-!
# What the profile of a front end adds

A front end that runs unattended gives some flags values of its own, after the conflicts between the
caller's flags were refused.  The flags of a command suit a front end when nothing it gives can bring
a conflict back.
-/

namespace Awman.RawArgs

variable {ν : Type} [DecidableEq ν] {spec : CommandSpec ν} {path : List Text}

/-! ## Positional arguments -/

/-- The tokens of the positional arguments, in the order of the arguments. -/
def CommandSpec.tokensOf (spec : CommandSpec ν) (arguments : NameMap Text (List Text)) : List Text :=
  spec.arguments.flatMap fun argument => (arguments.lookup argument.name).getD []

/-- An argument takes nothing, the first token, or all tokens. -/
theorem assignPositionals_cons (argument : ArgumentSpec) (rest : List ArgumentSpec)
    (positionals : List Text) (before : NameMap Text (List Text)) (paths : List Text) :
    ∃ taken left pathsAfter, taken ++ left = positionals ∧
      assignPositionals (argument :: rest) positionals (before, paths) =
        assignPositionals rest left
          (if taken = [] then before else before.insert argument.name taken, pathsAfter) := by
  cases positionals with
  | nil =>
    refine ⟨[], [], paths, rfl, ?_⟩
    cases hkind : argument.kind <;> simp [assignPositionals, hkind]
  | cons token others =>
    cases hkind : argument.kind with
    | trailingVarArgs =>
      exact ⟨token :: others, [], paths, by simp, by simp [assignPositionals, hkind]⟩
    | path | optionalPath =>
      exact ⟨[token], others, paths ++ [argument.name], rfl, by simp [assignPositionals, hkind]⟩
    | string | optionalString =>
      exact ⟨[token], others, paths, rfl, by simp [assignPositionals, hkind]⟩

theorem lookup_assignPositionals {declared : List ArgumentSpec} {positionals left : List Text}
    {before after : NameMap Text (List Text)} {paths pathsAfter : List Text} {name : Text}
    (hname : name ∉ declared.map ArgumentSpec.name)
    (h : assignPositionals declared positionals (before, paths) = ((after, pathsAfter), left)) :
    after.lookup name = before.lookup name := by
  induction declared generalizing positionals before paths with
  | nil =>
    have hbefore : before = after := congrArg (·.1.1) h
    rw [hbefore]
  | cons argument rest ih =>
    rw [List.map_cons, List.mem_cons, not_or] at hname
    obtain ⟨taken, _, _, _, hstep⟩ := assignPositionals_cons argument rest positionals before paths
    rw [hstep] at h
    rw [ih hname.2 h]
    split
    · rfl
    · exact AList.lookup_insert_ne hname.1

/-- Every positional token belongs to one argument, or is left over. -/
theorem tokens_assignPositionals {declared : List ArgumentSpec} {positionals left : List Text}
    {before after : NameMap Text (List Text)} {paths pathsAfter : List Text}
    (hdeclared : (declared.map ArgumentSpec.name).Nodup)
    (hfresh : ∀ argument ∈ declared, before.lookup argument.name = none)
    (h : assignPositionals declared positionals (before, paths) = ((after, pathsAfter), left)) :
    (declared.flatMap fun argument => (after.lookup argument.name).getD []) ++ left = positionals := by
  induction declared generalizing positionals before paths with
  | nil =>
    have hleft : positionals = left := congrArg Prod.snd h
    rw [hleft]
    rfl
  | cons argument rest ih =>
    rw [List.map_cons, List.nodup_cons] at hdeclared
    obtain ⟨taken, remaining, _, htokens, hstep⟩ :=
      assignPositionals_cons argument rest positionals before paths
    rw [hstep] at h
    have hfirst : (after.lookup argument.name).getD [] = taken := by
      rw [lookup_assignPositionals hdeclared.1 h]
      split
      · rename_i hnone
        rw [hfresh argument List.mem_cons_self, hnone]
        rfl
      · rw [AList.lookup_insert]
        rfl
    have hrest := ih hdeclared.2 (fun other hother => ?_) h
    · rw [List.flatMap_cons, hfirst, List.append_assoc, hrest, htokens]
    · have hother' := hfresh other (List.mem_cons_of_mem argument hother)
      split
      · exact hother'
      · have hne : other.name ≠ argument.name := by
          intro hsame
          exact hdeclared.1 (List.mem_map.mpr ⟨other, hother, hsame⟩)
        rw [AList.lookup_insert_ne hne, hother']

/-! ## Conflicts -/

/-- No flag that is active conflicts with another one that is active. -/
def CommandSpec.Agrees (spec : CommandSpec ν) (flags : NameMap ν ParsedFlag) : Prop :=
  ∀ flag ∈ spec.flags, flagIsActive flags flag.key = true →
    ∀ other ∈ flag.conflictsWith, flagIsActive flags other = false

omit [DecidableEq ν] in
theorem firstConflict_none_iff {active : ν → Bool} :
    firstConflict spec active = none ↔ ∀ flag ∈ spec.flags, active flag.key = true →
      ∀ other ∈ flag.conflictsWith, active other = false := by
  rw [firstConflict, List.findSome?_eq_none_iff]
  constructor
  · intro hnone flag hflag hactive other hother
    have hfirst := hnone flag hflag
    rw [if_pos hactive, Option.map_eq_none_iff, List.find?_eq_none] at hfirst
    simpa using hfirst other hother
  · intro hagrees flag hflag
    split
    · rename_i hactive
      rw [Option.map_eq_none_iff, List.find?_eq_none]
      intro other hother
      simp [hagrees flag hflag hactive other hother]
    · rfl

variable {flags : NameMap ν ParsedFlag} {frontend : FrontendKind} {flag : FlagSpec ν} {args : List Text}
  {parsed : ParsedArgs ν}

theorem checkConflicts_eq_ok :
    checkConflicts spec path flags = .ok () ↔ spec.Agrees flags := by
  unfold checkConflicts
  rw [CommandSpec.Agrees, ← firstConflict_none_iff]
  cases firstConflict spec (flagIsActive flags) with
  | none | some => simp

theorem flagIsActive_insert {key other : ν} {value : ParsedFlag}
    (hactive : flagIsActive (flags.insert key value) other = true) :
    other = key ∨ flagIsActive flags other = true := by
  by_cases hkey : other = key
  · exact Or.inl hkey
  · right
    unfold flagIsActive at hactive ⊢
    rwa [AList.lookup_insert_ne hkey] at hactive

/-! ## The profile -/

/-- What a front end gives cannot conflict with what it lets the caller give: a flag it forces conflicts
with flags only that the caller may not give, and a flag it fills in names every flag that names it. -/
def CommandSpec.Suits (spec : CommandSpec ν) (frontend : FrontendKind) : Prop :=
  ∀ entry ∈ frontendFlagDefaults frontend, ∀ flag ∈ spec.flags, flag.long = entry.flag →
    flag.key ∉ flag.conflictsWith ∧
      if entry.forced then
        ∀ other ∈ spec.flags, flag.key ∈ other.conflictsWith ∨ other.key ∈ flag.conflictsWith →
          other.frontends.allows frontend = false ∧
            ∀ given ∈ frontendFlagDefaults frontend, given.flag ≠ other.long
      else ∀ other ∈ spec.flags, flag.key ∈ other.conflictsWith → other.key ∈ flag.conflictsWith

/-- Only flags of the command are there, and only such as the front end lets the caller give, or gives. -/
def CommandSpec.Admitted (spec : CommandSpec ν) (frontend : FrontendKind)
    (flags : NameMap ν ParsedFlag) : Prop :=
  ∀ key, (flags.lookup key).isSome = true → ∃ flag ∈ spec.flags, flag.key = key ∧
    (flag.frontends.allows frontend = true ∨
      ∃ entry ∈ frontendFlagDefaults frontend, entry.flag = flag.long)

theorem isSome_of_active {key : ν} (hactive : flagIsActive flags key = true) :
    (flags.lookup key).isSome = true := by
  unfold flagIsActive at hactive
  cases hlookup : flags.lookup key with
  | none =>
    rw [hlookup] at hactive
    cases hactive
  | some value => rfl

theorem Admitted_insert {entry : FrontendFlagDefault} (hflag : flag ∈ spec.flags)
    (hentry : entry ∈ frontendFlagDefaults frontend) (hlong : flag.long = entry.flag)
    (hadmitted : spec.Admitted frontend flags) (value : ParsedFlag) :
    spec.Admitted frontend (flags.insert flag.key value) := by
  intro key hkey
  by_cases hsame : key = flag.key
  · exact ⟨flag, hflag, hsame.symm, Or.inr ⟨entry, hentry, hlong.symm⟩⟩
  · rw [AList.lookup_insert_ne hsame] at hkey
    exact hadmitted key hkey

/-- Flags with the same name are the same flag. -/
theorem eq_of_key (hspec : spec.Regular) {other : FlagSpec ν} (hflag : flag ∈ spec.flags)
    (hother : other ∈ spec.flags) (hkey : flag.key = other.key) : flag = other := by
  have hnamed := hspec.named flag hflag
  rw [hkey, hspec.named other hother] at hnamed
  exact (Option.some.inj hnamed).symm

/-- A flag is given without conflict when it names no flag that is active, and none names it: the flags
that are active then are the one that is given, and flags that were active. -/
theorem agrees_insert (hspec : spec.Regular) (hflag : flag ∈ spec.flags)
    (hself : flag.key ∉ flag.conflictsWith)
    (hnamed : ∀ other ∈ spec.flags, flagIsActive flags other.key = true → flag.key ∉ other.conflictsWith)
    (hnames : ∀ other ∈ flag.conflictsWith, flagIsActive flags other = false)
    (hagrees : spec.Agrees flags) (value : ParsedFlag) : spec.Agrees (flags.insert flag.key value) := by
  intro given hgiven hactive other hother
  by_contra hboth
  rw [Bool.not_eq_false] at hboth
  rcases flagIsActive_insert hactive with hsame | hbefore
  · have hgivenSame : given = flag := eq_of_key hspec hgiven hflag hsame
    subst hgivenSame
    rcases flagIsActive_insert hboth with hothersame | hotherbefore
    · rw [hothersame] at hother
      exact hself hother
    · rw [hnames other hother] at hotherbefore
      cases hotherbefore
  · rcases flagIsActive_insert hboth with hothersame | hotherbefore
    · rw [hothersame] at hother
      exact hnamed given hgiven hbefore hother
    · rw [hagrees given hgiven hbefore other hother] at hotherbefore
      cases hotherbefore

/-- A flag that is active is one of the command, and one that the front end lets the caller give, or gives. -/
theorem admitted_of_active (hspec : spec.Regular) (hadmitted : spec.Admitted frontend flags)
    (hflag : flag ∈ spec.flags) (hactive : flagIsActive flags flag.key = true) :
    flag.frontends.allows frontend = true ∨
      ∃ entry ∈ frontendFlagDefaults frontend, entry.flag = flag.long := by
  obtain ⟨found, hfound, hkey, hmay⟩ := hadmitted flag.key (isSome_of_active hactive)
  have hsame : found = flag := eq_of_key hspec hfound hflag hkey
  rwa [hsame] at hmay

/-- A value of the front end brings no conflict. -/
theorem applyFrontendDefault_agrees (hspec : spec.Regular) (hsuits : spec.Suits frontend)
    {entry : FrontendFlagDefault} (hentry : entry ∈ frontendFlagDefaults frontend)
    (hadmitted : spec.Admitted frontend flags) (hagrees : spec.Agrees flags) :
    spec.Admitted frontend (applyFrontendDefault spec flags entry) ∧
      spec.Agrees (applyFrontendDefault spec flags entry) := by
  unfold applyFrontendDefault
  cases hfind : spec.findFlag entry.flag with
  | none => exact ⟨hadmitted, hagrees⟩
  | some flag =>
    obtain ⟨hflag, hlong⟩ := findFlag_eq_some hfind
    obtain ⟨hself, hothers⟩ := hsuits entry hentry flag hflag hlong
    have hinserted := Admitted_insert hflag hentry hlong hadmitted (.bool entry.value)
    by_cases hforced : entry.forced = true
    · rw [if_pos hforced] at hothers
      simp only [hforced, if_true]
      -- The caller cannot have given a flag that a forced one conflicts with.
      have hcannot : ∀ other ∈ spec.flags, flagIsActive flags other.key = true →
          ¬ (flag.key ∈ other.conflictsWith ∨ other.key ∈ flag.conflictsWith) := by
        intro other hother hactive hconflict
        obtain ⟨hallows, hgiven⟩ := hothers other hother hconflict
        rcases admitted_of_active hspec hadmitted hother hactive with hmay | ⟨given, hmem, hlong⟩
        · rw [hallows] at hmay
          cases hmay
        · exact hgiven given hmem hlong
      refine ⟨hinserted, agrees_insert hspec hflag hself
        (fun other hother hactive hin => hcannot other hother hactive (Or.inl hin))
        (fun other hother => ?_) hagrees _⟩
      by_contra hactive
      rw [Bool.not_eq_false] at hactive
      obtain ⟨found, hfound, hkey, _⟩ := hadmitted other (isSome_of_active hactive)
      rw [← hkey] at hactive hother
      exact hcannot found hfound hactive (Or.inr hother)
    · rw [if_neg hforced] at hothers
      simp only [hforced]
      by_cases hskip : (flags.lookup flag.key).isSome = true ∨
          flag.conflictsWith.any (flagIsActive flags) = true
      · simp only [if_pos hskip]
        exact ⟨hadmitted, hagrees⟩
      · simp only [if_neg hskip]
        rw [not_or] at hskip
        have hnames : ∀ other ∈ flag.conflictsWith, flagIsActive flags other = false := by
          simpa using hskip.2
        refine ⟨hinserted, agrees_insert hspec hflag hself (fun other hother hactive hin => ?_) hnames
          hagrees _⟩
        rw [hnames other.key (hothers other hother hin)] at hactive
        cases hactive

/-! ## The account of a parse -/

/-- What a reading makes of the flags and the positional arguments. -/
structure Accounts (spec : CommandSpec ν) (readings : List (Reading ν)) (args : List Text)
    (flags : NameMap ν ParsedFlag) (arguments : NameMap Text (List Text)) : Prop where
  /-- The tokens of the readings are the argument vector: each token is taken once, in its place. -/
  tokens : readings.flatMap Reading.tokens = args
  /-- Each reading is a flag, a flag with its value, the separator or a positional argument. -/
  reads : spec.Reads false 0 readings
  /-- A flag holds what it was given. -/
  held : ∀ flag ∈ spec.flags, flags.lookup flag.key =
    flag.kind.held (givenTo flag.key (readings.filterMap Reading.given))
  declared : ∀ key, (flags.lookup key).isSome = true → ∃ flag ∈ spec.flags, flag.key = key
  positionals : spec.tokensOf arguments = readings.filterMap Reading.argument

theorem parseAgainstSpec_eq_ok (h : parseAgainstSpec spec path args = .ok parsed) :
    ∃ scan, scanArgs spec path args ⟨∅, [], false⟩ = .ok scan ∧
      checkConflicts spec path scan.flags = .ok () ∧ parsed.flags = scan.flags ∧
      assignPositionals spec.arguments scan.positionals (∅, []) =
        ((parsed.arguments, parsed.pathArguments), []) := by
  obtain ⟨scan, hscan, h⟩ := Checks.bind_eq_ok.mp h
  obtain ⟨_, hconflicts, h⟩ := Checks.bind_eq_ok.mp h
  cases hassign : assignPositionals spec.arguments scan.positionals (∅, []) with
  | mk assigned left =>
    simp only [hassign] at h
    cases left with
    | nil =>
      have hparsed := Checks.pure_eq_ok.mp h
      exact ⟨scan, hscan, hconflicts, by rw [← hparsed], by rw [hassign, ← hparsed]⟩
    | cons extra others => cases h

/-- Every token of an argument vector that is accepted is accounted for. -/
theorem parseAgainstSpec_accounts (hspec : spec.Regular)
    (harguments : (spec.arguments.map ArgumentSpec.name).Nodup)
    (h : parseAgainstSpec spec path args = .ok parsed) :
    (∃ readings, Accounts spec readings args parsed.flags parsed.arguments) ∧
      spec.Agrees parsed.flags := by
  obtain ⟨scan, hscan, hconflicts, hflags, hassign⟩ := parseAgainstSpec_eq_ok h
  obtain ⟨readings, htokens, hreads, hfold⟩ := scanArgs_reading hscan
  have hgiven := hreads.given
  have hscanned := @foldl_after_flags ν _ spec readings ⟨∅, [], false⟩
  have hpositionals := @foldl_after_positionals ν _ spec readings ⟨∅, [], false⟩
  rw [hfold] at hscanned hpositionals
  refine ⟨⟨readings, htokens, hreads, ?_, ?_, ?_⟩, ?_⟩
  · intro flag hflag
    rw [hflags, hscanned, lookup_foldl_hold (fun entry hentry => (hgiven entry hentry).2)]
    intro entry hentry hkey
    exact eq_of_key hspec (hgiven entry hentry).1 hflag hkey
  · intro key hkey
    by_contra hnone
    rw [hflags, hscanned, lookup_foldl_hold_none] at hkey
    · cases hkey
    · intro entry hentry hsame
      exact hnone ⟨entry.1, (hgiven entry hentry).1, hsame⟩
  · have htokens := tokens_assignPositionals harguments (fun _ _ => rfl) hassign
    rw [List.append_nil, hpositionals, List.nil_append] at htokens
    exact htokens
  · rw [hflags]
    exact checkConflicts_eq_ok.mp hconflicts

theorem parseRawArgsWithProfile_eq_ok (h : parseRawArgsWithProfile spec path args frontend = .ok parsed) :
    ∃ given, parseAgainstSpec spec path args = .ok given ∧
      checkVisibility spec path frontend given.flags = .ok () ∧
      parsed = { given with
        flags := (frontendFlagDefaults frontend).foldl (applyFrontendDefault spec) given.flags } := by
  obtain ⟨given, hgiven, h⟩ := Checks.bind_eq_ok.mp h
  obtain ⟨_, hvisible, h⟩ := Checks.bind_eq_ok.mp h
  exact ⟨given, hgiven, hvisible, (Checks.pure_eq_ok.mp h).symm⟩

/-- The flags a front end lets the caller give are those it allows, and those it forces. -/
theorem admitted_of_visible
    (hdeclared : ∀ key, (flags.lookup key).isSome = true → ∃ flag ∈ spec.flags, flag.key = key)
    (hvisible : checkVisibility spec path frontend flags = .ok ()) : spec.Admitted frontend flags := by
  intro key hkey
  obtain ⟨flag, hflag, rfl⟩ := hdeclared key hkey
  refine ⟨flag, hflag, rfl, ?_⟩
  unfold checkVisibility at hvisible
  simp only at hvisible
  split at hvisible
  · rename_i hnone
    have hflagNot := List.find?_eq_none.mp hnone flag hflag
    by_cases hallows : flag.frontends.allows frontend = true
    · exact Or.inl hallows
    · right
      simp only [hkey, hallows, Bool.not_false, Bool.and_self, Bool.true_and, Bool.not_eq_true,
        Bool.not_eq_false', List.any_eq_true, decide_eq_true_eq] at hflagNot
      obtain ⟨entry, hentry, hlong, _⟩ := hflagNot
      exact ⟨entry, hentry, hlong⟩
  · cases hvisible

theorem foldl_applyFrontendDefault (hspec : spec.Regular) (hsuits : spec.Suits frontend)
    {entries : List FrontendFlagDefault}
    (hentries : ∀ entry ∈ entries, entry ∈ frontendFlagDefaults frontend)
    (hadmitted : spec.Admitted frontend flags) (hagrees : spec.Agrees flags) :
    spec.Agrees (entries.foldl (applyFrontendDefault spec) flags) := by
  induction entries generalizing flags with
  | nil => exact hagrees
  | cons entry rest ih =>
    obtain ⟨hadmittedAfter, hagreesAfter⟩ := applyFrontendDefault_agrees hspec hsuits
      (hentries entry List.mem_cons_self) hadmitted hagrees
    exact ih (fun other hother => hentries other (List.mem_cons_of_mem entry hother)) hadmittedAfter
      hagreesAfter

/-- What a front end adds to an argument vector that is accounted for conflicts with nothing in it. -/
theorem parseRawArgsWithProfile_accounts (hspec : spec.Regular)
    (harguments : (spec.arguments.map ArgumentSpec.name).Nodup) (hsuits : spec.Suits frontend)
    (h : parseRawArgsWithProfile spec path args frontend = .ok parsed) :
    ∃ readings given, Accounts spec readings args given parsed.arguments ∧
      parsed.flags = (frontendFlagDefaults frontend).foldl (applyFrontendDefault spec) given ∧
      spec.Agrees parsed.flags := by
  obtain ⟨given, hparse, hvisible, rfl⟩ := parseRawArgsWithProfile_eq_ok h
  obtain ⟨⟨readings, haccounts⟩, hagrees⟩ := parseAgainstSpec_accounts hspec harguments hparse
  have hadmitted := admitted_of_visible haccounts.declared hvisible
  exact ⟨readings, given.flags, haccounts, rfl, foldl_applyFrontendDefault hspec hsuits
    (fun _ hentry => hentry) hadmitted hagrees⟩

end Awman.RawArgs
