import Awman.ResolvedFlags

/-!
# Forwarded flags

The flags of a command that were supplied are written as an argument vector, and the parser reads the
same flags back from it.  Whatever vector a front end accepts, each of its tokens is accounted for.
-/

namespace Awman.Catalogue

open Awman.RawArgs

/-! ## What was read, as the parser holds it -/

/-- What the parsers of the front ends promise of their answers. -/
structure CommandFrontend.Restricted (frontend : CommandFrontend) (flags : List (FlagSpec Text)) :
    Prop where
  /-- An enumeration is answered by one of its values. -/
  enum : ∀ flag ∈ flags, ∀ allowed value, flag.kind = .enum allowed →
    frontend.flagEnum flag.long = .ok (some value) → value ∈ allowed
  positive : ∀ flag ∈ flags, ∀ number, flag.kind = .usizeAtLeastOne →
    frontend.flagUsize flag.long = .ok (some number) → 1 ≤ number

/-- The value of a flag as the parser holds it; a flag that is not supplied is not held. -/
def ResolvedValue.parsed : ResolvedValue → Option ParsedFlag
  | bool value => if value then some (.bool true) else none
  | str value => value.map .str
  | strs values => if values = [] then none else some (.strings values)
  | path value => value.map .path
  | u16 value => value.map fun number => .u16 number.toNat
  | usize value => value.map fun number => .usize number.toNat

theorem isSome_parsed (value : ResolvedValue) : value.parsed.isSome = isSupplied value := by
  cases value with
  | bool value | str value | path value | u16 value | usize value => cases value <;> rfl
  | strs values => cases values <;> rfl

theorem held_nil (kind : FlagKind) :
    (∀ inline ∈ ([] : List (Option Text)), (kind.read inline).isSome = true) ∧ kind.held [] = none := by
  constructor
  · intro inline hinline
    cases hinline
  · cases kind <;> rfl

theorem held_singleton {kind : FlagKind} {inline : Option Text} {held : ParsedFlag}
    (hkind : kind ≠ .vecString) (hread : kind.read inline = some held) :
    (∀ written ∈ [inline], (kind.read written).isSome = true) ∧ kind.held [inline] = some held := by
  constructor
  · intro written hwritten
    rw [List.mem_singleton.mp hwritten, hread]
    rfl
  · cases kind with
    | vecString => exact absurd rfl hkind
    | _ => exact hread

variable {flag : FlagSpec Text}

/-- The values that are written for a flag are such as it takes, and it holds what was read. -/
theorem held_rendered {frontend : CommandFrontend} {flags : List (FlagSpec Text)}
    (hfrontend : frontend.Restricted flags) (hflag : flag ∈ flags) {value : ResolvedValue}
    (hread : readFlag frontend flag = .ok value) :
    (∀ inline ∈ value.rendered, (flag.kind.read inline).isSome = true) ∧
      flag.kind.held value.rendered = value.parsed := by
  unfold readFlag at hread
  cases hkind : flag.kind with
  | bool =>
    simp only [hkind, Checks.map_eq_ok] at hread
    obtain ⟨answer, _, rfl⟩ := hread
    cases answer.getD false with
    | false => exact held_nil .bool
    | true => exact held_singleton (by decide) rfl
  | string | optionalString | path | optionalPath =>
    simp only [hkind, Checks.map_eq_ok] at hread
    obtain ⟨answer, _, rfl⟩ := hread
    cases answer with
    | none => exact held_nil _
    | some text => exact held_singleton (by decide) rfl
  | enum allowed =>
    simp only [hkind, Checks.map_eq_ok] at hread
    obtain ⟨answer, hanswer, rfl⟩ := hread
    cases answer with
    | none => exact held_nil _
    | some text =>
      have hallowed := hfrontend.enum flag hflag allowed text hkind hanswer
      exact held_singleton (by simp) (if_pos hallowed)
  | vecString =>
    simp only [hkind, Checks.map_eq_ok] at hread
    obtain ⟨values, _, rfl⟩ := hread
    have hall : (values.map some).reduceOption = values := by
      simp [List.reduceOption]
    constructor
    · intro inline hinline
      obtain ⟨text, _, rfl⟩ := List.mem_map.mp hinline
      rfl
    · simp only [FlagKind.held, ResolvedValue.rendered, hall, ResolvedValue.parsed]
  | u16 =>
    simp only [hkind, Checks.map_eq_ok] at hread
    obtain ⟨answer, _, rfl⟩ := hread
    cases answer with
    | none => exact held_nil _
    | some number =>
      apply held_singleton (by decide)
      rw [FlagKind.read, parseUnsigned_digits number.toNat_lt]
      rfl
  | usizeAtLeastOne =>
    simp only [hkind, Checks.map_eq_ok] at hread
    obtain ⟨answer, hanswer, rfl⟩ := hread
    cases answer with
    | none => exact held_nil _
    | some number =>
      have hpositive : 1 ≤ number.toNat :=
        UInt64.le_iff_toNat_le.mp (hfrontend.positive flag hflag number hkind hanswer)
      apply held_singleton (by decide)
      rw [FlagKind.read, parseUnsigned_digits number.toNat_lt, Option.filter_some,
        if_pos (decide_eq_true hpositive)]
      rfl

/-! ## Tokens of flags -/

section tokens

variable {spec : CommandSpec Text} {path : List Text}

/-- A flag that is written as one token is read as that flag with its value. -/
theorem scanToken_flagToken (hspec : spec.Regular) (hflag : flag ∈ spec.flags) {inline : Option Text}
    (hread : (flag.kind.read inline).isSome = true) (next : Option Text)
    (flags : NameMap Text ParsedFlag) :
    scanToken spec path (flagToken flag.long inline) next ⟨flags, [], false⟩ =
      .ok (⟨hold flags (flag, inline), [], false⟩, false) := by
  have happly := @applyFlag_inline Text _ inline path flag hread next flags
  cases inline with
  | none =>
    rw [flagToken, scanToken_long hspec hflag, happly]
    rfl
  | some value =>
    obtain ⟨hnonempty, habsent⟩ := hspec.written flag hflag
    have hsplit := TextCuts.splitOnce_append habsent value
    have hfound := hspec.found flag hflag
    unfold scanToken flagToken
    rw [if_neg (by simp)]
    cases hlong : flag.long with
    | nil => exact absurd hlong hnonempty
    | cons first rest =>
      rw [hlong, List.cons_append] at hsplit
      rw [hlong] at hfound
      simp only [List.cons_append, hsplit, hfound, happly]
      rfl

/-- Flags written as tokens are held, one after the other. -/
theorem scanArgs_flagTokens (hspec : spec.Regular) {given : List (FlagSpec Text × Option Text)}
    (hgiven : ∀ entry ∈ given, entry.1 ∈ spec.flags ∧ (entry.1.kind.read entry.2).isSome = true)
    (flags : NameMap Text ParsedFlag) :
    scanArgs spec path (given.map fun entry => flagToken entry.1.long entry.2) ⟨flags, [], false⟩ =
      .ok ⟨given.foldl hold flags, [], false⟩ := by
  induction given generalizing flags with
  | nil => rfl
  | cons entry rest ih =>
    obtain ⟨hflag, hread⟩ := hgiven entry List.mem_cons_self
    have hrest := ih (fun other hother => hgiven other (List.mem_cons_of_mem entry hother))
      (hold flags entry)
    have hstep := fun next => @scanToken_flagToken entry.1 spec path hspec hflag entry.2 hread next flags
    cases rest with
    | nil =>
      rw [List.map_singleton, scanArgs, hstep]
      rfl
    | cons second others =>
      rw [List.map_cons, List.map_cons, scanArgs, hstep]
      exact hrest

/-- Each name gives its own flag something, once. -/
theorem givenTo_flatMap {names : List Text} (hnames : names.Nodup)
    {give : Text → List (FlagSpec Text × Option Text)}
    (hgive : ∀ name, ∀ entry ∈ give name, entry.1.key = name) (key : Text) :
    givenTo key (names.flatMap give) = if key ∈ names then (give key).map Prod.snd else [] := by
  have hown : ∀ name, givenTo key (give name) = if name = key then (give key).map Prod.snd else [] := by
    intro name
    by_cases hname : name = key
    · rw [if_pos hname, givenTo, hname, List.filter_eq_self.mpr]
      intro entry hentry
      simpa using hgive key entry hentry
    · rw [if_neg hname, givenTo, List.filter_eq_nil_iff.mpr, List.map_nil]
      intro entry hentry
      rw [hgive name entry hentry]
      simpa using hname
  induction names with
  | nil => rfl
  | cons name rest ih =>
    rw [List.nodup_cons] at hnames
    rw [List.flatMap_cons, givenTo_append, ih hnames.2, hown]
    by_cases hname : name = key
    · subst hname
      simp [hnames.1]
    · simp [hname, Ne.symm hname]

end tokens

/-! ## The round trip -/

section roundtrip

variable {spec : CommandSpec Text} {path : List Text} {frontend : CommandFrontend}
  {resolved : ResolvedFlags} {exclude : List Text}

/-- What the argument vector gives the flags. -/
def ResolvedFlags.given (resolved : ResolvedFlags) (spec : CommandSpec Text) (exclude : List Text) :
    List (FlagSpec Text × Option Text) :=
  (resolved.supplied.elements.filter (· ∉ exclude)).flatMap fun name =>
    (spec.findFlag name).elim [] fun flag =>
      ((resolved.values.lookup name).elim [] ResolvedValue.rendered).map fun inline => (flag, inline)

theorem mem_given {entry : FlagSpec Text × Option Text} :
    entry ∈ resolved.given spec exclude ↔ ∃ name ∈ resolved.supplied, name ∉ exclude ∧
      spec.findFlag name = some entry.1 ∧
      entry.2 ∈ (resolved.values.lookup name).elim [] ResolvedValue.rendered := by
  obtain ⟨flag, inline⟩ := entry
  rw [ResolvedFlags.given, List.mem_flatMap]
  constructor
  · rintro ⟨name, hname, hentry⟩
    rw [List.mem_filter, decide_eq_true_eq] at hname
    refine ⟨name, hname.1, hname.2, ?_⟩
    cases hfound : spec.findFlag name with
    | none =>
      rw [hfound] at hentry
      cases hentry
    | some found =>
      rw [hfound] at hentry
      obtain ⟨value, hvalue, hpair⟩ := List.mem_map.mp hentry
      cases hpair
      exact ⟨rfl, hvalue⟩
  · rintro ⟨name, hname, hkept, hfound, hvalue⟩
    refine ⟨name, List.mem_filter.mpr ⟨hname, by simpa using hkept⟩, ?_⟩
    rw [hfound]
    exact List.mem_map_of_mem hvalue

/-- The argument vector consists of the tokens of what it gives. -/
theorem suppliedArgv_eq (hsupplied : ∀ name ∈ resolved.supplied, ∃ flag, spec.findFlag name = some flag) :
    resolved.suppliedArgv exclude =
      (resolved.given spec exclude).map fun entry => flagToken entry.1.long entry.2 := by
  rw [ResolvedFlags.suppliedArgv, ResolvedFlags.given, List.map_flatMap]
  refine List.flatMap_congr fun name hname => ?_
  obtain ⟨flag, hfound⟩ := hsupplied name (List.mem_filter.mp hname).1
  rw [hfound, ← (findFlag_eq_some hfound).2, Option.elim_some, List.map_map]
  rfl

/-- A flag is given what is written for it, once. -/
theorem givenTo_given (hkeys : ∀ flag ∈ spec.flags, flag.key = flag.long)
    (hfound : spec.findFlag flag.long = some flag) :
    givenTo flag.long (resolved.given spec exclude) =
      if flag.long ∈ resolved.supplied ∧ flag.long ∉ exclude then
        (resolved.values.lookup flag.long).elim [] ResolvedValue.rendered
      else [] := by
  have hdistinct : (resolved.supplied.elements.filter (· ∉ exclude)).Nodup :=
    (resolved.supplied.increasing.imp fun hless => ne_of_lt hless).filter _
  have hown : ∀ name, ∀ entry ∈ (spec.findFlag name).elim [] fun found =>
      ((resolved.values.lookup name).elim [] ResolvedValue.rendered).map fun inline => (found, inline),
      entry.1.key = name := by
    intro name entry hentry
    cases hname : spec.findFlag name with
    | none =>
      rw [hname] at hentry
      cases hentry
    | some found =>
      obtain ⟨hmem, hlong⟩ := findFlag_eq_some hname
      rw [hname] at hentry
      obtain ⟨inline, _, rfl⟩ := List.mem_map.mp hentry
      rw [hkeys found hmem, hlong]
  rw [ResolvedFlags.given, givenTo_flatMap hdistinct hown, hfound, Option.elim_some, List.map_map]
  simp only [List.mem_filter, decide_eq_true_eq, OrderedSet.mem_elements, Function.comp_def, List.map_id']

theorem assignPositionals_nil (declared : List ArgumentSpec)
    (assigned : NameMap Text (List Text) × List Text) :
    assignPositionals declared [] assigned = (assigned, []) := by
  induction declared with
  | nil => rfl
  | cons argument rest ih =>
    obtain ⟨arguments, paths⟩ := assigned
    cases hkind : argument.kind <;> simp only [assignPositionals, hkind, ih]

/-- The parser holds the flags that were supplied, except some, with their values, and nothing else. -/
structure ReadsBack (frontend : CommandFrontend) (spec : CommandSpec Text) (exclude : List Text)
    (parsed : ParsedArgs Text) : Prop where
  flags : ∀ flag ∈ spec.flags, ∃ value, readFlag frontend flag = .ok value ∧
    parsed.flags.lookup flag.long = if flag.long ∈ exclude then none else value.parsed
  /-- Nothing else is held. -/
  others : ∀ name, name ∉ spec.flags.map FlagSpec.long → parsed.flags.lookup name = none
  arguments : parsed.arguments = ∅
  pathArguments : parsed.pathArguments = []

section

variable (hsound : Sound spec) (hfrontend : frontend.Restricted spec.flags) {commandPath : List Text}
  (h : ResolvedFlags.resolve frontend commandPath spec = .ok resolved)
include hsound hfrontend commandPath h

/-- What is written for a flag is a value it takes, of a flag that was supplied. -/
theorem given_readable {entry : FlagSpec Text × Option Text}
    (hentry : entry ∈ resolved.given spec exclude) :
    entry.1 ∈ spec.flags ∧ entry.1.key ∈ resolved.supplied ∧
      (entry.1.kind.read entry.2).isSome = true := by
  obtain ⟨hvalues, -, -⟩ := resolve_eq_ok hsound h
  obtain ⟨name, hname, _, hfound, hinline⟩ := mem_given.mp hentry
  obtain ⟨hflag, hlong⟩ := findFlag_eq_some hfound
  obtain ⟨value, hread, hsupplied, hlookup⟩ := hvalues entry.1 hflag
  rw [hlong] at hsupplied hlookup
  rw [hlookup (hsupplied.mp hname)] at hinline
  have hreadable := (held_rendered hfrontend hflag hread).1 entry.2 hinline
  have hkey := (hsound.1 entry.1 hflag).1
  rw [hkey, hlong]
  exact ⟨hflag, hname, hreadable⟩

/-- No two flags that are written exclude each other. -/
theorem given_agrees :
    spec.Agrees ((resolved.given spec exclude).foldl hold ∅) := by
  obtain ⟨-, -, hconflicts⟩ := resolve_eq_ok hsound h
  have hactive : ∀ name, flagIsActive ((resolved.given spec exclude).foldl hold ∅) name = true →
      name ∈ resolved.supplied := by
    intro name hactive
    by_contra hnot
    have hnone := isSome_of_active hactive
    rw [lookup_foldl_hold_none] at hnone
    · cases hnone
    · intro entry hentry hkey
      apply hnot
      rw [← hkey]
      exact (given_readable hsound hfrontend h hentry).2.1
  intro flag hflag hgiven other hother
  have hexcluded := firstConflict_none_iff.mp hconflicts flag hflag
    (decide_eq_true (hactive flag.key hgiven)) other hother
  by_contra hboth
  exact of_decide_eq_false hexcluded (hactive other (by simpa using hboth))

/-- A flag holds what was read for it, unless it was left out. -/
theorem lookup_given (hflag : flag ∈ spec.flags) :
    ∃ value, readFlag frontend flag = .ok value ∧
      ((resolved.given spec exclude).foldl hold ∅).lookup flag.long =
        if flag.long ∈ exclude then none else value.parsed := by
  obtain ⟨hvalues, -, -⟩ := resolve_eq_ok hsound h
  obtain ⟨value, hread, hsupplied, hlookup⟩ := hvalues flag hflag
  have hkeys : ∀ other ∈ spec.flags, other.key = other.long := fun other hother =>
    (hsound.1 other hother).1
  have hholds := (held_rendered hfrontend hflag hread).2
  have hnothing := (held_nil flag.kind).2
  have hheld := @lookup_foldl_hold Text _ flag (resolved.given spec exclude)
    (fun entry hentry => (given_readable hsound hfrontend h hentry).2.2)
    fun entry hentry hkey =>
      eq_of_key hsound.regular (given_readable hsound hfrontend h hentry).1 hflag hkey
  rw [hkeys flag hflag, givenTo_given hkeys (hsound.find_eq hflag)] at hheld
  refine ⟨value, hread, ?_⟩
  rw [hheld]
  by_cases hexcluded : flag.long ∈ exclude
  · rw [if_neg fun hboth => hboth.2 hexcluded, if_pos hexcluded, hnothing]
  · rw [if_neg hexcluded]
    by_cases hgiven : flag.long ∈ resolved.supplied
    · rw [if_pos ⟨hgiven, hexcluded⟩, hlookup (hsupplied.mp hgiven), Option.elim_some, hholds]
    · rw [if_neg fun hboth => hgiven hboth.1, hnothing, eq_comm, ← Option.not_isSome_iff_eq_none,
        isSome_parsed, ← hsupplied]
      exact hgiven

/-- The flags that were supplied are read back from their argument vector. -/
theorem parse_suppliedArgv (exclude : List Text) :
    ∃ parsed, parseAgainstSpec spec path (resolved.suppliedArgv exclude) = .ok parsed ∧
      ReadsBack frontend spec exclude parsed := by
  have hgiven : ∀ entry ∈ resolved.given spec exclude, entry.1 ∈ spec.flags ∧
      (entry.1.kind.read entry.2).isSome = true := by
    intro entry hentry
    obtain ⟨hflag, _, hreadable⟩ := given_readable hsound hfrontend h hentry
    exact ⟨hflag, hreadable⟩
  have hargv := @suppliedArgv_eq spec resolved exclude fun name hname => by
    obtain ⟨-, hnames, -⟩ := resolve_eq_ok hsound h
    obtain ⟨flag, hflag, rfl⟩ := hnames name hname
    exact ⟨flag, hsound.find_eq hflag⟩
  have hscan := @scanArgs_flagTokens spec path hsound.regular _ hgiven ∅
  have hagrees := @given_agrees spec frontend resolved exclude hsound hfrontend _ h
  refine ⟨⟨(resolved.given spec exclude).foldl hold ∅, ∅, []⟩, ?_, ?_, ?_, rfl, rfl⟩
  · unfold parseAgainstSpec
    rw [hargv, hscan]
    simp only [bind, Except.bind, checkConflicts_eq_ok.mpr hagrees, assignPositionals_nil]
    rfl
  · intro flag hflag
    exact lookup_given hsound hfrontend h hflag
  · intro name hname
    rw [lookup_foldl_hold_none]
    · rfl
    · intro entry hentry hkey
      apply hname
      rw [← hkey, (hsound.1 entry.1 (hgiven entry hentry).1).1]
      exact List.mem_map_of_mem (hgiven entry hentry).1

end

end roundtrip

/-! ## Forwarding and accounting -/

/-- The flags that are supplied for a command are read back from their argument vector, with their
values, and nothing else is; and of every argument vector that a front end accepts, each token is a flag,
the value of a flag, the separator or a positional argument in its place, while no flag that is active
conflicts with another one, what the front end adds included. -/
theorem suppliedArgv_reads_back_and_tokens_accounted :
    (∀ path node frontend commandPath resolved exclude, lookupWithAliases path = some node →
      frontend.Restricted node.spec.flags →
      ResolvedFlags.resolve frontend commandPath node.spec = .ok resolved →
      ∃ parsed, parseRawArgs path (resolved.suppliedArgv exclude) = .ok parsed ∧
        ReadsBack frontend node.spec exclude parsed) ∧
    (∀ path args frontend parsed, parseRawArgsWithProfile path args frontend = .ok parsed →
      ∃ node readings given, lookupWithAliases path = some node ∧
        Accounts node.spec readings args given parsed.arguments ∧
        parsed.flags = (frontendFlagDefaults frontend).foldl (applyFrontendDefault node.spec) given ∧
        node.spec.Agrees parsed.flags) := by
  constructor
  · intro path node frontend commandPath resolved exclude hnode hfrontend hresolved
    have hsound := sound_of_lookup hnode
    rw [parseRawArgs, hnode]
    exact parse_suppliedArgv hsound hfrontend hresolved exclude
  · intro path args frontend parsed h
    unfold parseRawArgsWithProfile at h
    cases hnode : lookupWithAliases path with
    | none =>
      rw [hnode] at h
      cases h
    | some node =>
      rw [hnode] at h
      have hsound := sound_of_lookup hnode
      obtain ⟨readings, given, haccounts, hprofile, hagrees⟩ :=
        parseRawArgsWithProfile_accounts hsound.regular hsound.2.2.1 (hsound.suits frontend) h
      exact ⟨node, readings, given, rfl, haccounts, hprofile, hagrees⟩

/-- Somebody asks for a workflow without permissions, with two flags for the agent. -/
def unattendedWorkflow : CommandFrontend where
  flagBool flag := .ok (if flag = "yolo".toList then some true else none)
  flagString flag := .ok (if flag = "model".toList then some "opus".toList else none)
  flagStrings flag := .ok (if flag = "agent-flag".toList then names ["--search", "-c=1"] else [])
  flagPath _ := .ok none
  flagEnum flag := .ok (if flag = "on-merge-failure".toList then some "keep".toList else none)
  flagU16 _ := .ok none
  flagUsize flag := .ok (if flag = "max-concurrent".toList then some 3 else none)
  inputAvailable := false

/-- Its flags are read back, and so is the workflow of a request with the value of a flag in a token of
its own and a token behind the separator. -/
theorem unattendedWorkflow_reads_back :
    (∃ resolved parsed, ResolvedFlags.resolve unattendedWorkflow (names ["exec", "workflow"])
        execWorkflow.spec = .ok resolved ∧
      resolved.suppliedArgv [] = names ["--agent-flag=--search", "--agent-flag=-c=1",
        "--max-concurrent=3", "--model=opus", "--on-merge-failure=keep", "--yolo"] ∧
      parseRawArgs (names ["exec", "wf"]) (resolved.suppliedArgv []) = .ok parsed ∧
      ReadsBack unattendedWorkflow execWorkflow.spec [] parsed) ∧
    ∃ (parsed : ParsedArgs Text) (readings : _) (given : _), Accounts execWorkflow.spec readings
      (names ["--model", "opus", "-n", "--", "flow.toml"]) given parsed.arguments ∧
      parsed.flags.lookup "yolo".toList = some (.bool true) ∧ execWorkflow.spec.Agrees parsed.flags := by
  have hnode : lookupWithAliases (names ["exec", "wf"]) = some execWorkflow := rfl
  constructor
  · have hargv : (ResolvedFlags.resolve unattendedWorkflow (names ["exec", "workflow"])
        execWorkflow.spec).toOption.map (·.suppliedArgv []) =
          some (names ["--agent-flag=--search", "--agent-flag=-c=1", "--max-concurrent=3", "--model=opus",
            "--on-merge-failure=keep", "--yolo"]) := by decide +kernel
    have hfrontend : unattendedWorkflow.Restricted execWorkflow.spec.flags := by
      refine ⟨fun flag hflag allowed value hkind hanswer => ?_,
        fun flag hflag number hkind hanswer => ?_⟩
      · have hlisted : ∀ flag ∈ execWorkflow.spec.flags, flag.long = "on-merge-failure".toList →
            flag.kind = enumOf ["ask", "agent", "keep"] := by decide +kernel
        simp only [unattendedWorkflow, Except.ok.injEq, Option.ite_none_right_eq_some,
          Option.some.injEq] at hanswer
        rw [hlisted flag hflag hanswer.1, enumOf, FlagKind.enum.injEq] at hkind
        rw [← hkind, ← hanswer.2]
        decide
      · simp only [unattendedWorkflow, Except.ok.injEq, Option.ite_none_right_eq_some,
          Option.some.injEq] at hanswer
        rw [← hanswer.2]
        decide
    cases hresolved : ResolvedFlags.resolve unattendedWorkflow (names ["exec", "workflow"])
        execWorkflow.spec with
    | error error =>
      rw [hresolved] at hargv
      cases hargv
    | ok resolved =>
      rw [hresolved] at hargv
      obtain ⟨parsed, hparsed, hback⟩ := suppliedArgv_reads_back_and_tokens_accounted.1 _ _ _ _ _ []
        hnode hfrontend hresolved
      exact ⟨resolved, parsed, rfl, Option.some.inj hargv, hparsed, hback⟩
  · have hyolo : (parseRawArgsWithProfile (names ["exec", "wf"])
        (names ["--model", "opus", "-n", "--", "flow.toml"]) .api).toOption.bind
          (·.flags.lookup "yolo".toList) = some (.bool true) := by decide +kernel
    cases hparsed : parseRawArgsWithProfile (names ["exec", "wf"])
        (names ["--model", "opus", "-n", "--", "flow.toml"]) .api with
    | error error =>
      rw [hparsed] at hyolo
      cases hyolo
    | ok parsed =>
      rw [hparsed] at hyolo
      obtain ⟨node, readings, given, hfound, haccounts, _, hagrees⟩ :=
        suppliedArgv_reads_back_and_tokens_accounted.2 _ _ _ _ hparsed
      rw [hnode, Option.some.injEq] at hfound
      subst hfound
      exact ⟨parsed, readings, given, haccounts, hyolo, hagrees⟩

end Awman.Catalogue
