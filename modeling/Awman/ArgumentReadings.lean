import Awman.ArgumentSettings
import Mathlib.Data.List.ReduceOption

/-!
# How an argument vector is read

The parser takes each token as a flag, the value of a flag, the separator, or a positional argument.
What it makes of the tokens is one reading of the vector: the tokens of the reading, put together, are
the vector, and the flags hold what the reading gives them.
-/

namespace Awman.RawArgs

open Awman.TextCuts (splitOnce)

variable {ν : Type}

/-! ## What flags hold -/

/-- What a flag of the kind makes of a value, or of being given without one. -/
def FlagKind.read : FlagKind → Option Text → Option ParsedFlag
  | bool, inline => some (.bool (inline ≠ some "false".toList))
  | string, some text | optionalString, some text => some (.str text)
  | enum allowed, some text => if text ∈ allowed then some (.str text) else none
  | vecString, some text => some (.strings [text])
  | path, some text | optionalPath, some text => some (.path text)
  | u16, some text => (parseUnsigned (2 ^ 16) text).map .u16
  | usizeAtLeastOne, some text => ((parseUnsigned (2 ^ 64) text).filter (1 ≤ ·)).map .usize
  | _, none => none

/-- A value that is given after others. -/
def ParsedFlag.join (before : Option ParsedFlag) : ParsedFlag → ParsedFlag
  | .strings new =>
    match before with
    | some (.strings items) => .strings (items ++ new)
    | _ => .strings new
  | value => value

variable [DecidableEq ν]

/-- The flags after one of them is given. -/
def hold (flags : NameMap ν ParsedFlag) (given : FlagSpec ν × Option Text) : NameMap ν ParsedFlag :=
  match given.1.kind.read given.2 with
  | some value => flags.insert given.1.key (value.join (flags.lookup given.1.key))
  | none => flags

/-- What a flag of the kind holds after it was given these values: all of them where it may be
repeated, the last one otherwise. -/
def FlagKind.held (kind : FlagKind) (given : List (Option Text)) : Option ParsedFlag :=
  match kind with
  | .vecString =>
    if given.reduceOption = [] then none else some (.strings given.reduceOption)
  | _ => given.getLast?.bind kind.read

/-- The values a flag is given. -/
def givenTo (key : ν) (given : List (FlagSpec ν × Option Text)) : List (Option Text) :=
  (given.filter (·.1.key = key)).map Prod.snd

variable {kind : FlagKind} {inline : Option Text}

omit [DecidableEq ν] in
/-- Only a flag that may be repeated holds a list. -/
theorem read_strings {values : List Text} (hread : kind.read inline = some (.strings values)) :
    kind = .vecString := by
  cases kind with
  | vecString => rfl
  | bool => simp [FlagKind.read] at hread
  | string | optionalString | path | optionalPath | enum allowed | u16 | usizeAtLeastOne =>
    cases inline with
    | none => cases hread
    | some text => simp [FlagKind.read] at hread

/-- A value of any other flag replaces what the flag held. -/
theorem join_eq {value : ParsedFlag} (hkind : kind ≠ .vecString) (hread : kind.read inline = some value)
    (before : Option ParsedFlag) : value.join before = value := by
  cases value with
  | strings values => exact absurd (read_strings hread) hkind
  | bool _ | str _ | path _ | u16 _ | usize _ => rfl

/-- One more value for a flag. -/
theorem held_snoc {given : List (Option Text)} {value : ParsedFlag}
    (hread : kind.read inline = some value) :
    kind.held (given ++ [inline]) = some (value.join (kind.held given)) := by
  by_cases hkind : kind = .vecString
  · subst hkind
    cases inline with
    | none => cases hread
    | some text =>
      have hvalue : ParsedFlag.strings [text] = value := Option.some.inj hread
      have hall : (given ++ [some text]).reduceOption = given.reduceOption ++ [text] := by
        rw [List.reduceOption_append, List.reduceOption_singleton]
        rfl
      rw [← hvalue]
      simp only [FlagKind.held, hall]
      by_cases hnone : given.reduceOption = []
      · simp [hnone, ParsedFlag.join]
      · simp [hnone, ParsedFlag.join]
  · have hheld : kind.held (given ++ [inline]) = kind.read inline := by
      cases kind with
      | vecString => exact absurd rfl hkind
      | _ => simp [FlagKind.held]
    rw [hheld, hread, join_eq hkind hread]

@[simp] theorem givenTo_append (key : ν) (front back : List (FlagSpec ν × Option Text)) :
    givenTo key (front ++ back) = givenTo key front ++ givenTo key back := by
  simp [givenTo]

theorem lookup_hold_ne {flags : NameMap ν ParsedFlag} {given : FlagSpec ν × Option Text} {key : ν}
    (hkey : key ≠ given.1.key) : (hold flags given).lookup key = flags.lookup key := by
  unfold hold
  split
  · exact AList.lookup_insert_ne hkey
  · rfl

/-- Every flag holds what it was given. -/
theorem lookup_foldl_hold {flag : FlagSpec ν} {given : List (FlagSpec ν × Option Text)}
    (hread : ∀ entry ∈ given, (entry.1.kind.read entry.2).isSome = true)
    (hflag : ∀ entry ∈ given, entry.1.key = flag.key → entry.1 = flag) :
    (given.foldl hold ∅).lookup flag.key = flag.kind.held (givenTo flag.key given) := by
  induction given using List.reverseRecOn with
  | nil =>
    cases flag.kind <;> rfl
  | append_singleton given entry ih =>
    have hbefore := ih (fun other hother => hread other (List.mem_append_left _ hother))
      fun other hother => hflag other (List.mem_append_left _ hother)
    obtain ⟨value, hvalue⟩ := Option.isSome_iff_exists.mp (hread entry (by simp))
    rw [List.foldl_append, List.foldl_cons, List.foldl_nil, givenTo_append]
    by_cases hkey : entry.1.key = flag.key
    · have hsame := hflag entry (by simp) hkey
      have hlast : givenTo flag.key [entry] = [entry.2] := by
        simp [givenTo, hkey]
      rw [hlast, ← hsame, held_snoc hvalue, hsame, ← hbefore, hold, hvalue, hsame]
      exact AList.lookup_insert _
    · have hlast : givenTo flag.key [entry] = [] := by
        simp [givenTo, hkey]
      rw [lookup_hold_ne (Ne.symm hkey), hbefore, hlast, List.append_nil]

/-- A flag that is not given holds nothing. -/
theorem lookup_foldl_hold_none {key : ν} {given : List (FlagSpec ν × Option Text)}
    (hkey : ∀ entry ∈ given, entry.1.key ≠ key) (flags : NameMap ν ParsedFlag) :
    (given.foldl hold flags).lookup key = flags.lookup key := by
  induction given generalizing flags with
  | nil => rfl
  | cons entry rest ih =>
    rw [List.foldl_cons, ih fun other hother => hkey other (List.mem_cons_of_mem entry hother),
      lookup_hold_ne (hkey entry List.mem_cons_self).symm]

/-! ## One flag -/

section flags

variable {spec : CommandSpec ν} {path : List Text}

omit [DecidableEq ν] in
theorem readValue_eq_ok {next : Option Text} {flag value : Text} {taken : Bool}
    (h : readValue path inline next flag = .ok (value, taken)) :
    (inline = some value ∧ taken = false) ∨
      (inline = none ∧ next = some value ∧ value.head? ≠ some '-' ∧ taken = true) := by
  unfold readValue at h
  split at h
  · have hparts := Prod.mk.inj (Except.ok.inj h)
    exact Or.inl ⟨by rw [← hparts.1], hparts.2.symm⟩
  · split at h
    · cases h
    · rename_i hdash
      have hparts := Prod.mk.inj (Except.ok.inj h)
      exact Or.inr ⟨rfl, by rw [← hparts.1], by rw [← hparts.1]; exact hdash, hparts.2.symm⟩
  · cases h

/-- A flag that takes a value reads it, and then checks it. -/
theorem applyFlag_eq (path : List Text) (flag : FlagSpec ν) (hkind : flag.kind ≠ .bool)
    (inline next : Option Text) (flags : NameMap ν ParsedFlag) :
    ∃ invalid : Text → CommandError, applyFlag path flag inline next flags =
      (readValue path inline next flag.long).bind fun result =>
        match flag.kind.read (some result.1) with
        | some value =>
          .ok (flags.insert flag.key (value.join (flags.lookup flag.key)), result.2)
        | none => .error (invalid result.1) := by
  unfold applyFlag
  cases hflag : flag.kind with
  | bool => exact absurd hflag hkind
  | string | optionalString | path | optionalPath =>
    refine ⟨fun _ => .unknownCommand path, ?_⟩
    cases readValue path inline next flag.long <;> rfl
  | enum allowed =>
    refine ⟨fun value => .invalidFlagValue path flag.long
      s!"'{shown value}' is not one of {showAllowed allowed}", ?_⟩
    cases readValue path inline next flag.long with
    | error error => rfl
    | ok result =>
      simp only [bind, Except.bind, FlagKind.read]
      by_cases hallowed : result.1 ∈ allowed
      · simp only [if_pos hallowed]
        rfl
      · simp only [if_neg hallowed]
        rfl
  | vecString =>
    refine ⟨fun _ => .unknownCommand path, ?_⟩
    cases readValue path inline next flag.long with
    | error error => rfl
    | ok result =>
      simp only [bind, Except.bind, FlagKind.read, ParsedFlag.join]
      cases flags.lookup flag.key with
      | none => rfl
      | some value => cases value <;> rfl
  | u16 =>
    refine ⟨fun value => .invalidFlagValue path flag.long
      s!"'{shown value}' is not a valid integer (0..=65535)", ?_⟩
    cases readValue path inline next flag.long with
    | error error => rfl
    | ok result =>
      simp only [bind, Except.bind, FlagKind.read]
      cases parseUnsigned (2 ^ 16) result.1 <;> rfl
  | usizeAtLeastOne =>
    refine ⟨fun value => .invalidFlagValue path flag.long
      s!"'{shown value}' is not a positive integer (>= 1)", ?_⟩
    cases readValue path inline next flag.long with
    | error error => rfl
    | ok result =>
      simp only [bind, Except.bind, FlagKind.read]
      cases (parseUnsigned (2 ^ 64) result.1).filter (1 ≤ ·) <;> rfl

omit [DecidableEq ν] in
/-- Only a flag without a value can be given without one. -/
theorem read_none : (kind.read none).isSome = true ↔ kind = .bool := by
  cases kind <;> simp [FlagKind.read]

theorem hold_eq {flag : FlagSpec ν} {value : ParsedFlag} (hread : flag.kind.read inline = some value)
    (flags : NameMap ν ParsedFlag) :
    hold flags (flag, inline) = flags.insert flag.key (value.join (flags.lookup flag.key)) := by
  unfold hold
  simp only [hread]

/-- A flag with its value in the same token takes no other token. -/
theorem applyFlag_inline {flag : FlagSpec ν} (hread : (flag.kind.read inline).isSome = true)
    (next : Option Text) (flags : NameMap ν ParsedFlag) :
    applyFlag path flag inline next flags = .ok (hold flags (flag, inline), false) := by
  obtain ⟨value, hvalue⟩ := Option.isSome_iff_exists.mp hread
  by_cases hkind : flag.kind = .bool
  · rw [hkind] at hvalue
    rw [hold, hkind, hvalue, applyFlag, hkind, ← Option.some.inj hvalue]
    rfl
  · cases inline with
    | none => exact absurd (read_none.mp hread) hkind
    | some text =>
      obtain ⟨invalid, happly⟩ := applyFlag_eq path flag hkind (some text) next flags
      rw [happly, hold_eq hvalue]
      simp only [readValue, Except.bind, hvalue]

/-- A flag that is applied is held, with the value in its token or with the next token. -/
theorem applyFlag_eq_ok {flag : FlagSpec ν} {next : Option Text} {flags after : NameMap ν ParsedFlag}
    {taken : Bool} (h : applyFlag path flag inline next flags = .ok (after, taken)) :
    ∃ value, after = hold flags (flag, value) ∧ (flag.kind.read value).isSome = true ∧
      ((taken = false ∧ value = inline) ∨
        (taken = true ∧ inline = none ∧ value = next ∧ flag.kind ≠ .bool ∧
          ∃ text, next = some text ∧ text.head? ≠ some '-')) := by
  by_cases hkind : flag.kind = .bool
  · have hread : (flag.kind.read inline).isSome = true := by
      rw [hkind]
      rfl
    rw [applyFlag_inline hread] at h
    have hparts := Prod.mk.inj (Except.ok.inj h)
    exact ⟨inline, hparts.1.symm, hread, Or.inl ⟨hparts.2.symm, rfl⟩⟩
  · obtain ⟨invalid, happly⟩ := applyFlag_eq path flag hkind inline next flags
    rw [happly] at h
    cases hvalue : readValue path inline next flag.long with
    | error error =>
      rw [hvalue] at h
      cases h
    | ok result =>
      obtain ⟨text, took⟩ := result
      rw [hvalue] at h
      cases hread : flag.kind.read (some text) with
      | none =>
        simp only [Except.bind, hread] at h
        cases h
      | some value =>
        simp only [Except.bind, hread] at h
        have hparts := Prod.mk.inj (Except.ok.inj h)
        have hafter : after = hold flags (flag, some text) := by
          rw [hold_eq hread, hparts.1]
        refine ⟨some text, hafter, by rw [hread]; rfl, ?_⟩
        rcases readValue_eq_ok hvalue with ⟨hinline, htook⟩ | ⟨hinline, hnext, hdash, htook⟩
        · exact Or.inl ⟨by rw [← hparts.2, htook], hinline.symm⟩
        · exact Or.inr ⟨by rw [← hparts.2, htook], hinline, hnext.symm, hkind, text, hnext, hdash⟩

end flags

/-! ## Readings -/

/-- What the parser takes at once. -/
inductive Reading (ν : Type) where
  | flag (flagSpec : FlagSpec ν) (token : Text) (inline : Option Text)
  | flagAndValue (flagSpec : FlagSpec ν) (token value : Text)
  /-- The bare `--`. -/
  | separator
  | positional (token : Text)

/-- The tokens that are taken. -/
def Reading.tokens : Reading ν → List Text
  | flag _ token _ => [token]
  | flagAndValue _ token value => [token, value]
  | separator => [['-', '-']]
  | positional token => [token]

/-- The flag that is given, with its value. -/
def Reading.given : Reading ν → Option (FlagSpec ν × Option Text)
  | .flag flagSpec _ inline => some (flagSpec, inline)
  | .flagAndValue flagSpec _ value => some (flagSpec, some value)
  | .separator | .positional _ => none

/-- The token of a positional argument. -/
def Reading.argument : Reading ν → Option Text
  | positional token => some token
  | flag _ _ _ | flagAndValue _ _ _ | separator => none

/-- How a flag is written, with a value behind `=` or without one. -/
inductive FlagSpec.Written (flag : FlagSpec ν) : Text → Option Text → Prop
  | long : Written flag ('-' :: '-' :: flag.long) none
  | inline (value : Text) : Written flag ('-' :: '-' :: (flag.long ++ '=' :: value)) (some value)
  | short (letter : Char) (hshort : flag.short = some letter) : Written flag ['-', letter] none

/-- The readings of a command line.  Behind the separator, and from the first token of a trailing
argument on, every token is a positional argument. -/
def CommandSpec.Reads (spec : CommandSpec ν) : Bool → ℕ → List (Reading ν) → Prop
  | _, _, [] => True
  | true, count, .positional _ :: rest => spec.Reads true (count + 1) rest
  | true, _, _ :: _ => False
  | false, count, .flag flag token inline :: rest =>
    (flag ∈ spec.flags ∧ flag.Written token inline ∧ (flag.kind.read inline).isSome = true) ∧
      spec.Reads false count rest
  | false, count, .flagAndValue flag token value :: rest =>
    (flag ∈ spec.flags ∧ flag.Written token none ∧ flag.kind ≠ .bool ∧ value.head? ≠ some '-' ∧
      (flag.kind.read (some value)).isSome = true) ∧ spec.Reads false count rest
  | false, count, .separator :: rest => spec.Reads true count rest
  | false, count, .positional token :: rest =>
    token.head? ≠ some '-' ∧
      spec.Reads (spec.trailing && decide (spec.fixedArgCount < count + 1)) (count + 1) rest

/-! ## What the parser does -/

section scanning

variable {spec : CommandSpec ν} {path : List Text}

/-- The state of the parser after a reading. -/
def Scan.after (spec : CommandSpec ν) (scan : Scan ν) : Reading ν → Scan ν
  | .flag flagSpec _ inline => { scan with flags := hold scan.flags (flagSpec, inline) }
  | .flagAndValue flagSpec _ value => { scan with flags := hold scan.flags (flagSpec, some value) }
  | .separator => { scan with verbatim := true }
  | .positional token =>
    { scan with
      positionals := scan.positionals ++ [token]
      verbatim := scan.verbatim ||
        (spec.trailing && decide (spec.fixedArgCount < scan.positionals.length + 1)) }

/-- The reading may come next. -/
def Scan.Admits (spec : CommandSpec ν) (scan : Scan ν) (reading : Reading ν) : Prop :=
  spec.Reads scan.verbatim scan.positionals.length [reading]

omit [DecidableEq ν] in
theorem findFlag_eq_some {name : Text} {flag : FlagSpec ν} (h : spec.findFlag name = some flag) :
    flag ∈ spec.flags ∧ flag.long = name := by
  have hname := List.find?_some h
  exact ⟨List.mem_of_find?_eq_some h, of_decide_eq_true hname⟩

variable {arg : Text} {scan : Scan ν}

/-- A flag that is applied is a reading of its token, or of its token and the next one. -/
theorem applyFlag_reading {flag : FlagSpec ν} {next : Option Text} {after : NameMap ν ParsedFlag}
    {taken : Bool} (hverbatim : scan.verbatim = false) (hflag : flag ∈ spec.flags)
    (hwritten : flag.Written arg inline)
    (h : applyFlag path flag inline next scan.flags = .ok (after, taken)) :
    ∃ reading : Reading ν, reading.tokens = arg :: (if taken then next.toList else []) ∧
      scan.Admits spec reading ∧ scan.after spec reading = { scan with flags := after } := by
  obtain ⟨value, hafter, hread, htaken⟩ := applyFlag_eq_ok h
  rcases htaken with ⟨htaken, hvalue⟩ | ⟨htaken, hinline, hvalue, hkind, text, hnext, hdash⟩
  · subst hvalue htaken
    refine ⟨.flag flag arg value, rfl, ?_, by rw [hafter]; rfl⟩
    rw [Scan.Admits, hverbatim]
    exact ⟨⟨hflag, hwritten, hread⟩, trivial⟩
  · subst hinline htaken
    rw [hnext] at hvalue
    subst hvalue
    refine ⟨.flagAndValue flag arg text, by rw [hnext]; rfl, ?_, by rw [hafter]; rfl⟩
    rw [Scan.Admits, hverbatim]
    exact ⟨⟨hflag, hwritten, hkind, hdash, hread⟩, trivial⟩

/-- A flag that is looked up and applied is a reading. -/
theorem found_reading {found : Option (FlagSpec ν)} {error : CommandError}
    {next : Option Text} {after : Scan ν} {taken : Bool} (hverbatim : scan.verbatim = false)
    (hfound : ∀ flag, found = some flag → flag ∈ spec.flags ∧ flag.Written arg inline)
    (h : (match found with
      | none => .error error
      | some flag => (applyFlag path flag inline next scan.flags).map fun result =>
        ({ scan with flags := result.1 }, result.2)) = Except.ok (after, taken)) :
    ∃ reading : Reading ν, reading.tokens = arg :: (if taken then next.toList else []) ∧
      scan.Admits spec reading ∧ scan.after spec reading = after := by
  cases found with
  | none => cases h
  | some flag =>
    obtain ⟨hflag, hwritten⟩ := hfound flag rfl
    cases happly : applyFlag path flag inline next scan.flags with
    | error error =>
      simp only [happly] at h
      cases h
    | ok result =>
      obtain ⟨flags, took⟩ := result
      simp only [happly, Except.map] at h
      have hparts := Prod.mk.inj (Except.ok.inj h)
      obtain ⟨reading, htokens, hadmits, hafter⟩ := applyFlag_reading hverbatim hflag hwritten happly
      exact ⟨reading, by rw [htokens, hparts.2], hadmits, by rw [hafter, hparts.1]⟩

/-- Each step of the parser is a reading. -/
theorem scanToken_reading {next : Option Text} {after : Scan ν} {taken : Bool}
    (h : scanToken spec path arg next scan = .ok (after, taken)) :
    ∃ reading : Reading ν, reading.tokens = arg :: (if taken then next.toList else []) ∧
      scan.Admits spec reading ∧ scan.after spec reading = after := by
  unfold scanToken at h
  split at h
  · rename_i hverbatim
    have hparts := Prod.mk.inj (Except.ok.inj h)
    refine ⟨.positional arg, by rw [← hparts.2]; rfl, ?_, ?_⟩
    · rw [Scan.Admits, hverbatim]
      trivial
    · rw [← hparts.1]
      simp [Scan.after, hverbatim]
  · rename_i hverbatim
    rw [Bool.not_eq_true] at hverbatim
    split at h
    · have hparts := Prod.mk.inj (Except.ok.inj h)
      refine ⟨.separator, by rw [← hparts.2]; rfl, ?_, hparts.1⟩
      rw [Scan.Admits, hverbatim]
      trivial
    · next rest _ =>
      cases hcut : splitOnce '=' rest with
      | none =>
        simp only [hcut] at h
        refine found_reading hverbatim (fun flag hfind => ?_) h
        obtain ⟨hflag, hname⟩ := findFlag_eq_some hfind
        rw [← hname]
        exact ⟨hflag, .long⟩
      | some cut =>
        obtain ⟨front, value⟩ := cut
        simp only [hcut] at h
        refine found_reading hverbatim (fun flag hfind => ?_) h
        obtain ⟨hflag, hname⟩ := findFlag_eq_some hfind
        rw [(TextCuts.splitOnce_eq_some.mp hcut).1, ← hname]
        exact ⟨hflag, .inline value⟩
    · next short _ _ =>
      split at h
      · next letter _ _ =>
        refine found_reading hverbatim (fun flag hfind => ?_) h
        have hshort := List.find?_some hfind
        exact ⟨List.mem_of_find?_eq_some hfind, .short letter (of_decide_eq_true hshort)⟩
      · cases h
    · next hdash =>
      have hparts := Prod.mk.inj (Except.ok.inj h)
      refine ⟨.positional arg, by rw [← hparts.2]; rfl, ?_, ?_⟩
      · rw [Scan.Admits, hverbatim]
        refine ⟨fun hhead => ?_, trivial⟩
        cases arg with
        | nil => cases hhead
        | cons first rest =>
          rw [List.head?_cons, Option.some.injEq] at hhead
          subst hhead
          exact hdash rest rfl
      · rw [← hparts.1]
        simp [Scan.after, hverbatim]

theorem reads_cons {reading : Reading ν} {rest : List (Reading ν)}
    (hreading : scan.Admits spec reading)
    (hrest : spec.Reads (scan.after spec reading).verbatim (scan.after spec reading).positionals.length
      rest) : spec.Reads scan.verbatim scan.positionals.length (reading :: rest) := by
  obtain ⟨flags, positionals, verbatim⟩ := scan
  cases verbatim with
  | true =>
    cases reading with
    | positional token => simpa [Scan.after, CommandSpec.Reads] using hrest
    | flag | flagAndValue | separator => exact hreading.elim
  | false =>
    cases reading with
    | positional token =>
      have hdash := hreading.1
      refine ⟨hdash, ?_⟩
      simpa [Scan.after] using hrest
    | flag | flagAndValue => exact ⟨hreading.1, hrest⟩
    | separator => exact hrest

/-- The parser finds a reading of all the tokens, each of them once and in their order. -/
theorem scanArgs_reading {args : List Text} {after : Scan ν}
    (h : scanArgs spec path args scan = .ok after) :
    ∃ readings : List (Reading ν), readings.flatMap Reading.tokens = args ∧
      spec.Reads scan.verbatim scan.positionals.length readings ∧
      readings.foldl (Scan.after spec) scan = after := by
  induction args, scan using scanArgs.induct generalizing after with
  | case1 scan =>
    have hafter := Except.ok.inj h
    exact ⟨[], rfl, by simp [CommandSpec.Reads], hafter⟩
  | case2 arg scan =>
    rw [scanArgs] at h
    cases hstep : scanToken spec path arg none scan with
    | error error =>
      rw [hstep] at h
      cases h
    | ok result =>
      obtain ⟨middle, taken⟩ := result
      rw [hstep] at h
      have hmiddle : middle = after := Except.ok.inj h
      obtain ⟨reading, htokens, hadmits, hafter⟩ := scanToken_reading hstep
      refine ⟨[reading], ?_, hadmits, by rw [← hmiddle, ← hafter]; rfl⟩
      rw [List.flatMap_singleton, htokens]
      cases taken <;> rfl
  | case3 arg next rest scan ihtaken ihleft =>
    rw [scanArgs] at h
    cases hstep : scanToken spec path arg (some next) scan with
    | error error =>
      rw [hstep] at h
      cases h
    | ok result =>
      obtain ⟨middle, taken⟩ := result
      rw [hstep] at h
      obtain ⟨reading, htokens, hadmits, hafter⟩ := scanToken_reading hstep
      subst hafter
      cases taken with
      | true =>
        obtain ⟨readings, hall, hreads, hfold⟩ := ihtaken _ h
        refine ⟨reading :: readings, ?_, reads_cons hadmits hreads, hfold⟩
        rw [List.flatMap_cons, htokens, hall]
        rfl
      | false =>
        obtain ⟨readings, hall, hreads, hfold⟩ := ihleft _ h
        refine ⟨reading :: readings, ?_, reads_cons hadmits hreads, hfold⟩
        rw [List.flatMap_cons, htokens, hall]
        rfl

theorem foldl_after_flags (readings : List (Reading ν)) (scan : Scan ν) :
    (readings.foldl (Scan.after spec) scan).flags =
      (readings.filterMap Reading.given).foldl hold scan.flags := by
  induction readings generalizing scan with
  | nil => rfl
  | cons reading rest ih =>
    rw [List.foldl_cons, ih]
    cases reading <;> rfl

theorem foldl_after_positionals (readings : List (Reading ν)) (scan : Scan ν) :
    (readings.foldl (Scan.after spec) scan).positionals =
      scan.positionals ++ readings.filterMap Reading.argument := by
  induction readings generalizing scan with
  | nil => simp
  | cons reading rest ih =>
    rw [List.foldl_cons, ih]
    cases reading with
    | positional token => simp [Scan.after, Reading.argument]
    | flag | flagAndValue | separator => rfl

omit [DecidableEq ν] in
/-- The flags a reading gives are flags of the command, with values they take. -/
theorem CommandSpec.Reads.given {verbatim : Bool} {count : ℕ} {readings : List (Reading ν)}
    (hreads : spec.Reads verbatim count readings) :
    ∀ entry ∈ readings.filterMap Reading.given,
      entry.1 ∈ spec.flags ∧ (entry.1.kind.read entry.2).isSome = true := by
  induction readings generalizing verbatim count with
  | nil => simp
  | cons reading rest ih =>
    cases verbatim with
    | true =>
      cases reading with
      | positional token => exact ih hreads
      | flag | flagAndValue | separator => exact hreads.elim
    | false =>
      cases reading with
      | positional token => exact ih hreads.2
      | separator => exact ih hreads
      | flag flagSpec token inline =>
        intro entry hentry
        rcases List.mem_cons.mp hentry with hhere | hrest
        · rw [hhere]
          exact ⟨hreads.1.1, hreads.1.2.2⟩
        · exact ih hreads.2 entry hrest
      | flagAndValue flagSpec token value =>
        intro entry hentry
        rcases List.mem_cons.mp hentry with hhere | hrest
        · rw [hhere]
          exact ⟨hreads.1.1, hreads.1.2.2.2.2⟩
        · exact ih hreads.2 entry hrest

end scanning

end Awman.RawArgs
