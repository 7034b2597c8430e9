import Awman.RawArgs

/-!
# Arguments written by a program

A program that calls a command writes each flag as a token, with its value in the next one.  The
parser reads such arguments as the settings they were written from, provided that no value looks
like a flag.
-/

namespace Awman.RawArgs

open Awman.TextCuts (splitOnce_eq_none)

variable {ν : Type} [DecidableEq ν] {spec : CommandSpec ν} {path : List Text}

/-- A flag as a program sets it. -/
inductive Setting (ν : Type) where
  | value (key : ν) (text : Text)
  | switch (key : ν)
  deriving DecidableEq

/-- The flag that is set. -/
def Setting.key : Setting ν → ν
  | value key _ | switch key => key

/-- The tokens that set the flag. -/
def Setting.argv (spec : CommandSpec ν) : Setting ν → List Text
  | value key text => ['-' :: '-' :: spec.longOf key, text]
  | switch key => ['-' :: '-' :: spec.longOf key]

/-- A kind of flag that takes the text as it is. -/
def FlagKind.admits : FlagKind → Text → Bool
  | string, _ | optionalString, _ | vecString, _ => true
  | enum allowed, text => decide (text ∈ allowed)
  | _, _ => false

/-- A specification in which every flag is found by its name and by the way it is written. -/
structure CommandSpec.Regular (spec : CommandSpec ν) : Prop where
  /-- Flags are written differently. -/
  found : ∀ flag ∈ spec.flags, spec.findFlag flag.long = some flag
  named : ∀ flag ∈ spec.flags, spec.flags.find? (·.key = flag.key) = some flag
  /-- A flag is not written as a bare `--`, nor with its value. -/
  written : ∀ flag ∈ spec.flags, flag.long ≠ [] ∧ '=' ∉ flag.long

/-- The flag takes what it is set to, and the value does not look like a flag. -/
def Setting.Fits (spec : CommandSpec ν) : Setting ν → Prop
  | value key text => text.head? ≠ some '-' ∧
      ∃ flag ∈ spec.flags, flag.key = key ∧ flag.kind.admits text = true
  | switch key => ∃ flag ∈ spec.flags, flag.key = key ∧ flag.kind = .bool

/-- The flags after one more setting. -/
def Setting.apply (spec : CommandSpec ν) (flags : NameMap ν ParsedFlag) :
    Setting ν → NameMap ν ParsedFlag
  | value key text =>
    if (spec.flags.find? (·.key = key)).any (·.kind = .vecString) then
      match flags.lookup key with
      | some (.strings items) => flags.insert key (.strings (items ++ [text]))
      | _ => flags.insert key (.strings [text])
    else flags.insert key (.str text)
  | switch key => flags.insert key (.bool true)

theorem longOf_eq (hspec : spec.Regular) {flag : FlagSpec ν} (hflag : flag ∈ spec.flags) :
    spec.longOf flag.key = flag.long := by
  rw [CommandSpec.longOf, hspec.named flag hflag]
  rfl

/-- A token that is a long flag is read as that flag. -/
theorem scanToken_long (hspec : spec.Regular) {flag : FlagSpec ν} (hflag : flag ∈ spec.flags)
    (next : Option Text) (flags : NameMap ν ParsedFlag) (positionals : List Text) :
    scanToken spec path ('-' :: '-' :: flag.long) next ⟨flags, positionals, false⟩ =
      (applyFlag path flag none next flags).map
        fun result => (⟨result.1, positionals, false⟩, result.2) := by
  obtain ⟨hnonempty, habsent⟩ := hspec.written flag hflag
  have hsplit := splitOnce_eq_none.mpr habsent
  have hfound := hspec.found flag hflag
  unfold scanToken
  rw [if_neg (by simp)]
  cases hlong : flag.long with
  | nil => exact absurd hlong hnonempty
  | cons first rest =>
    rw [hlong] at hsplit hfound
    simp only [hsplit, hfound]
    cases applyFlag path flag none next flags <;> rfl

/-- A value that does not look like a flag is taken. -/
theorem readValue_next {text flag : Text} (hdash : text.head? ≠ some '-') :
    readValue path none (some text) flag = .ok (text, true) := by
  exact if_neg hdash

/-- A value that fits is read as its setting. -/
theorem applyFlag_value (hspec : spec.Regular) {flag : FlagSpec ν} (hflag : flag ∈ spec.flags)
    {text : Text} (hdash : text.head? ≠ some '-') (hadmits : flag.kind.admits text = true)
    (flags : NameMap ν ParsedFlag) :
    applyFlag path flag none (some text) flags =
      .ok ((Setting.value flag.key text).apply spec flags, true) := by
  have hread := @readValue_next path text flag.long hdash
  have hnamed := hspec.named flag hflag
  unfold applyFlag Setting.apply
  simp only [hnamed, Option.any_some]
  cases hkind : flag.kind with
  | string | optionalString =>
    simp only [hread]
    rfl
  | vecString =>
    simp only [hread, decide_true, if_true]
    cases flags.lookup flag.key with
    | none => rfl
    | some value => cases value <;> rfl
  | enum allowed =>
    rw [hkind] at hadmits
    have hmem : text ∈ allowed := of_decide_eq_true hadmits
    simp only [hread]
    exact if_pos hmem
  | bool | path | optionalPath | u16 | usizeAtLeastOne =>
    rw [hkind] at hadmits
    cases hadmits

/-- A flag without a value is read as its setting. -/
theorem applyFlag_switch {flag : FlagSpec ν} (hkind : flag.kind = .bool) (next : Option Text)
    (flags : NameMap ν ParsedFlag) :
    applyFlag path flag none next flags =
      .ok ((Setting.switch flag.key).apply spec flags, false) := by
  unfold applyFlag
  rw [hkind]
  rfl

/-- The tokens of a setting are read as that setting. -/
theorem scanArgs_setting (hspec : spec.Regular) {setting : Setting ν} (hfits : setting.Fits spec)
    (rest : List Text) (flags : NameMap ν ParsedFlag) (positionals : List Text) :
    scanArgs spec path (setting.argv spec ++ rest) ⟨flags, positionals, false⟩ =
      scanArgs spec path rest ⟨setting.apply spec flags, positionals, false⟩ := by
  cases setting with
  | value key text =>
    obtain ⟨hdash, flag, hflag, rfl, hadmits⟩ := hfits
    rw [Setting.argv, longOf_eq hspec hflag, List.cons_append, List.cons_append, List.nil_append,
      scanArgs, scanToken_long hspec hflag, applyFlag_value hspec hflag hdash hadmits]
    rfl
  | switch key =>
    obtain ⟨flag, hflag, rfl, hkind⟩ := hfits
    rw [Setting.argv, longOf_eq hspec hflag]
    have hscan : ∀ next, scanToken spec path ('-' :: '-' :: flag.long) next
        ⟨flags, positionals, false⟩ =
          .ok (⟨(Setting.switch flag.key).apply spec flags, positionals, false⟩, false) := by
      intro next
      rw [scanToken_long hspec hflag, @applyFlag_switch ν _ spec path flag hkind next flags]
      rfl
    cases rest with
    | nil =>
      simp only [List.append_nil, scanArgs, hscan]
      rfl
    | cons next others =>
      rw [List.cons_append, List.nil_append, scanArgs, hscan]
      rfl

/-- The tokens of settings are read as those settings, in their order. -/
theorem scanArgs_settings (hspec : spec.Regular) {settings : List (Setting ν)}
    (hfits : ∀ setting ∈ settings, setting.Fits spec) (flags : NameMap ν ParsedFlag)
    (positionals : List Text) :
    scanArgs spec path (settings.flatMap (Setting.argv spec)) ⟨flags, positionals, false⟩ =
      .ok ⟨settings.foldl (Setting.apply spec) flags, positionals, false⟩ := by
  induction settings generalizing flags with
  | nil => rfl
  | cons setting rest ih =>
    rw [List.flatMap_cons, scanArgs_setting hspec (hfits setting List.mem_cons_self),
      ih fun other hother => hfits other (List.mem_cons_of_mem setting hother)]
    rfl

/-! ## What the flags hold -/

/-- The text a setting gives a flag. -/
def Setting.textFor (key : ν) : Setting ν → Option Text
  | value other text => if other = key then some text else none
  | switch _ => none

/-- The texts a flag is set to. -/
def valuesOf (key : ν) (settings : List (Setting ν)) : List Text :=
  settings.filterMap (Setting.textFor key)

/-- A flag of the given kind after the settings. -/
def settledFlag (kind : FlagKind) (key : ν) (settings : List (Setting ν)) : Option ParsedFlag :=
  match kind with
  | .bool => if Setting.switch key ∈ settings then some (.bool true) else none
  | .vecString =>
    if valuesOf key settings = [] then none else some (.strings (valuesOf key settings))
  | _ => (valuesOf key settings).getLast?.map .str

theorem Setting.lookup_apply_ne {setting : Setting ν} {key : ν} (hkey : key ≠ setting.key)
    (flags : NameMap ν ParsedFlag) :
    (setting.apply spec flags).lookup key = flags.lookup key := by
  cases setting with
  | value other text =>
    rw [Setting.apply]
    split
    · split <;> exact AList.lookup_insert_ne hkey
    · exact AList.lookup_insert_ne hkey
  | switch other => exact AList.lookup_insert_ne hkey

/-- A setting of one flag leaves the others as they are. -/
theorem settledFlag_snoc_ne {setting : Setting ν} {key : ν} (hkey : key ≠ setting.key) (kind : FlagKind)
    (settings : List (Setting ν)) :
    settledFlag kind key (settings ++ [setting]) = settledFlag kind key settings := by
  have hvalues : valuesOf key (settings ++ [setting]) = valuesOf key settings := by
    have hnone : setting.textFor key = none := by
      cases setting with
      | value other text => exact if_neg (Ne.symm hkey)
      | switch other => rfl
    simp [valuesOf, hnone]
  have hswitch : Setting.switch key ∈ settings ++ [setting] ↔ Setting.switch key ∈ settings := by
    have hother : Setting.switch key ≠ setting := by
      intro hsame
      rw [← hsame] at hkey
      exact hkey rfl
    simp [hother]
  unfold settledFlag
  rw [hvalues]
  simp only [hswitch]

/-- Every flag holds what it was set to. -/
theorem lookup_settings (hspec : spec.Regular) {settings : List (Setting ν)}
    (hfits : ∀ setting ∈ settings, setting.Fits spec) {flag : FlagSpec ν} (hflag : flag ∈ spec.flags) :
    (settings.foldl (Setting.apply spec) ∅).lookup flag.key =
      settledFlag flag.kind flag.key settings := by
  induction settings using List.reverseRecOn with
  | nil =>
    unfold settledFlag
    split <;> rfl
  | append_singleton settings setting ih =>
    have hbefore := ih fun other hother => hfits other (List.mem_append_left _ hother)
    have hlast := hfits setting (by simp)
    rw [List.foldl_append, List.foldl_cons, List.foldl_nil]
    by_cases hkey : flag.key = setting.key
    · cases setting with
      | value key text =>
        obtain ⟨-, other, hother, rfl, hadmits⟩ := hlast
        have hsame : other = flag := by
          have hfound := hspec.named other hother
          rw [show other.key = flag.key from hkey.symm, hspec.named flag hflag] at hfound
          exact (Option.some.inj hfound).symm
        subst hsame
        have hvalues : valuesOf other.key (settings ++ [Setting.value other.key text]) =
            valuesOf other.key settings ++ [text] := by
          simp [valuesOf, Setting.textFor]
        rw [Setting.apply, hspec.named other hother, Option.any_some]
        by_cases hvec : other.kind = .vecString
        · rw [hvec] at hbefore ⊢
          by_cases hnone : valuesOf other.key settings = []
          · simp [hbefore, hvalues, settledFlag, hnone, AList.lookup_insert]
          · simp [hbefore, hvalues, settledFlag, hnone, AList.lookup_insert]
        · rw [if_neg (by simpa using hvec), AList.lookup_insert]
          cases hkind : other.kind with
          | vecString => exact absurd hkind hvec
          | string | optionalString | enum allowed => simp [settledFlag, hvalues]
          | bool | path | optionalPath | u16 | usizeAtLeastOne =>
            rw [hkind] at hadmits
            cases hadmits
      | switch key =>
        obtain ⟨other, hother, rfl, hkind⟩ := hlast
        have hsame : other = flag := by
          have hfound := hspec.named other hother
          rw [show other.key = flag.key from hkey.symm, hspec.named flag hflag] at hfound
          exact (Option.some.inj hfound).symm
        subst hsame
        rw [hkind, settledFlag, if_pos (by simp), Setting.apply, AList.lookup_insert]
    · rw [Setting.lookup_apply_ne hkey, hbefore, settledFlag_snoc_ne hkey]

/-- A flag that is not set holds nothing. -/
theorem lookup_foldl_apply_of_notMem {settings : List (Setting ν)} {key : ν}
    (hkey : key ∉ settings.map Setting.key) (flags : NameMap ν ParsedFlag) :
    (settings.foldl (Setting.apply spec) flags).lookup key = flags.lookup key := by
  induction settings generalizing flags with
  | nil => rfl
  | cons setting rest ih =>
    rw [List.map_cons, List.mem_cons, not_or] at hkey
    rw [List.foldl_cons, ih hkey.2, Setting.lookup_apply_ne hkey.1]

theorem key_mem_of_isSome {settings : List (Setting ν)} {key : ν}
    (hsome : ((settings.foldl (Setting.apply spec) ∅).lookup key).isSome = true) :
    key ∈ settings.map Setting.key := by
  by_contra hkey
  rw [lookup_foldl_apply_of_notMem hkey] at hsome
  cases hsome

/-! ## Parsing -/

/-- No two of the flags exclude each other. -/
def CommandSpec.Compatible (spec : CommandSpec ν) (keys : List ν) : Prop :=
  ∀ flag ∈ spec.flags, flag.key ∈ keys → ∀ other ∈ flag.conflictsWith, other ∉ keys

instance (keys : List ν) : Decidable (spec.Compatible keys) :=
  inferInstanceAs (Decidable (∀ flag ∈ spec.flags, flag.key ∈ keys →
    ∀ other ∈ flag.conflictsWith, other ∉ keys))

omit [DecidableEq ν] in
theorem firstConflict_eq_none {keys : List ν} (hkeys : spec.Compatible keys) {active : ν → Bool}
    (hactive : ∀ key, active key = true → key ∈ keys) : firstConflict spec active = none := by
  rw [firstConflict, List.findSome?_eq_none_iff]
  intro flag hflag
  split
  case isFalse => rfl
  case isTrue hgiven =>
    have hnone : flag.conflictsWith.find? active = none := by
      rw [List.find?_eq_none]
      intro other hother hothers
      exact hkeys flag hflag (hactive _ hgiven) other hother (hactive _ hothers)
    rw [hnone]
    rfl

theorem scanArgs_word (htrailing : spec.trailing = false) {word : Text} (hword : word.head? ≠ some '-')
    (rest : List Text) (flags : NameMap ν ParsedFlag) (positionals : List Text) :
    scanArgs spec path (word :: rest) ⟨flags, positionals, false⟩ =
      scanArgs spec path rest ⟨flags, positionals ++ [word], false⟩ := by
  have hscan : ∀ next, scanToken spec path word next ⟨flags, positionals, false⟩ =
      .ok (⟨flags, positionals ++ [word], false⟩, false) := by
    intro next
    unfold scanToken
    rw [if_neg (by simp)]
    split
    · exact absurd rfl hword
    · exact absurd rfl hword
    · exact absurd rfl hword
    · simp [htrailing]
  cases rest with
  | nil | cons =>
    simp only [scanArgs, hscan]
    rfl

/-- Words that are no flags are the positional arguments. -/
theorem scanArgs_words (htrailing : spec.trailing = false) {words : List Text}
    (hwords : ∀ word ∈ words, word.head? ≠ some '-') (rest : List Text) (flags : NameMap ν ParsedFlag)
    (positionals : List Text) :
    scanArgs spec path (words ++ rest) ⟨flags, positionals, false⟩ =
      scanArgs spec path rest ⟨flags, positionals ++ words, false⟩ := by
  induction words generalizing positionals with
  | nil => simp
  | cons word others ih =>
    rw [List.cons_append, scanArgs_word htrailing (hwords word List.mem_cons_self),
      ih fun other hother => hwords other (List.mem_cons_of_mem word hother), List.append_assoc]
    rfl

section profile

variable {settings : List (Setting ν)} {words : List Text}
  {arguments : NameMap Text (List Text)} {paths : List Text}

/-- Words and settings are parsed as what they were written from. -/
theorem parseAgainstSpec_settings (hspec : spec.Regular) (htrailing : spec.trailing = false)
    (hwords : ∀ word ∈ words, word.head? ≠ some '-') (hfits : ∀ setting ∈ settings, setting.Fits spec)
    (hcompatible : spec.Compatible (settings.map Setting.key))
    (hassign : assignPositionals spec.arguments words (∅, []) = ((arguments, paths), [])) :
    parseAgainstSpec spec path (words ++ settings.flatMap (Setting.argv spec)) =
      .ok ⟨settings.foldl (Setting.apply spec) ∅, arguments, paths⟩ := by
  have hconflicts : checkConflicts spec path (settings.foldl (Setting.apply spec) ∅) = .ok () := by
    rw [checkConflicts, firstConflict_eq_none hcompatible]
    intro key hactive
    apply @key_mem_of_isSome _ _ spec
    unfold flagIsActive at hactive
    cases hlookup : (settings.foldl (Setting.apply spec) ∅).lookup key with
    | none =>
      rw [hlookup] at hactive
      cases hactive
    | some value => rfl
  unfold parseAgainstSpec
  rw [scanArgs_words htrailing hwords, scanArgs_settings hspec hfits]
  simp only [bind, Except.bind, List.nil_append, hconflicts, hassign]
  rfl

/-- Flags every front end may use pass. -/
theorem checkVisibility_settings {frontend : FrontendKind}
    (hvisible : ∀ flag ∈ spec.flags, flag.key ∈ settings.map Setting.key → flag.frontends = .all) :
    checkVisibility spec path frontend (settings.foldl (Setting.apply spec) ∅) = .ok () := by
  have hnone : spec.flags.find? (fun flag =>
      ((settings.foldl (Setting.apply spec) ∅).lookup flag.key).isSome &&
        !flag.frontends.allows frontend && !(frontendFlagDefaults frontend).any fun entry =>
          entry.flag = flag.long ∧ entry.forced) = none := by
    rw [List.find?_eq_none]
    intro flag hflag hrefused
    rw [Bool.and_eq_true, Bool.and_eq_true] at hrefused
    have hall := hvisible flag hflag (key_mem_of_isSome hrefused.1.1)
    rw [hall] at hrefused
    exact absurd hrefused.1.2 (by simp [FrontendVisibility.allows])
  unfold checkVisibility
  simp only [hnone]

end profile

/-! ## Reading the flags -/

/-- The command has the flag, and it is of that kind. -/
def CommandSpec.Takes (spec : CommandSpec ν) (key : ν) (kind : FlagKind) : Prop :=
  ∃ flag ∈ spec.flags, flag.key = key ∧ flag.kind = kind

instance (key : ν) (kind : FlagKind) : Decidable (spec.Takes key kind) :=
  inferInstanceAs (Decidable (∃ flag ∈ spec.flags, flag.key = key ∧ flag.kind = kind))

/-- In the context the flag holds what the settings make of it. -/
def BuildContext.Settled (ctx : BuildContext ν) (kind : FlagKind) (key : ν)
    (settings : List (Setting ν)) : Prop :=
  ctx.parsed.flags.lookup key = settledFlag kind key settings

@[simp] theorem valuesOf_nil (key : ν) : valuesOf key [] = [] := rfl

@[simp] theorem valuesOf_append (key : ν) (front back : List (Setting ν)) :
    valuesOf key (front ++ back) = valuesOf key front ++ valuesOf key back :=
  List.filterMap_append

@[simp] theorem valuesOf_value (key other : ν) (text : Text) (settings : List (Setting ν)) :
    valuesOf key (.value other text :: settings) =
      if other = key then text :: valuesOf key settings else valuesOf key settings := by
  by_cases hkey : other = key <;> simp [valuesOf, Setting.textFor, hkey]

@[simp] theorem valuesOf_map (key other : ν) (texts : List Text) :
    valuesOf key (texts.map (Setting.value other)) = if other = key then texts else [] := by
  induction texts with
  | nil => split <;> rfl
  | cons text rest ih =>
    rw [List.map_cons, valuesOf_value, ih]
    split <;> rfl

section

variable {ctx : BuildContext ν} {key : ν}

/-- A flag that takes a text holds the last one, or its default. -/
theorem BuildContext.Settled.str {kind : FlagKind} {settings : List (Setting ν)}
    (hsettled : ctx.Settled kind key settings) (hkind : kind ≠ .bool ∧ kind ≠ .vecString) :
    ctx.str key = (valuesOf key settings).getLast?.or
      (match ctx.defaultOf key with | .str value => some value | _ => none) := by
  have hflag : ctx.parsed.flags.lookup key = (valuesOf key settings).getLast?.map .str := by
    rw [hsettled]
    cases kind with
    | bool => exact absurd rfl hkind.1
    | vecString => exact absurd rfl hkind.2
    | _ => rfl
  unfold BuildContext.str
  rw [hflag]
  cases (valuesOf key settings).getLast? <;> rfl

/-- A flag that may be repeated holds all its texts. -/
theorem BuildContext.Settled.strs {settings : List (Setting ν)}
    (hsettled : ctx.Settled .vecString key settings) : ctx.strs key = valuesOf key settings := by
  unfold BuildContext.strs
  rw [hsettled]
  unfold settledFlag
  by_cases hnone : valuesOf key settings = [] <;> simp [hnone]

/-- A flag without a value is set or not. -/
theorem BuildContext.Settled.bool {settings : List (Setting ν)}
    (hsettled : ctx.Settled .bool key settings) (hdefault : ctx.defaultOf key = .bool false) :
    ctx.bool key = decide (Setting.switch key ∈ settings) := by
  unfold BuildContext.bool
  rw [hsettled, hdefault]
  unfold settledFlag
  by_cases hset : Setting.switch key ∈ settings <;> simp [hset]

end

end Awman.RawArgs
