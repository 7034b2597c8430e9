import Awman.CommandCatalogue
import Awman.Library.Checks
import Awman.Library.OrderedSets
import Awman.NumberTexts

/-!
# Resolved flags

The flags of a command are read from a front end once: what it supplies, the defaults of the catalogue,
and what the flags imply.  The flags that were supplied are written out again as an argument vector, for
the server that a command is forwarded to.
-/

namespace Awman.Catalogue

open Awman.RawArgs

/-- The value of a flag. -/
inductive ResolvedValue where
  | bool (value : Bool)
  | str (value : Option Text)
  | strs (values : List Text)
  /-- A path is made from a text by every front end. -/
  | path (value : Option Text)
  | u16 (value : Option UInt16)
  | usize (value : Option UInt64)
  deriving DecidableEq

/-- What a front end answers for the flags of one command. -/
structure CommandFrontend where
  flagBool : Text → Except CommandError (Option Bool)
  flagString : Text → Except CommandError (Option Text)
  flagStrings : Text → Except CommandError (List Text)
  flagPath : Text → Except CommandError (Option Text)
  flagEnum : Text → Except CommandError (Option Text)
  flagU16 : Text → Except CommandError (Option UInt16)
  flagUsize : Text → Except CommandError (Option UInt64)
  /-- There is somewhere to read an answer from. -/
  inputAvailable : Bool

/-- Read a flag by its kind. -/
def readFlag (frontend : CommandFrontend) (flag : FlagSpec Text) : Except CommandError ResolvedValue :=
  match flag.kind with
  | .bool => (fun read => .bool (read.getD false)) <$> frontend.flagBool flag.long
  | .string | .optionalString => .str <$> frontend.flagString flag.long
  | .enum _ => .str <$> frontend.flagEnum flag.long
  | .vecString => .strs <$> frontend.flagStrings flag.long
  | .path | .optionalPath => .path <$> frontend.flagPath flag.long
  | .u16 => .u16 <$> frontend.flagU16 flag.long
  | .usizeAtLeastOne => .usize <$> frontend.flagUsize flag.long

def isSupplied : ResolvedValue → Bool
  | .bool value => value
  | .str value | .path value => value.isSome
  | .strs values => !values.isEmpty
  | .u16 value => value.isSome
  | .usize value => value.isSome

/-- Fill a flag that is not supplied from the catalogue. -/
def applyDefault (read : ResolvedValue) (flag : FlagSpec Text) : ResolvedValue :=
  match read, flag.default with
  | .bool false, .bool default => .bool default
  | .str none, .str default => .str (some default)
  | .u16 none, .u16 default => .u16 (some (UInt16.ofNat default))
  | other, _ => other

/-- The flags of a command, resolved once. -/
structure ResolvedFlags where
  command : List Text
  values : NameMap Text ResolvedValue
  /-- What the front end supplied, before defaults and implications. -/
  supplied : OrderedSet Text

/-- What stands behind the name of a flag, in each of its tokens. -/
def ResolvedValue.rendered : ResolvedValue → List (Option Text)
  | bool value => if value then [none] else []
  | str value | path value => value.toList.map some
  | strs values => values.map some
  | u16 value => value.toList.map fun number => some (Nat.toDigits 10 number.toNat)
  | usize value => value.toList.map fun number => some (Nat.toDigits 10 number.toNat)

/-- A flag as one token. -/
def flagToken (long : Text) : Option Text → Text
  | none => '-' :: '-' :: long
  | some value => '-' :: '-' :: (long ++ '=' :: value)

/-- The flags that were supplied, except some, as an argument vector. -/
def ResolvedFlags.suppliedArgv (flags : ResolvedFlags) (exclude : List Text) : List Text :=
  (flags.supplied.elements.filter (· ∉ exclude)).flatMap fun name =>
    ((flags.values.lookup name).elim [] ResolvedValue.rendered).map (flagToken name)

/-! ## Resolving -/

/-- Read all flags. -/
def readFlags (frontend : CommandFrontend) :
    List (FlagSpec Text) → Except CommandError (List (FlagSpec Text × ResolvedValue))
  | [] => .ok []
  | flag :: rest => do
    let read ← readFlag frontend flag
    let reads ← readFlags frontend rest
    return (flag, read) :: reads

/-- Two supplied flags must not exclude each other. -/
def validateConflicts (path : List Text) (spec : CommandSpec Text) (supplied : OrderedSet Text) :
    Except CommandError Unit :=
  match firstConflict spec (fun name => decide (name ∈ supplied)) with
  | none => .ok ()
  | some (flag, conflict) => .error (.mutuallyExclusive path flag.long conflict)

/-- Set a flag that is `false`. -/
def setTrue (values : NameMap Text ResolvedValue) (target : Text) : NameMap Text ResolvedValue :=
  values.mapEntries fun name value =>
    if name = target ∧ value = .bool false then .bool true else value

/-- Set what the flags that are `true` imply. -/
def implyPass (flags : List (FlagSpec Text)) (values : NameMap Text ResolvedValue) :
    NameMap Text ResolvedValue :=
  flags.foldl (fun values flag =>
    if values.lookup flag.long = some (.bool true) then flag.implies.foldl setTrue values
    else values) values

/-- Repeat until nothing changes. -/
def implyAll (flags : List (FlagSpec Text)) : ℕ → NameMap Text ResolvedValue → NameMap Text ResolvedValue
  | 0, values => values
  | passes + 1, values =>
    let after := implyPass flags values
    if after.entries = values.entries then values else implyAll flags passes after

/-- Every pass sets a flag that was `false`, so there are no more passes than flags and a last one. -/
def closeOverImplications (flags : List (FlagSpec Text)) (values : NameMap Text ResolvedValue) :
    NameMap Text ResolvedValue :=
  implyAll flags (values.entries.length + 1) values

/-- Whether nobody is asked. -/
def isNonInteractive (explicitlyRequested inputAvailable : Bool) : Bool :=
  explicitlyRequested || !inputAvailable

def applyNonInteractiveRule (spec : CommandSpec Text) (inputAvailable : Bool)
    (values : NameMap Text ResolvedValue) : NameMap Text ResolvedValue :=
  if (spec.findFlag nonInteractive).isNone then values
  else
    let explicit := decide (values.lookup nonInteractive = some (.bool true))
    values.insert nonInteractive (.bool (isNonInteractive explicit inputAvailable))

/-- The values of the flags that were read, and of those that were not. -/
def defaulted (reads : List (FlagSpec Text × ResolvedValue)) : NameMap Text ResolvedValue :=
  reads.foldl (fun values read => values.insert read.1.long (applyDefault read.2 read.1)) ∅

def suppliedNames (reads : List (FlagSpec Text × ResolvedValue)) : OrderedSet Text :=
  OrderedSet.ofList ((reads.filter (isSupplied ·.2)).map (·.1.long))

/-- Read, refuse what excludes each other, give defaults, and close over the implications. -/
def ResolvedFlags.resolve (frontend : CommandFrontend) (path : List Text) (spec : CommandSpec Text) :
    Except CommandError ResolvedFlags := do
  let reads ← readFlags frontend spec.flags
  let supplied := suppliedNames reads
  validateConflicts path spec supplied
  let values := closeOverImplications spec.flags (defaulted reads)
  return ⟨path, applyNonInteractiveRule spec frontend.inputAvailable values, supplied⟩

/-! ## The implications come to an end -/

section implications

variable {flags : List (FlagSpec Text)} {values after : NameMap Text ResolvedValue}

/-- How many flags are `false`. -/
def falses (values : NameMap Text ResolvedValue) : ℕ :=
  values.entries.countP (·.2 = .bool false)

/-- Nothing is changed, or a flag that was `false` is not any more. -/
def Falls (values after : NameMap Text ResolvedValue) : Prop :=
  after = values ∨ falses after < falses values

theorem Falls.trans {last : NameMap Text ResolvedValue} (hfirst : Falls values after)
    (hsecond : Falls after last) : Falls values last := by
  rcases hfirst with rfl | hfewer
  · exact hsecond
  · rcases hsecond with rfl | hless
    · exact Or.inr hfewer
    · exact Or.inr (Nat.lt_trans hless hfewer)

theorem falls_setTrue (values : NameMap Text ResolvedValue) (target : Text) :
    Falls values (setTrue values target) := by
  have hentries : ∀ entries : List (Sigma fun _ : Text => ResolvedValue),
      let set := entries.map fun entry => (⟨entry.1,
        if entry.1 = target ∧ entry.2 = .bool false then .bool true else entry.2⟩ :
          Sigma fun _ : Text => ResolvedValue)
      set = entries ∨ set.countP (·.2 = .bool false) < entries.countP (·.2 = .bool false) := by
    intro entries
    induction entries with
    | nil => exact Or.inl rfl
    | cons entry rest ih =>
      by_cases hset : entry.1 = target ∧ entry.2 = .bool false
      · right
        rw [List.map_cons, if_pos hset, List.countP_cons_of_neg (by simp),
          List.countP_cons_of_pos (by simp [hset.2])]
        rcases ih with hsame | hfewer
        · rw [hsame]
          omega
        · omega
      · rw [List.map_cons, if_neg hset]
        rcases ih with hsame | hfewer
        · exact Or.inl (by rw [hsame])
        · right
          rw [List.countP_cons, List.countP_cons]
          exact Nat.add_lt_add_right hfewer _
  rcases hentries values.entries with hsame | hfewer
  · exact Or.inl (AList.ext hsame)
  · exact Or.inr hfewer

/-- Steps that each change nothing or leave fewer flags `false` do so together. -/
theorem falls_foldl {α : Type} {step : NameMap Text ResolvedValue → α → NameMap Text ResolvedValue}
    (hstep : ∀ values a, Falls values (step values a)) (steps : List α)
    (values : NameMap Text ResolvedValue) : Falls values (steps.foldl step values) := by
  induction steps generalizing values with
  | nil => exact Or.inl rfl
  | cons first rest ih => exact (hstep values first).trans (ih _)

/-- When such steps change nothing together, none of them changes anything. -/
theorem step_eq_of_foldl_eq {α : Type}
    {step : NameMap Text ResolvedValue → α → NameMap Text ResolvedValue}
    (hstep : ∀ values a, Falls values (step values a)) {steps : List α}
    (hsame : steps.foldl step values = values) {a : α} (ha : a ∈ steps) : step values a = values := by
  induction steps with
  | nil => cases ha
  | cons first rest ih =>
    have hfirst : step values first = values := by
      rcases hstep values first with heq | hfewer
      · exact heq
      · have hrest := falls_foldl hstep rest (step values first)
        rw [List.foldl_cons] at hsame
        rw [hsame] at hrest
        rcases hrest with heq | hless
        · exact heq.symm
        · omega
    rcases List.mem_cons.mp ha with rfl | hrest
    · exact hfirst
    · rw [List.foldl_cons, hfirst] at hsame
      exact ih hsame hrest

theorem falls_targets (targets : List Text) (values : NameMap Text ResolvedValue) :
    Falls values (targets.foldl setTrue values) := falls_foldl falls_setTrue targets values

/-- One flag of a pass sets what it implies, or nothing. -/
theorem falls_flag (values : NameMap Text ResolvedValue) (flag : FlagSpec Text) :
    Falls values (if values.lookup flag.long = some (.bool true) then flag.implies.foldl setTrue values
      else values) := by
  split
  · exact falls_targets flag.implies values
  · exact Or.inl rfl

theorem falls_implyPass (flags : List (FlagSpec Text)) (values : NameMap Text ResolvedValue) :
    Falls values (implyPass flags values) := falls_foldl falls_flag flags values

/-- With more passes than flags that are `false`, the last pass changes nothing. -/
theorem implyAll_fixed {passes : ℕ} (hpasses : falses values < passes) :
    implyPass flags (implyAll flags passes values) = implyAll flags passes values := by
  induction passes generalizing values with
  | zero => omega
  | succ passes ih =>
    rw [implyAll]
    split
    · rename_i hsame
      exact AList.ext hsame
    · rename_i hchanged
      rcases falls_implyPass flags values with hsame | hfewer
      · exact absurd (congrArg AList.entries hsame) hchanged
      · exact ih (by omega)

/-- One more pass changes nothing. -/
theorem implyPass_closed (flags : List (FlagSpec Text)) (values : NameMap Text ResolvedValue) :
    implyPass flags (closeOverImplications flags values) = closeOverImplications flags values :=
  implyAll_fixed (Nat.lt_succ_of_le List.countP_le_length)

/-- Every flag is as it was, or was `false` and is `true` now. -/
def Raises (values after : NameMap Text ResolvedValue) : Prop :=
  ∀ name, after.lookup name = values.lookup name ∨
    (values.lookup name = some (.bool false) ∧ after.lookup name = some (.bool true))

theorem Raises.refl (values : NameMap Text ResolvedValue) : Raises values values :=
  fun _ => Or.inl rfl

theorem Raises.trans {last : NameMap Text ResolvedValue} (hfirst : Raises values after)
    (hsecond : Raises after last) : Raises values last := by
  intro name
  rcases hfirst name with hsame | ⟨hwas, hset⟩
  · rw [← hsame]
    exact hsecond name
  · rcases hsecond name with hkept | ⟨hfalse, -⟩
    · exact Or.inr ⟨hwas, hkept.trans hset⟩
    · rw [hset] at hfalse
      cases hfalse

/-- A target that was `false` is `true` after it was set. -/
theorem lookup_setTrue (target : Text) (h : values.lookup target = some (.bool false)) :
    (setTrue values target).lookup target = some (.bool true) := by
  simp [setTrue, h]

theorem raises_setTrue (values : NameMap Text ResolvedValue) (target : Text) :
    Raises values (setTrue values target) := by
  intro name
  cases hlookup : values.lookup name with
  | none => simp [setTrue, hlookup]
  | some value =>
    by_cases hset : name = target ∧ value = .bool false
    · obtain ⟨rfl, rfl⟩ := hset
      exact Or.inr ⟨rfl, lookup_setTrue name hlookup⟩
    · exact Or.inl (by simp [setTrue, hlookup, hset])

theorem raises_foldl {α : Type} {step : NameMap Text ResolvedValue → α → NameMap Text ResolvedValue}
    (hstep : ∀ values a, Raises values (step values a)) (steps : List α)
    (values : NameMap Text ResolvedValue) : Raises values (steps.foldl step values) := by
  induction steps generalizing values with
  | nil => exact .refl values
  | cons first rest ih => exact (hstep values first).trans (ih _)

theorem raises_implyPass (flags : List (FlagSpec Text)) (values : NameMap Text ResolvedValue) :
    Raises values (implyPass flags values) := by
  refine raises_foldl (fun values flag => ?_) flags values
  split
  · exact raises_foldl raises_setTrue flag.implies values
  · exact .refl values

theorem raises_implyAll (flags : List (FlagSpec Text)) (passes : ℕ)
    (values : NameMap Text ResolvedValue) : Raises values (implyAll flags passes values) := by
  induction passes generalizing values with
  | zero => exact .refl values
  | succ passes ih =>
    rw [implyAll]
    split
    · exact .refl values
    · exact (raises_implyPass flags values).trans (ih _)

/-- A flag that is not `false` keeps its value. -/
theorem Raises.keeps (h : Raises values after) {name : Text} {value : ResolvedValue}
    (hvalue : value ≠ .bool false) (hlookup : values.lookup name = some value) :
    after.lookup name = some value := by
  rcases h name with hsame | ⟨hfalse, -⟩
  · rw [hsame, hlookup]
  · rw [hlookup] at hfalse
    exact absurd (Option.some.inj hfalse) hvalue

/-- The closure only sets flags that are `false`, and afterwards no flag that is `true` implies one
that is still `false`. -/
theorem closeOverImplications_closed (flags : List (FlagSpec Text))
    (values : NameMap Text ResolvedValue) :
    Raises values (closeOverImplications flags values) ∧
    ∀ flag ∈ flags, (closeOverImplications flags values).lookup flag.long = some (.bool true) →
      ∀ target ∈ flag.implies,
        (closeOverImplications flags values).lookup target ≠ some (.bool false) := by
  refine ⟨raises_implyAll flags _ values, ?_⟩
  intro flag hflag htrue target htarget hfalse
  have hsame := step_eq_of_foldl_eq falls_flag (implyPass_closed flags values) hflag
  rw [if_pos htrue] at hsame
  have hset := step_eq_of_foldl_eq falls_setTrue hsame htarget
  have hlookup := lookup_setTrue target hfalse
  rw [hset, hfalse] at hlookup
  cases hlookup

end implications

/-! ## What is supplied -/

section resolve

variable {frontend : CommandFrontend} {path : List Text} {spec : CommandSpec Text}

variable {reads : List (FlagSpec Text × ResolvedValue)}

/-- Every flag is read, in its order. -/
theorem readFlags_eq_ok {flags : List (FlagSpec Text)} (h : readFlags frontend flags = .ok reads) :
    reads.map Prod.fst = flags ∧ ∀ read ∈ reads, readFlag frontend read.1 = .ok read.2 := by
  induction flags generalizing reads with
  | nil =>
    have hreads : [] = reads := Except.ok.inj h
    rw [← hreads]
    exact ⟨rfl, by simp⟩
  | cons flag rest ih =>
    rw [readFlags] at h
    obtain ⟨value, hvalue, h⟩ := Checks.bind_eq_ok.mp h
    obtain ⟨others, hothers, h⟩ := Checks.bind_eq_ok.mp h
    have hreads : (flag, value) :: others = reads := Checks.pure_eq_ok.mp h
    obtain ⟨hflags, hvalues⟩ := ih hothers
    rw [← hreads]
    refine ⟨by rw [List.map_cons, hflags], fun read hread => ?_⟩
    rcases List.mem_cons.mp hread with hhere | hin
    · rw [hhere]
      exact hvalue
    · exact hvalues read hin

theorem lookup_defaulted (hdistinct : (reads.map (·.1.long)).Nodup) {read : FlagSpec Text × ResolvedValue}
    (hread : read ∈ reads) :
    (defaulted reads).lookup read.1.long = some (applyDefault read.2 read.1) := by
  induction reads using List.reverseRecOn with
  | nil => cases hread
  | append_singleton front last ih =>
    have hinsert : defaulted (front ++ [last]) =
        (defaulted front).insert last.1.long (applyDefault last.2 last.1) := by
      rw [defaulted, List.foldl_append]
      rfl
    rw [hinsert]
    rcases List.mem_append.mp hread with hfront | hlast
    · rw [List.map_append, List.nodup_append] at hdistinct
      have hne : read.1.long ≠ last.1.long :=
        hdistinct.2.2 _ (List.mem_map_of_mem hfront) _ (by simp)
      rw [AList.lookup_insert_ne hne, ih hdistinct.1 hfront]
    · rw [List.mem_singleton.mp hlast, AList.lookup_insert]

theorem applyDefault_of_supplied {read : ResolvedValue} (flag : FlagSpec Text)
    (hsupplied : isSupplied read = true) : applyDefault read flag = read := by
  unfold applyDefault
  split
  · cases hsupplied
  · cases hsupplied
  · cases hsupplied
  · rfl

theorem mem_suppliedNames {name : Text} :
    name ∈ suppliedNames reads ↔ ∃ read ∈ reads, isSupplied read.2 = true ∧ read.1.long = name := by
  rw [suppliedNames, OrderedSet.mem_ofList, List.mem_map]
  constructor
  · rintro ⟨read, hread, hname⟩
    obtain ⟨hmem, hsupplied⟩ := List.mem_filter.mp hread
    exact ⟨read, hmem, hsupplied, hname⟩
  · rintro ⟨read, hmem, hsupplied, hname⟩
    exact ⟨read, List.mem_filter.mpr ⟨hmem, hsupplied⟩, hname⟩

/-- A flag without a value that is supplied is `true`. -/
theorem readFlag_bool {flag : FlagSpec Text} (hkind : flag.kind = .bool) {value : ResolvedValue}
    (hread : readFlag frontend flag = .ok value) (hsupplied : isSupplied value = true) :
    value = .bool true := by
  unfold readFlag at hread
  simp only [hkind, Checks.map_eq_ok] at hread
  obtain ⟨answer, _, rfl⟩ := hread
  rw [ResolvedValue.bool.injEq]
  exact hsupplied

/-- A flag that is supplied keeps its value. -/
theorem lookup_applyNonInteractiveRule {values : NameMap Text ResolvedValue} {name : Text}
    {value : ResolvedValue} (hlookup : values.lookup name = some value)
    (hflag : name = nonInteractive → value = .bool true) (inputAvailable : Bool) :
    (applyNonInteractiveRule spec inputAvailable values).lookup name = some value := by
  unfold applyNonInteractiveRule
  split
  · exact hlookup
  · by_cases hname : name = nonInteractive
    · have hvalue := hflag hname
      subst hname hvalue
      simp [hlookup, isNonInteractive]
    · simp only [AList.lookup_insert_ne hname, hlookup]

/-- Resolving reads every flag; what is supplied is kept, and excludes nothing that is supplied. -/
theorem resolve_eq_ok (hsound : Sound spec) {resolved : ResolvedFlags}
    (h : ResolvedFlags.resolve frontend path spec = .ok resolved) :
    (∀ flag ∈ spec.flags, ∃ value, readFlag frontend flag = .ok value ∧
      (flag.long ∈ resolved.supplied ↔ isSupplied value = true) ∧
      (isSupplied value = true → resolved.values.lookup flag.long = some value)) ∧
    (∀ name ∈ resolved.supplied, ∃ flag ∈ spec.flags, flag.long = name) ∧
    firstConflict spec (fun name => decide (name ∈ resolved.supplied)) = none := by
  unfold ResolvedFlags.resolve at h
  obtain ⟨reads, hreads, h⟩ := Checks.bind_eq_ok.mp h
  obtain ⟨_, hconflicts, h⟩ := Checks.bind_eq_ok.mp h
  have hresolved := Checks.pure_eq_ok.mp h
  obtain ⟨hflags, hvalues⟩ := readFlags_eq_ok hreads
  have hdistinct : (reads.map (·.1.long)).Nodup := by
    have hlongs : reads.map (·.1.long) = spec.flags.map FlagSpec.long := by
      rw [← hflags, List.map_map]
      rfl
    rw [hlongs]
    exact hsound.2.1
  have hsupplied : resolved.supplied = suppliedNames reads := by rw [← hresolved]
  rw [hsupplied]
  refine ⟨fun flag hflag => ?_, fun name hname => ?_, ?_⟩
  · rw [← hflags] at hflag
    obtain ⟨read, hread, rfl⟩ := List.mem_map.mp hflag
    have hmem : read.1.long ∈ suppliedNames reads ↔ isSupplied read.2 = true := by
      rw [mem_suppliedNames]
      constructor
      · rintro ⟨other, hother, hgiven, hlong⟩
        have hsame : other = read := List.inj_on_of_nodup_map hdistinct hother hread hlong
        rw [← hsame]
        exact hgiven
      · exact fun hgiven => ⟨read, hread, hgiven, rfl⟩
    refine ⟨read.2, hvalues read hread, hmem, fun hgiven => ?_⟩
    have hdefault := lookup_defaulted hdistinct hread
    rw [applyDefault_of_supplied read.1 hgiven] at hdefault
    have hnotFalse : read.2 ≠ .bool false := by
      intro hfalse
      rw [hfalse] at hgiven
      cases hgiven
    have hclosed : (closeOverImplications spec.flags (defaulted reads)).lookup read.1.long =
        some read.2 :=
      (raises_implyAll _ _ _).keeps hnotFalse hdefault
    rw [← hresolved]
    refine lookup_applyNonInteractiveRule hclosed (fun hname => ?_) _
    have hkind := (hsound.1 read.1 (hflags ▸ hflag)).2.2.2 hname
    exact readFlag_bool hkind (hvalues read hread) hgiven
  · obtain ⟨read, hread, _, hlong⟩ := mem_suppliedNames.mp hname
    exact ⟨read.1, hflags ▸ List.mem_map_of_mem hread, hlong⟩
  · unfold validateConflicts at hconflicts
    split at hconflicts
    · assumption
    · cases hconflicts

end resolve

end Awman.Catalogue
