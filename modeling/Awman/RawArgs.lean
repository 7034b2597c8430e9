import Awman.Library.NameMaps
import Awman.Library.TextCuts
import Mathlib.Data.String.Basic

/-!
# Raw arguments

A front end that receives an argument vector has it parsed against the specification of the command:
which flags there are, what kind of value each one takes, and which arguments stand without a flag.
Flags are named by a type of their own, so that a command cannot ask for a flag it does not know.
-/

namespace Awman.RawArgs

open Awman.TextCuts (splitOnce)

/-- A text. -/
abbrev Text := List Char

/-- What a flag takes. -/
inductive FlagKind where
  /-- No value; presence is `true`. -/
  | bool
  | string
  /-- A text that may be left out. -/
  | optionalString
  | enum (allowed : List Text)
  /-- A text; the flag may be repeated. -/
  | vecString
  | path
  /-- A path that may be left out. -/
  | optionalPath
  /-- A number below `2 ^ 16`. -/
  | u16
  /-- A positive number below `2 ^ 64`. -/
  | usizeAtLeastOne
  deriving DecidableEq

/-- The value of a flag that is not given. -/
inductive FlagDefault where
  | none
  | bool (value : Bool)
  | str (value : Text)
  | u16 (value : Nat)
  | emptyVec
  deriving DecidableEq

/-- Which front end an invocation comes from. -/
inductive FrontendKind where
  | cli
  | tui
  | api
  | squadDaemon
  deriving DecidableEq

/-- Which front ends may use a flag. -/
inductive FrontendVisibility where
  | all
  | cliOnly
  | tuiOnly
  | cliAndTui
  | hidden
  deriving DecidableEq

/-- A flag of a command; `ν` names the flags. -/
structure FlagSpec (ν : Type) where
  /-- The name of the flag. -/
  key : ν
  /-- The name as it is written after `--`. -/
  long : Text
  /-- The letter that may be written after `-` instead. -/
  short : Option Char := none
  kind : FlagKind
  /-- The value of the flag when it is not given. -/
  default : FlagDefault := .none
  /-- The front ends that may use it. -/
  frontends : FrontendVisibility := .all
  /-- The flags it cannot be given together with. -/
  conflictsWith : List ν := []
  /-- The flags it sets to `true`. -/
  implies : List ν := []
  deriving DecidableEq

/-- What a positional argument takes. -/
inductive ArgumentKind where
  | string
  | optionalString
  | path
  | optionalPath
  /-- Every remaining token. -/
  | trailingVarArgs
  deriving DecidableEq

/-- A positional argument. -/
structure ArgumentSpec where
  name : Text
  kind : ArgumentKind

/-- A command. -/
structure CommandSpec (ν : Type) where
  arguments : List ArgumentSpec
  flags : List (FlagSpec ν)

/-- The value of a flag in an argument vector. -/
inductive ParsedFlag where
  | bool (value : Bool)
  | str (value : Text)
  | strings (values : List Text)
  | path (value : Text)
  | u16 (value : Nat)
  | usize (value : Nat)
  deriving DecidableEq

/-- What is wrong with an invocation. -/
inductive CommandError where
  | unknownCommand (command : List Text)
  | unknownFlag (command : List Text) (flag : Text)
  | missingRequiredFlag (command : List Text) (flag : Text)
  | missingRequiredArgument (command : List Text) (argument : Text)
  | unexpectedArgument (command : List Text) (argument : Text)
  | mutuallyExclusive (command : List Text) (first second : Text)
  | invalidFlagValue (command : List Text) (flag : Text) (reason : String)
  | prerequisiteWideningRefused (flag : String)
  | prerequisiteFlagUnsupported (flag : String)
  deriving DecidableEq

/-- A text in a message. -/
def shown (text : Text) : String := String.ofList text

/-- A number below the bound in decimal digits, with or without a plus sign. -/
def parseUnsigned (bound : Nat) (text : Text) : Option Nat :=
  let digits := if text.head? = some '+' then text.tail else text
  let value := Nat.ofDigitChars 10 digits 0
  if digits.isEmpty ∨ !digits.all Char.isDigit ∨ bound ≤ value then none else some value

section parsing

variable {ν : Type} [DecidableEq ν] (spec : CommandSpec ν) (path : List Text)

/-- The flag that is written in the given way after `--`. -/
def CommandSpec.findFlag (name : Text) : Option (FlagSpec ν) :=
  spec.flags.find? (·.long = name)

/-- The texts an enumeration admits, as a message lists them. -/
def showAllowed (allowed : List Text) : String :=
  "[" ++ String.intercalate ", " (allowed.map fun text => s!"\"{shown text}\"") ++ "]"

/-- The value of a flag: the one behind `=`, or the next token, which must not look like a flag.
Tells whether the next token was taken. -/
def readValue (inline next : Option Text) (flag : Text) : Except CommandError (Text × Bool) :=
  match inline, next with
  | some value, _ => .ok (value, false)
  | none, some value =>
    if value.head? = some '-' then .error (.invalidFlagValue path flag "flag requires a value")
    else .ok (value, true)
  | none, none => .error (.invalidFlagValue path flag "flag requires a value")

/-- Apply a single flag.  Tells whether the next token was taken. -/
def applyFlag (flagSpec : FlagSpec ν) (inline next : Option Text) (flags : NameMap ν ParsedFlag) :
    Except CommandError (NameMap ν ParsedFlag × Bool) := do
  let key := flagSpec.key
  let invalid (reason : String) := CommandError.invalidFlagValue path flagSpec.long reason
  match flagSpec.kind with
  | .bool => return (flags.insert key (.bool (inline ≠ some "false".toList)), false)
  | .string | .optionalString =>
    let (value, taken) ← readValue path inline next flagSpec.long
    return (flags.insert key (.str value), taken)
  | .enum allowed =>
    let (value, taken) ← readValue path inline next flagSpec.long
    if value ∈ allowed then return (flags.insert key (.str value), taken)
    else throw (invalid s!"'{shown value}' is not one of {showAllowed allowed}")
  | .vecString =>
    let (value, taken) ← readValue path inline next flagSpec.long
    match flags.lookup key with
    | some (.strings items) => return (flags.insert key (.strings (items ++ [value])), taken)
    | _ => return (flags.insert key (.strings [value]), taken)
  | .path | .optionalPath =>
    let (value, taken) ← readValue path inline next flagSpec.long
    return (flags.insert key (.path value), taken)
  | .u16 =>
    let (value, taken) ← readValue path inline next flagSpec.long
    match parseUnsigned (2 ^ 16) value with
    | some number => return (flags.insert key (.u16 number), taken)
    | none => throw (invalid s!"'{shown value}' is not a valid integer (0..=65535)")
  | .usizeAtLeastOne =>
    let (value, taken) ← readValue path inline next flagSpec.long
    match (parseUnsigned (2 ^ 64) value).filter (1 ≤ ·) with
    | some number => return (flags.insert key (.usize number), taken)
    | none => throw (invalid s!"'{shown value}' is not a positive integer (>= 1)")

/-- What the tokens read so far amount to. -/
structure Scan (ν : Type) where
  flags : NameMap ν ParsedFlag
  /-- The tokens that belong to no flag. -/
  positionals : List Text
  /-- Whether every further token is taken as it is: behind `--`, or in a trailing argument. -/
  verbatim : Bool

/-- The last positional argument takes every remaining token. -/
def CommandSpec.trailing : Bool :=
  spec.arguments.getLast?.any (·.kind = .trailingVarArgs)

/-- The number of the other positional arguments. -/
def CommandSpec.fixedArgCount : Nat :=
  (spec.arguments.filter (·.kind ≠ .trailingVarArgs)).length

/-- Read one token.  Tells whether the next token was taken as its value. -/
def scanToken (arg : Text) (next : Option Text) (scan : Scan ν) :
    Except CommandError (Scan ν × Bool) :=
  if scan.verbatim then .ok ({ scan with positionals := scan.positionals ++ [arg] }, false)
  else
    match arg with
    | ['-', '-'] => .ok ({ scan with verbatim := true }, false)
    | '-' :: '-' :: rest =>
      let (name, inline) := match splitOnce '=' rest with
        | some (name, value) => (name, some value)
        | none => (rest, none)
      match spec.findFlag name with
      | none => .error (.unknownFlag path name)
      | some flagSpec => do
        let (flags, taken) ← applyFlag path flagSpec inline next scan.flags
        return ({ scan with flags }, taken)
    | '-' :: short =>
      match short with
      | [letter] =>
        match spec.flags.find? (·.short = some letter) with
        | none => .error (.unknownFlag path ['-', letter])
        | some flagSpec => do
          let (flags, taken) ← applyFlag path flagSpec none next scan.flags
          return ({ scan with flags }, taken)
      -- Only single letters are supported.
      | _ => .error (.unknownFlag path arg)
    | _ =>
      let positionals := scan.positionals ++ [arg]
      .ok ({ scan with
        positionals,
        verbatim := spec.trailing && decide (spec.fixedArgCount < positionals.length) }, false)

/-- Read all tokens. -/
def scanArgs : List Text → Scan ν → Except CommandError (Scan ν)
  | [], scan => .ok scan
  | [arg], scan => (scanToken spec path arg none scan).map (·.1)
  | arg :: next :: rest, scan => do
    let (scan, taken) ← scanToken spec path arg (some next) scan
    if taken then scanArgs rest scan else scanArgs (next :: rest) scan

/-- The caller asked for the flag; `--flag=false` asks for nothing. -/
def flagIsActive (flags : NameMap ν ParsedFlag) (key : ν) : Bool :=
  (flags.lookup key).any (· ≠ .bool false)

/-- The flag of the given name as it is written. -/
def CommandSpec.longOf (key : ν) : Text :=
  ((spec.flags.find? (·.key = key)).map FlagSpec.long).getD []

/-- The first flag that is given together with one it conflicts with, and that one. -/
def firstConflict (active : ν → Bool) : Option (FlagSpec ν × ν) :=
  spec.flags.findSome? fun flag =>
    if active flag.key then (flag.conflictsWith.find? active).map (flag, ·) else none

/-- Refuse flags that conflict. -/
def checkConflicts (flags : NameMap ν ParsedFlag) : Except CommandError Unit :=
  match firstConflict spec (flagIsActive flags) with
  | none => .ok ()
  | some (flag, conflicting) => .error (.invalidFlagValue path flag.long
      s!"--{shown flag.long} conflicts with --{shown (spec.longOf conflicting)}")

/-- The typed result of parsing. -/
structure ParsedArgs (ν : Type) where
  flags : NameMap ν ParsedFlag
  /-- The tokens of the positional arguments. -/
  arguments : NameMap Text (List Text)
  pathArguments : List Text

/-- Map the positional tokens onto the arguments in their order; gives back the tokens that are
left. -/
def assignPositionals : List ArgumentSpec → List Text →
    NameMap Text (List Text) × List Text → (NameMap Text (List Text) × List Text) × List Text
  | [], positionals, assigned => (assigned, positionals)
  | argument :: rest, positionals, (arguments, paths) =>
    match argument.kind, positionals with
    | .trailingVarArgs, [] => assignPositionals rest [] (arguments, paths)
    | .trailingVarArgs, collected =>
      assignPositionals rest [] (arguments.insert argument.name collected, paths)
    | .path, value :: remaining | .optionalPath, value :: remaining =>
      assignPositionals rest remaining
        (arguments.insert argument.name [value], paths ++ [argument.name])
    | .string, value :: remaining | .optionalString, value :: remaining =>
      assignPositionals rest remaining (arguments.insert argument.name [value], paths)
    | _, [] => assignPositionals rest [] (arguments, paths)

/-- Parse an argument vector against the specification of its command. -/
def parseAgainstSpec (args : List Text) : Except CommandError (ParsedArgs ν) := do
  let scan ← scanArgs spec path args ⟨∅, [], false⟩
  checkConflicts spec path scan.flags
  match assignPositionals spec.arguments scan.positionals (∅, []) with
  | ((arguments, pathArguments), []) => return ⟨scan.flags, arguments, pathArguments⟩
  | (_, extra :: _) => throw (.unexpectedArgument path extra)

/-! ## The profile of a front end -/

/-- A value a front end gives a flag; a forced one replaces the caller's. -/
structure FrontendFlagDefault where
  flag : Text
  value : Bool
  /-- Whether it replaces the caller's. -/
  forced : Bool

/-- The values the front ends that run unattended give. -/
def apiFlagDefaults : List FrontendFlagDefault :=
  [⟨"non-interactive".toList, true, true⟩, ⟨"yolo".toList, true, false⟩]

/-- The values a front end gives. -/
def frontendFlagDefaults : FrontendKind → List FrontendFlagDefault
  | .api | .squadDaemon => apiFlagDefaults
  | .cli | .tui => []

/-- The front end as an error names it. -/
def FrontendKind.label : FrontendKind → String
  | cli => "cli"
  | tui => "tui"
  | api => "api"
  | squadDaemon => "squad daemon"

/-- The user's own session on the host. -/
def FrontendKind.isLocalUser : FrontendKind → Bool
  | cli | tui => true
  | api | squadDaemon => false

/-- Whether a front end may use a flag. -/
def FrontendVisibility.allows : FrontendVisibility → FrontendKind → Bool
  | all, _ => true
  | cliOnly, frontend => frontend = .cli
  | tuiOnly, frontend => frontend = .tui
  | cliAndTui, frontend => frontend = .cli ∨ frontend = .tui
  | hidden, _ => false

/-- Refuse flags the front end may not use. -/
def checkVisibility (frontend : FrontendKind) (flags : NameMap ν ParsedFlag) :
    Except CommandError Unit :=
  let refused := spec.flags.find? fun flag =>
    (flags.lookup flag.key).isSome && !flag.frontends.allows frontend &&
      !(frontendFlagDefaults frontend).any fun entry => entry.flag = flag.long ∧ entry.forced
  match refused with
  | none => .ok ()
  | some flag =>
    .error (.invalidFlagValue path flag.long s!"not available via the {frontend.label} frontend")

/-- Give a flag the value of the front end. -/
def applyFrontendDefault (flags : NameMap ν ParsedFlag) (entry : FrontendFlagDefault) :
    NameMap ν ParsedFlag :=
  match spec.findFlag entry.flag with
  | none => flags
  | some flagSpec =>
    if entry.forced then flags.insert flagSpec.key (.bool entry.value)
    else if (flags.lookup flagSpec.key).isSome ∨ flagSpec.conflictsWith.any (flagIsActive flags) then
      flags
    else flags.insert flagSpec.key (.bool entry.value)

/-- Parse an argument vector and apply the profile of the front end. -/
def parseRawArgsWithProfile (args : List Text) (frontend : FrontendKind) :
    Except CommandError (ParsedArgs ν) := do
  let parsed ← parseAgainstSpec spec path args
  checkVisibility spec path frontend parsed.flags
  return { parsed with
    flags := (frontendFlagDefaults frontend).foldl (applyFrontendDefault spec) parsed.flags }

end parsing

/-! ## Resolved flags -/

/-- What a command is built from. -/
structure BuildContext (ν : Type) where
  /-- The words of the command. -/
  path : List Text
  spec : CommandSpec ν
  parsed : ParsedArgs ν
  /-- The front end. -/
  frontend : FrontendKind

namespace BuildContext

variable {ν : Type} [DecidableEq ν] (ctx : BuildContext ν)

/-- The value of the flag when it is not given. -/
def defaultOf (key : ν) : FlagDefault :=
  ((ctx.spec.flags.find? (·.key = key)).map FlagSpec.default).getD .none

/-- The value of a flag without a value. -/
def bool (key : ν) : Bool :=
  match ctx.parsed.flags.lookup key with
  | some (.bool true) => true
  | _ => ctx.defaultOf key = .bool true

/-- The value of a text flag. -/
def str (key : ν) : Option Text :=
  match ctx.parsed.flags.lookup key with
  | some (.str value) => some value
  | _ =>
    match ctx.defaultOf key with
    | .str value => some value
    | _ => none

/-- The values of a flag that may be repeated. -/
def strs (key : ν) : List Text :=
  match ctx.parsed.flags.lookup key with
  | some (.strings values) => values
  | _ => []

/-- The value of a path flag. -/
def pathFlag (key : ν) : Option Text :=
  match ctx.parsed.flags.lookup key with
  | some (.path value) => some value
  | _ => none

/-- The value of a text flag that must have one. -/
def requireStr (key : ν) : Except CommandError Text :=
  match ctx.str key with
  | some value => .ok value
  | none => .error (.missingRequiredFlag ctx.path (ctx.spec.longOf key))

/-- The tokens of a positional argument that must be given, put together. -/
def requireArgument (name : Text) : Except CommandError Text :=
  match ctx.parsed.arguments.lookup name with
  | some tokens => .ok (List.intercalate [' '] tokens)
  | none => .error (.missingRequiredArgument ctx.path name)

/-- The caller supplied the flag. -/
def supplied (key : ν) : Bool :=
  match ctx.parsed.flags.lookup key with
  | none | some (.bool false) | some (.strings []) => false
  | some _ => true

/-- Refuse supplied flags that exclude each other. -/
def validateConflicts : Except CommandError Unit :=
  match firstConflict ctx.spec ctx.supplied with
  | none => .ok ()
  | some (flag, conflicting) =>
    .error (.mutuallyExclusive ctx.path flag.long (ctx.spec.longOf conflicting))

end BuildContext

end Awman.RawArgs
