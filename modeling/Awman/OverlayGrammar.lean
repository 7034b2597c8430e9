import Awman.NetworkConfig
import Awman.OverlayPaths

/-!
# The overlay grammar

An overlay expression names a host directory, a skill, an environment variable or a context
directory; a list of them is separated by commas outside parentheses.  `parseOverlayList` reads such
a list.
-/

namespace Awman.Overlay

open Awman.Network (trim)

/-- Read-only or read-write, as a mount is granted to an agent. -/
inductive OverlayPermission where
  | readOnly
  | readWrite
  deriving DecidableEq, Repr

/-- A directory overlay as its source wrote it. -/
structure DirectorySpec where
  /-- The host path, with the leading `~` expanded by some forms of the expression. -/
  host : List Char
  container : List Char
  permission : OverlayPermission
  deriving DecidableEq

/-- The scope of a context overlay. -/
inductive ContextScope where
  | global
  | repo
  | workflow
  deriving DecidableEq, Repr

/-- All skills or a named one. -/
inductive SkillSpec where
  | all
  | named (name : List Char)
  deriving DecidableEq

/-- A context overlay: scope and permission. -/
structure ContextOverlaySpec where
  scope : ContextScope
  permission : OverlayPermission
  deriving DecidableEq, Repr

/-- A parsed overlay expression. -/
inductive TypedOverlay where
  | directory (spec : DirectorySpec)
  | skill (spec : SkillSpec)
  | env (name : List Char)
  | context (spec : ContextOverlaySpec)
  deriving DecidableEq

/-- A text in a message. -/
def shown (text : List Char) : String := String.ofList text

/-- Split a text at a separator into at most the given number of parts. -/
def splitAtMost (separator : Char) : Nat → List Char → List (List Char)
  | 0, _ => []
  | 1, text => [text]
  | count + 2, text =>
    match text.dropWhile (· != separator) with
    | [] => [text]
    | _ :: rest => text.takeWhile (· != separator) :: splitAtMost separator (count + 1) rest

/-- Parse a spec of the form `host:container` or `host:container:perm`. -/
def parseOverlaySpec (spec : List Char) : Except String DirectorySpec :=
  match splitAtMost ':' 3 spec with
  | host :: container :: permission =>
    if host.isEmpty then .error "host path must not be empty"
    else if container.isEmpty then .error "container path must not be empty"
    else if container.head? ≠ some '/' then
      .error s!"container path '{shown container}' must be absolute"
    else
      match permission with
      | [] => .ok ⟨host, container, .readWrite⟩
      | text :: _ =>
        if text = "rw".toList ∨ text = [] then .ok ⟨host, container, .readWrite⟩
        else if text = "ro".toList then .ok ⟨host, container, .readOnly⟩
        else .error s!"unknown permission '{shown text}'; expected 'ro' or 'rw'"
  | _ => .error s!"expected 'host:container' or 'host:container:perm', got '{shown spec}'"

/-- Split on commas not inside parentheses, of which `depth` are open. -/
def splitTopLevelCommas (depth : Nat) : List Char → List (List Char)
  | [] => [[]]
  | character :: rest =>
    if character = ',' ∧ depth = 0 then [] :: splitTopLevelCommas 0 rest
    else
      let depth := if character = '(' then depth + 1
        else if character = ')' then depth - 1 else depth
      match splitTopLevelCommas depth rest with
      | [] => [[character]]
      | part :: parts => (character :: part) :: parts

/-- The arguments of `dir(...)`. -/
def parseDirOverlayArgs (host : Host) (args fullExpr : List Char) : Except String DirectorySpec :=
  let spec (hostText containerText : List Char) (permission : OverlayPermission) :=
    let hostPart := trim hostText
    let container := trim containerText
    if hostPart.isEmpty then .error s!"empty host path in '{shown fullExpr}'"
    else if container.isEmpty then .error s!"empty container path in '{shown fullExpr}'"
    else .ok ⟨Utf8Text.fromUtf8Lossy (host.expandTilde hostPart), container, permission⟩
  if args.isEmpty then .error s!"empty arguments in overlay expression: '{shown fullExpr}'"
  else
    match splitAtMost ':' 3 args with
    | [hostText, container] => spec hostText container .readWrite
    | [hostText, container, permission] =>
      let candidate := trim permission
      if candidate = "ro".toList then spec hostText container .readOnly
      else if candidate = "rw".toList then spec hostText container .readWrite
      else .error
        s!"invalid permission '{shown candidate}' in '{shown fullExpr}'; expected 'ro' or 'rw'"
    | _ => .error s!"expected 'host:container[:perm]' in '{shown fullExpr}'"

/-- The argument of `skill(...)`. -/
def parseSkillArgs (args : List Char) : Except String SkillSpec :=
  if args.isEmpty then .error ("skill() requires an argument; use skill(*) to mount all skills or " ++
    "skill(name) for a specific named skill")
  else if args.contains ',' then .error ("skill() takes one argument; use separate skill() calls " ++
    "for multiple named skills")
  else if args = ['*'] then .ok .all
  else if 1 < args.count '/' then
    .error s!"skill(name) supports at most one '/' (library/skill); got '{shown args}'"
  else if (args.splitOn '/').any fun segment =>
      segment = [] ∨ segment = ['.'] ∨ segment = ['.', '.'] then
    .error s!"skill(name) segments must not be empty, '.' or '..'; got '{shown args}'"
  else .ok (.named args)

/-- A character of a variable name. -/
def isNameChar (character : Char) : Bool := character.isAlphanum || character == '_'

/-- The argument of `env(...)`. -/
def parseEnvArgs (host : Host) (args : List Char) : Except String (List Char) :=
  if args.isEmpty then .error "env() requires an argument"
  else if args.contains ',' then
    .error "env() takes one argument; use separate env() calls for multiple vars"
  else if args.head?.any (fun first => first.isAlpha || first == '_') && args.all isNameChar then
    .ok args
  else .error (s!"env() argument {host.debug args} is not a valid environment variable name " ++
    "(letters, digits and underscore, not starting with a digit)")

/-- The scope `context(...)` names. -/
def ContextScope.ofText (text : List Char) : Option ContextScope :=
  if text = "global".toList then some .global
  else if text = "repo".toList then some .repo
  else if text = "workflow".toList then some .workflow
  else none

/-- The arguments of `context(...)`. -/
def parseContextArgs (args expr : List Char) : Except String ContextOverlaySpec :=
  if args.isEmpty then .error ("context() requires a scope argument: context(global), " ++
    "context(repo), or context(workflow)")
  else
    let parts := splitAtMost ':' 2 args
    let scopeText := trim (parts.headD [])
    match ContextScope.ofText scopeText with
    | none => .error (s!"unknown context scope '{shown scopeText}' in '{shown expr}'; " ++
        "supported scopes: global, repo, workflow")
    | some scope =>
      match parts.tail.head?.map trim with
      | none => .ok ⟨scope, .readWrite⟩
      | some text =>
        if text = "ro".toList then .ok ⟨scope, .readOnly⟩
        else if text = "rw".toList then .ok ⟨scope, .readWrite⟩
        else .error
          s!"unknown permission '{shown text}' in '{shown expr}'; expected 'ro' or 'rw'"

/-- The overlay of an expression with the given tag and arguments. -/
def parseTagged (host : Host) (tag args expr : List Char) : Except String TypedOverlay :=
  if tag = "dir".toList then (parseDirOverlayArgs host args expr).map .directory
  else if tag = "skill".toList then (parseSkillArgs args).map .skill
  else if tag = "skills".toList then .error ("skills() has been removed; use skill(*) to mount " ++
    "all skills or skill(name) for a specific named skill")
  else if tag = "ssh".toList then
    if !args.isEmpty then .error "ssh() takes no arguments"
    else
      let sshHost := joinPath (host.homeDir.getD []) (textBytes ".ssh".toList)
      .ok (.directory ⟨Utf8Text.fromUtf8Lossy sshHost, "~/.ssh".toList, .readOnly⟩)
  else if tag = "env".toList then (parseEnvArgs host args).map .env
  else if tag = "context".toList then (parseContextArgs args expr).map .context
  else .error (s!"unknown overlay type '{shown tag}' in '{shown expr}'; " ++
    "supported types: dir, skill, ssh, env, context")

/-- Parse one overlay expression; one without parentheses is a bare path spec. -/
def parseSingleTypedOverlay (host : Host) (expr : List Char) : Except String TypedOverlay :=
  match expr.dropWhile (· != '(') with
  | [] => (parseOverlaySpec expr).map .directory
  | _ :: inside =>
    if !expr.contains ')' then
      .error s!"malformed overlay expression (missing ')'): '{shown expr}'"
    else if !inside.contains ')' then
      .error s!"malformed overlay expression (parentheses out of order): '{shown expr}'"
    else
      -- What follows the last closing parenthesis is not looked at.
      let args := trim (inside.rdropWhile (· != ')')).dropLast
      parseTagged host (trim (expr.takeWhile (· != '('))) args expr

/-- Parse a comma-separated list of overlay expressions. -/
def parseOverlayList (host : Host) (input : List Char) : Except String (List TypedOverlay) :=
  let expressions := ((splitTopLevelCommas 0 (trim input)).map trim).filter (!·.isEmpty)
  expressions.mapM (parseSingleTypedOverlay host)

end Awman.Overlay
