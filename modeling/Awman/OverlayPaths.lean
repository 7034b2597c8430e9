import Awman.Library.Utf8Text

/-!
# Host paths of overlays

How the text a user wrote for a host directory becomes a path, and the key by which two paths of
one directory are recognised.  A path is the list of its bytes.
-/

namespace Awman.Overlay

open Awman.Utf8Text

/-- A path of the host, byte by byte. -/
abbrev HostPath := List UInt8

/-- The byte between two components. -/
def slash : UInt8 := 0x2F

/-- The bytes of a text. -/
def textBytes (text : List Char) : HostPath := text.flatMap String.utf8EncodeChar

/-- One part of a path. -/
inductive Component where
  /-- The root of the file system. -/
  | rootDir
  /-- A leading `.`. -/
  | curDir
  /-- A `..`. -/
  | parentDir
  | normal (name : HostPath)
  deriving DecidableEq, Repr

/-- The parts of a path; empty parts and every `.` but a leading one are left out. -/
def components (path : HostPath) : List Component :=
  let absolute := path.head? = some slash
  let segments := path.splitOn slash
  let leading := if absolute then [.rootDir]
    else if segments.head? = some (textBytes ['.']) then [.curDir] else []
  leading ++ segments.filterMap fun segment =>
    if segment = [] ∨ segment = textBytes ['.'] then none
    else if segment = textBytes ['.', '.'] then some .parentDir
    else some (.normal segment)

/-- Put a path behind another one; an absolute one takes its place. -/
def joinPath (base path : HostPath) : HostPath :=
  if path.head? = some slash then path
  else if base.getLast?.all (· = slash) then base ++ path
  else base ++ slash :: path

/-- The bytes of a part of a path. -/
def Component.bytes : Component → HostPath
  | rootDir => [slash]
  | curDir => textBytes ['.']
  | parentDir => textBytes ['.', '.']
  | normal name => name

/-- The path made of the given parts. -/
def ofComponents (parts : List Component) : HostPath :=
  parts.foldl (fun path part => joinPath path part.bytes) []

/-- The computer the agent is started on, as the overlay code sees it. -/
structure Host where
  homeDir : Option HostPath
  /-- The path without symbolic links that leads to the same place, if the place exists. -/
  canonicalize : HostPath → Option HostPath
  pathExists : HostPath → Bool
  isDir : HostPath → Bool
  /-- Whether the directory and its missing ancestors can be created. -/
  createDirAll : HostPath → Bool
  /-- How a text is quoted in a message. -/
  debug : List Char → String
  /-- A path without symbolic links stays as it is. -/
  canonicalize_canonical : ∀ path canonical,
    canonicalize path = some canonical → canonicalize canonical = some canonical
  /-- A directory that exists need not be created. -/
  createDirAll_of_isDir : ∀ path, isDir path = true → createDirAll path = true

namespace Host

/-- Where no path leads anywhere, none leads elsewhere. -/
theorem nowhere_canonical (_ canonical : HostPath) (hnone : (none : Option HostPath) = some canonical) :
    (none : Option HostPath) = some canonical :=
  hnone

/-- What is no directory need not be created. -/
theorem created_of_false {created : Bool} (_ : HostPath) (hdir : false = true) : created = true :=
  nomatch hdir

variable (host : Host)

/-- Expand a leading `~` to the user's home directory. -/
def expandTilde (path : List Char) : HostPath :=
  match path with
  | ['~'] => host.homeDir.getD (textBytes ['~'])
  | '~' :: '/' :: rest =>
    match host.homeDir with
    | some home => joinPath home (textBytes rest)
    | none => textBytes path
  | _ => textBytes path

/-- Expand `~` and resolve a relative path against `cwd`. -/
def makeAbsoluteWithCwd (path : List Char) (cwd : HostPath) : HostPath :=
  let expanded := host.expandTilde path
  if expanded.head? = some slash then expanded else joinPath cwd expanded

/-- One part of a path, put behind the parts in front of it. -/
def normalizeComponent (result : List Component) : Component → List Component
  | .curDir => result
  | .parentDir =>
    match result.getLast? with
    | some (.normal _) => result.dropLast
    -- There is nothing above the root.
    | some .rootDir => result
    | _ => result ++ [.parentDir]
  | part => result ++ [part]

/-- Resolve `.` and `..` without touching the file system. -/
def normalizeLexically (path : HostPath) : List Component :=
  (components path).foldl normalizeComponent []

/-- The nearest ancestor that exists, followed by the names below it.  The parts of the path are
given last part first. -/
def nearestAncestor : List Component → List HostPath → Option HostPath
  | [], _ => none
  | .rootDir :: _, _ => none
  | part :: parent, suffix =>
    let suffix := match part with
      | .normal name => name :: suffix
      | _ => suffix
    match host.canonicalize (ofComponents parent.reverse) with
    | some canonical => some (suffix.foldl joinPath canonical)
    | none => nearestAncestor parent suffix

/-- The canonical path, also for a place that does not exist. -/
def canonicalizeLossy (path : HostPath) : HostPath :=
  let normalized := normalizeLexically path
  match host.canonicalize (ofComponents normalized) with
  | some canonical => canonical
  | none => (host.nearestAncestor normalized.reverse []).getD (ofComponents normalized)

/-- The key by which paths of one place are recognised. -/
def conflictKey (path : HostPath) : List Char :=
  fromUtf8Lossy ((host.canonicalize path).getD path)

/-- The path leads to the given directory. -/
def LeadsTo (path directory : HostPath) : Prop :=
  host.canonicalize path = some directory ∧ host.isDir path = true

variable {host} {path other directory : HostPath}

/-- A lexically resolved path that leads somewhere is canonicalised to where it leads. -/
theorem canonicalizeLossy_eq
    (hpath : host.canonicalize (ofComponents (normalizeLexically path)) = some directory) :
    host.canonicalizeLossy path = directory := by
  unfold canonicalizeLossy
  simp only [hpath]

/-- Canonicalising first does not change where a lexically resolved path leads. -/
theorem canonicalize_canonicalizeLossy
    (hpath : host.canonicalize (ofComponents (normalizeLexically path)) = some directory) :
    host.canonicalize (host.canonicalizeLossy path) = some directory := by
  rw [canonicalizeLossy_eq hpath]
  exact host.canonicalize_canonical _ _ hpath

end Host

end Awman.Overlay
