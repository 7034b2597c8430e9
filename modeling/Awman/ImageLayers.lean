import Awman.Library.TextCuts
import Awman.Library.FileTrees
import Awman.Library.Utf8Text
import Mathlib.Data.Finset.Sort
import Mathlib.Data.List.AList
import Mathlib.Order.Lattice.Nat
import Mathlib.Data.String.Basic

/-!
# The layer pass over an image archive

Every selected layer of an image archive is read once in archive order.  Each of its entries is
checked, and what it does to the paths of the root file system is noted.  The notes are then
replayed in image order, so that nothing is written beneath a symlink of the same or a lower layer.

A path is kept as its components; the texts of the source join them with a slash.
-/

namespace Awman.Oci

open Awman.Utf8Text

/-- A decoded text. -/
abbrev Text := List Char

/-- A path below the root as its components, each of them decoded. -/
abbrev LayerPath := List Text

/-- Entries in the outer archive. -/
def maxOuterEntries : Nat := 100000

/-- Entries in one layer. -/
def maxLayerEntries : Nat := 2000000

/-- The type of a tar entry; others are known by how they print. -/
inductive EntryType where
  | regular
  | continuous
  | directory
  | symlink
  | link
  | fifo
  | char
  | block
  | other (name : String)
  deriving DecidableEq, Repr

/-- How a type prints. -/
def EntryType.debug : EntryType → String
  | .regular => "Regular"
  | .continuous => "Continuous"
  | .directory => "Directory"
  | .symlink => "Symlink"
  | .link => "Link"
  | .fifo => "Fifo"
  | .char => "Char"
  | .block => "Block"
  | .other name => name

/-- An entry of a layer. -/
structure LayerEntry where
  /-- The raw name. -/
  pathBytes : List UInt8
  entryType : EntryType
  linkNameBytes : Option (List UInt8) := none
  deriving DecidableEq, Repr

/-- Why a layer or an archive is not accepted. -/
inductive ScanError where
  | imageArchiveRejected (reason : String)
  | imageDigestMismatch (reference expected actual : String)
  | panicked (message : String)
  deriving DecidableEq, Repr

/-- What one layer entry does to the paths of the root file system. -/
inductive PathOp where
  | symlink (path : LayerPath)
  /-- Creates or replaces an entry that is no symlink. -/
  | plain (path : LayerPath)
  /-- Removes the lower-layer path and everything below it. -/
  | whiteout (path : LayerPath)
  /-- Hides every lower-layer entry below the directory; the empty path is the root. -/
  | opaqueDir (dir : LayerPath)
  deriving DecidableEq, Repr

/-- A path as the source writes it. -/
def display (path : LayerPath) : String :=
  "/".intercalate (path.map String.ofList)

/-- The components of a text between slashes, without the empty ones and the single dots. -/
def parts (text : Text) : List Text :=
  (text.splitOn '/').filter fun part => part ≠ [] ∧ part ≠ ['.']

/-- The path a raw name names, none if it is the root. -/
def normalizeLayerPath (raw : List UInt8) : Except String (Option LayerPath) :=
  let text := fromUtf8Lossy raw
  let name := String.ofList text
  if '\x00' ∈ text then .error "entry name contains NUL"
  else if text.head? = some '/' then .error s!"entry `{name}` is an absolute path"
  else if ['.', '.'] ∈ parts text then .error s!"entry `{name}` escapes the root with `..`"
  else if parts text = [] then .ok none
  else .ok (some (parts text))

/-- The proper ancestors of a path, the root apart, nearest to the root first. -/
def ancestors (path : LayerPath) : List LayerPath :=
  path.inits.filter fun ancestor => ancestor ≠ [] ∧ ancestor ≠ path

/-- A proper ancestor of the path that is in the set. -/
def symlinkPrefix (symlinks : Finset LayerPath) (path : LayerPath) : Option LayerPath :=
  (ancestors path).find? (· ∈ symlinks)

/-- Remove the path and everything below it from the set. -/
def removeTree (set : Finset LayerPath) (path : LayerPath) : Finset LayerPath :=
  set.filter fun other => ¬ path <+: other

/-- The checks of one layer. -/
structure LayerChecker where
  /-- Entries seen. -/
  count : Nat := 0
  symlinks : Finset LayerPath := ∅
  /-- Paths whose current entry in this layer can be the target of a hardlink, symlinks among
  them. -/
  files : Finset LayerPath := ∅
  /-- This layer's effect on the paths, in entry order. -/
  ops : List PathOp := []

/-- What marks a whiteout. -/
def whiteoutMark : Text := ['.', 'w', 'h', '.']

/-- What follows the mark of an opaque directory. -/
def opaqueMark : Text := whiteoutMark ++ ['.', 'o', 'p', 'q']

/-- An entry that is neither a symlink nor a whiteout. -/
def LayerChecker.plain (checker : LayerChecker) (path : LayerPath) : LayerChecker :=
  { checker with
    symlinks := checker.symlinks.erase path
    files := insert path checker.files
    ops := checker.ops ++ [.plain path] }

/-- Check the target of a hardlink. -/
def LayerChecker.checkTarget (checker : LayerChecker) (path : LayerPath)
    (linkNameBytes : Option (List UInt8)) : Except String Unit := do
  let name := display path
  let some raw := linkNameBytes | .error s!"hardlink `{name}` has no target"
  let some target ← normalizeLayerPath raw | .error s!"hardlink `{name}` targets the root"
  let targetName := display target
  if target ∉ checker.files then
    .error (s!"hardlink `{name}` targets `{targetName}`, which is not an earlier entry " ++
      "of this layer (or no longer a file)")
  else if target ∈ checker.symlinks ∨ (symlinkPrefix checker.symlinks target).isSome then
    .error s!"hardlink `{name}` targets symlink `{targetName}`"
  else .ok ()

/-- Check a whiteout; `rest` is what follows its mark. -/
def LayerChecker.checkWhiteout (checker : LayerChecker) (path parent : LayerPath) (rest : Text)
    (entryType : EntryType) : Except String LayerChecker :=
  let name := display path
  if entryType ≠ .regular ∧ entryType ≠ .continuous then
    .error s!"whiteout `{name}` is not a regular file"
  else if rest = opaqueMark then
    .ok { checker with ops := checker.ops ++ [.opaqueDir parent] }
  else if rest = [] ∨ rest = ['.'] ∨ rest = ['.', '.'] ∨ whiteoutMark <+: rest then
    .error s!"malformed whiteout `{name}`"
  else .ok { checker with ops := checker.ops ++ [.whiteout (parent ++ [rest])] }

/-- Check an entry that is no whiteout. -/
def LayerChecker.checkEntry (checker : LayerChecker) (path : LayerPath) (entry : LayerEntry) :
    Except String LayerChecker := do
  let name := display path
  match entry.entryType with
  | .regular => .ok (checker.plain path)
  | .continuous => .ok (checker.plain path)
  | .directory =>
    .ok { checker with
      symlinks := checker.symlinks.erase path
      files := checker.files.erase path
      ops := checker.ops ++ [.plain path] }
  | .symlink =>
    if entry.linkNameBytes = none then .error s!"symlink `{name}` has no target"
    else .ok { checker with
      symlinks := insert path checker.symlinks
      files := insert path checker.files
      ops := checker.ops ++ [.symlink path] }
  | .link => do
      checker.checkTarget path entry.linkNameBytes
      .ok (checker.plain path)
  | .fifo => .ok (checker.plain path)
  | .char => .error s!"device node `{name}` is not allowed"
  | .block => .error s!"device node `{name}` is not allowed"
  | .other type => .error s!"`{name}` has unsupported entry type {type}"

/-- Check one entry of a layer. -/
def LayerChecker.check (checker : LayerChecker) (entry : LayerEntry) :
    Except String LayerChecker := do
  let checker := { checker with count := checker.count + 1 }
  if checker.count > maxLayerEntries then .error s!"more than {maxLayerEntries} entries"
  else
    match ← normalizeLayerPath entry.pathBytes with
    | none => .ok checker
    | some path =>
      let name := display path
      match symlinkPrefix checker.symlinks path with
      | some link =>
        let linkName := display link
        .error s!"`{name}` is written through symlink `{linkName}`"
      | none =>
        let parent := path.dropLast
        let base := path.getLast?.getD []
        if whiteoutMark <+: base then
          checker.checkWhiteout path parent (base.drop whiteoutMark.length) entry.entryType
        else checker.checkEntry path entry

/-- The live symlinks of the root file system as layers are applied in image order. -/
structure SymlinkGraph where
  symlinks : Finset LayerPath := ∅

/-- Whiteouts act on the lower layers, before the entries of their own. -/
def hideLower (symlinks : Finset LayerPath) : PathOp → Finset LayerPath
  | .whiteout path => removeTree symlinks path
  | .opaqueDir [] => ∅
  | .opaqueDir dir =>
    if dir ∈ symlinks then insert dir (removeTree symlinks dir) else removeTree symlinks dir
  | _ => symlinks

/-- The path an operation writes, none for the root. -/
def PathOp.written : PathOp → Option LayerPath
  | .symlink path => some path
  | .plain path => some path
  | .whiteout path => some path
  | .opaqueDir [] => none
  | .opaqueDir dir => some (dir ++ [whiteoutMark ++ opaqueMark])

/-- Replay one operation. -/
def applyOp (symlinks : Finset LayerPath) (op : PathOp) : Except String (Finset LayerPath) :=
  match op.written with
  | none => .ok symlinks
  | some path =>
    match symlinkPrefix symlinks path with
    | some link =>
      let name := display path
      let linkName := display link
      .error s!"`{name}` is written through symlink `{linkName}`"
    | none =>
      match op with
      | .symlink path => .ok (insert path symlinks)
      | .plain path => .ok (symlinks.erase path)
      | _ => .ok symlinks

/-- Replay the operations of a layer. -/
def SymlinkGraph.apply (graph : SymlinkGraph) (ops : List PathOp) :
    Except String SymlinkGraph := do
  let symlinks ← ops.foldlM applyOp (ops.foldl hideLower graph.symlinks)
  .ok ⟨symlinks⟩

/-- A failure to read a stream. -/
structure ReadFailure where
  /-- The uncompressed size is over the limit. -/
  isLimitExceeded : Bool
  text : String
  deriving DecidableEq, Repr

/-- A layer as the decompressor, the hash and the tar reader give it. -/
structure LayerStream where
  /-- The first bytes are read and their compression is known; else the reason. -/
  opened : Except String Unit := .ok ()
  /-- The entries, up to the first that cannot be read. -/
  entries : List (Except ReadFailure LayerEntry)
  /-- The digest of the uncompressed stream. -/
  finished : Except ReadFailure String

/-- Read the entries of a layer. -/
def checkEntries (reject : String → ScanError) (checker : LayerChecker) :
    List (Except ReadFailure LayerEntry) → Except ScanError LayerChecker
  | [] => .ok checker
  | .error failure :: _ =>
    let text := failure.text
    if failure.isLimitExceeded then .error (reject s!"uncompressed size {text}")
    else .error (reject s!"malformed or truncated: {text}")
  | .ok entry :: rest =>
    match checker.check entry with
    | .error reason => .error (reject reason)
    | .ok checker => checkEntries reject checker rest

/-- Scan one layer: the digest of its uncompressed stream and its operations. -/
def scanLayer (name : Text) (layer : LayerStream) : Except ScanError (String × List PathOp) := do
  let reject := fun reason : String =>
    let entryName := String.ofList name
    ScanError.imageArchiveRejected s!"layer `{entryName}`: {reason}"
  layer.opened.mapError reject
  let checker ← checkEntries reject {} layer.entries
  match layer.finished with
  | .ok sha => .ok (sha, checker.ops)
  | .error failure =>
    let text := failure.text
    if failure.isLimitExceeded then .error (reject s!"uncompressed size {text}")
    else .error (reject s!"truncated: {text}")

/-- An entry of the outer archive, with what it is when read as a layer. -/
structure ArchiveEntry where
  /-- The raw name. -/
  pathBytes : List UInt8
  entryType : EntryType
  linkNameBytes : Option (List UInt8) := none
  /-- The content read as a layer. -/
  layer : LayerStream

/-- What an entry of the outer archive is. -/
inductive OuterKind where
  | file
  | dir
  /-- A symlink, resolved to the path in the archive it names. -/
  | symlink (target : Text)
  deriving DecidableEq, Repr

/-- The entries of the outer archive by name. -/
structure OuterScan where
  entries : AList (fun _ : Text => OuterKind) := ∅

/-- The file that a name names, through one symlink at most. -/
def OuterScan.resolveFile (outer : OuterScan) (name : Text) : Option Text :=
  match outer.entries.lookup name with
  | some .file => some name
  | some (.symlink target) =>
    if outer.entries.lookup target = some .file then some target else none
  | _ => none

/-- A text joined from its components. -/
def joined (parts : List Text) : Text :=
  ['/'].intercalate parts

/-- The outer name a raw name stands for, none if it is the archive root. -/
def normalizeOuterName (raw : List UInt8) : Except String (Option Text) :=
  match fromUtf8 raw with
  | none =>
    let lossy := String.ofList (fromUtf8Lossy raw)
    .error s!"entry name is not UTF-8: {lossy}"
  | some text =>
    let name := String.ofList text
    if text.head? = some '/' ∨ '\\' ∈ text ∨ '\x00' ∈ text then
      .error s!"entry `{name}` is not a relative archive path"
    else if ['.', '.'] ∈ parts text then
      .error s!"entry `{name}` escapes the archive with `..`"
    else if parts text = [] then .ok none
    else .ok (some (joined (parts text)))

/-- Follow the components of a link from a directory. -/
def followLink (dir : List Text) (link : List Text) : Option (List Text) :=
  link.foldlM (fun dir part =>
    if part = ['.', '.'] then
      if dir = [] then none else some dir.dropLast
    else some (dir ++ [part])) dir

/-- Resolve a symlink of the outer archive relative to its directory. -/
def resolveOuterSymlink (name : Text) (link : List UInt8) : Option Text :=
  match fromUtf8 link with
  | none => none
  | some text =>
    if text.head? = some '/' ∨ '\\' ∈ text then none
    else
      match followLink (name.splitOn '/').dropLast (parts text) with
      | some (first :: rest) => some (joined (first :: rest))
      | _ => none

/-- What an entry of the outer archive is. -/
def outerKind (name : Text) (entry : ArchiveEntry) : Except ScanError OuterKind :=
  let entryName := String.ofList name
  match entry.entryType with
  | .regular => .ok .file
  | .continuous => .ok .file
  | .directory => .ok .dir
  | .symlink =>
    match entry.linkNameBytes with
    | none => .error (.imageArchiveRejected s!"symlink `{entryName}` has no target")
    | some link =>
      let target := String.ofList (fromUtf8Lossy link)
      match resolveOuterSymlink name link with
      | none => .error (.imageArchiveRejected
          s!"symlink `{entryName}` points outside the archive: `{target}`")
      | some resolved => .ok (.symlink resolved)
  | type =>
    let debug := type.debug
    .error (.imageArchiveRejected
      (s!"archive entry `{entryName}` has unsupported type {debug} (hardlinks, " ++
        "devices and FIFOs are not allowed at the archive level)"))

/-- Scan the entries of the outer archive. -/
def scanOuterEntries (outer : OuterScan) :
    List (Except String ArchiveEntry) → Except ScanError OuterScan
  | [] => .ok outer
  | .error failure :: _ => .error (.imageArchiveRejected s!"malformed or truncated tar: {failure}")
  | .ok entry :: rest => do
      if outer.entries.entries.length ≥ maxOuterEntries then
        .error (.imageArchiveRejected s!"more than {maxOuterEntries} archive entries")
      else
        match ← (normalizeOuterName entry.pathBytes).mapError .imageArchiveRejected with
        | none => scanOuterEntries outer rest
        | some name =>
          let entryName := String.ofList name
          if name ∈ outer.entries then
            .error (.imageArchiveRejected s!"duplicate archive entry `{entryName}`")
          else do
            let kind ← outerKind name entry
            scanOuterEntries ⟨outer.entries.insert name kind⟩ rest

/-- Scan the outer archive; its symlinks name files that it holds. -/
def scanOuter (archive : List (Except String ArchiveEntry)) : Except ScanError OuterScan := do
  let outer ← scanOuterEntries {} archive
  match outer.entries.entries.find? fun entry => match entry.2 with
      | .symlink target => decide (outer.entries.lookup target ≠ some .file)
      | _ => false with
  | some entry =>
    let name := String.ofList entry.1
    .error (.imageArchiveRejected
      s!"symlink `{name}` does not point at a file in the archive")
  | none => .ok outer

/-- The selected image: its layers, bottom first, and the digest of each. -/
structure Selected where
  /-- The entries that hold the layers. -/
  layers : List Text
  /-- The digests of the uncompressed layers. -/
  diffIds : List String
  deriving DecidableEq

/-- Which entries hold layers, and which digests each must produce. -/
def wantedLayers (outer : OuterScan) (selected : Selected) :
    Except ScanError (AList (fun _ : Text => Finset String)) :=
  (selected.layers.zip selected.diffIds).foldlM (fun wanted layer =>
    match outer.resolveFile layer.1 with
    | none => .error (.panicked "layers were resolved during selection")
    | some real =>
      .ok (wanted.insert real (insert layer.2 ((wanted.lookup real).getD ∅)))) ∅

/-- What the layer pass has found. -/
structure LayerPass where
  /-- Layers read. -/
  seen : Nat := 0
  /-- The operations of each layer read. -/
  summaries : AList (fun _ : Text => List PathOp) := ∅

/-- Read the wanted entries of the archive. -/
def scanArchive (path : String) (wanted : AList (fun _ : Text => Finset String))
    (pass : LayerPass) : List (Except String ArchiveEntry) → Except ScanError LayerPass
  | [] => .ok pass
  | .error failure :: _ => .error (.imageArchiveRejected s!"malformed or truncated tar: {failure}")
  | .ok entry :: rest =>
    match normalizeOuterName entry.pathBytes with
    | .ok (some name) =>
      match wanted.lookup name with
      | none => scanArchive path wanted pass rest
      | some diffIds => do
          let (actual, ops) ← scanLayer name entry.layer
          -- Several layers may share one blob, but one blob has one digest.
          if diffIds ≠ {actual} then
            let entryName := String.ofList name
            let expected := " or ".intercalate
              ((diffIds.sort (· ≤ ·)).map fun digest => s!"sha256:{digest}")
            .error (.imageDigestMismatch s!"{path}:{entryName}" expected s!"sha256:{actual}")
          else
            scanArchive path wanted
              ⟨pass.seen + 1, pass.summaries.insert name ops⟩ rest
    | _ => scanArchive path wanted pass rest

/-- Replay the layers in image order. -/
def replayLayers (outer : OuterScan) (summaries : AList (fun _ : Text => List PathOp))
    (graph : SymlinkGraph) : List Text → Except ScanError SymlinkGraph
  | [] => .ok graph
  | layer :: rest =>
    match outer.resolveFile layer with
    | none => .error (.panicked "layers were resolved during selection")
    | some real =>
      match graph.apply ((summaries.lookup real).getD []) with
      | .error reason =>
        let name := String.ofList layer
        .error (.imageArchiveRejected s!"layer `{name}`: {reason}")
      | .ok graph => replayLayers outer summaries graph rest

/-- The layer pass. -/
def scanLayers (path : String) (archive : List (Except String ArchiveEntry)) (outer : OuterScan)
    (selected : Selected) : Except ScanError Unit := do
  let wanted ← wantedLayers outer selected
  let pass ← scanArchive path wanted {} archive
  if pass.seen ≠ wanted.entries.length then
    .error (.imageArchiveRejected "archive ended before every layer was read")
  else do
    let _ ← replayLayers outer pass.summaries {} selected.layers
    .ok ()

/-- The limit on the layers of an image. -/
structure AcquireLimits where
  maxLayers : Nat

/-- Validate an archive; `select` picks the image by the documents of the archive. -/
def validate (path : String) (limits : AcquireLimits)
    (select : OuterScan → Except ScanError Selected)
    (archive : List (Except String ArchiveEntry)) : Except ScanError Selected := do
  let outer ← scanOuter archive
  let selected ← select outer
  let layers := selected.layers.length
  let diffIds := selected.diffIds.length
  if layers > limits.maxLayers then
    .error (.imageArchiveRejected
      s!"image has {layers} layers; the limit is {limits.maxLayers}")
  else if layers ≠ diffIds then
    .error (.imageArchiveRejected s!"image config lists {diffIds} diff_ids for {layers} layers")
  else do
    scanLayers path archive outer selected
    .ok selected

end Awman.Oci
