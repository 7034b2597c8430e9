import Awman.Library.LinkedDisks

/-!
# Isolated metadata of a workflow

The steps of a workflow run git in a private directory beside the repository.  Before each step the
objects, refs, `HEAD` and the index of the repository are copied into it, and after a setup step they
are copied back.  Links are never followed where files are copied.
-/

namespace Awman.GitMetadata

open Awman.Disks Awman.Interaction

variable {γ : Type}

/-- The name of a file or a directory. -/
abbrev Text : Type := List Char

/-- The path of a file or a directory. -/
abbrev Path : Type := List Text

/-- A disk with names as git has them. -/
abbrev MetadataDisk (γ : Type) : Type := Disk Text γ

/-- A program over such a disk. -/
abbrev MetadataIo (γ : Type) (α : Type) : Type := Io Text γ α

/-! ## Copying without following links -/

/-- Make a directory on the way, if directories are to be made. -/
def createParent (create : Bool) (path : Path) (name : Text) : MetadataIo γ Unit :=
  if create then makeDirectory path name else pure ()

/-- Open the directories on a path one by one. -/
def openParents (create : Bool) : Path → Path → MetadataIo γ Unit
  | _, [] => pure ()
  | path, name :: rest => do
    createParent create path name
    openDirectory (path ++ [name])
    openParents create (path ++ [name]) rest

/-- Open a file for writing, and make it if it is not there; a file with another name is refused. -/
def openOutput (dest : Path) (destName : Text) : MetadataIo γ Nat := do
  attempt
  modifyState fun disk => disk.put dest destName (.file disk.unused)
  let disk ← getState
  match disk.node (dest ++ [destName]) with
  | some (.file inode) => if disk.links inode = 1 then pure inode else fail .unusable
  | some (.link _ _) => fail .tooManyLinks
  | _ => fail .unusable

/-- Copy a file that is open. -/
def copyFile (input : Nat) (dest : Path) (destName : Text) : MetadataIo γ Unit := do
  let output ← openOutput dest destName
  attempt
  modifyState fun disk => disk.write output []
  attempt
  modifyState fun disk => disk.write output (disk.data input)

/-- Copy a file or a directory; a link or a special file stops the copy. -/
def copyTree : Nat → Path → Text → Path → Text → MetadataIo γ Unit
  | 0, _, _, _, _ => wait
  | depth + 1, source, sourceName, dest, destName => do
    attempt
    let disk ← getState
    match disk.node (source ++ [sourceName]) with
    | some .directory => do
      makeDirectory dest destName
      openDirectory (dest ++ [destName])
      let disk ← getState
      forEach (disk.children (source ++ [sourceName])) fun name =>
        copyTree depth (source ++ [sourceName]) name (dest ++ [destName]) name
    | some (.file input) => copyFile input dest destName
    | some (.link _ _) => fail .tooManyLinks
    | some .special => fail .unusable
    | none => fail .notFound

/-- Copy inert metadata. -/
def copy (source dest : Path) : MetadataIo γ Unit :=
  match source.getLast?, dest.getLast? with
  | some sourceName, some destName => do
    openParents false [] source.dropLast
    openParents true [] dest.dropLast
    let disk ← getState
    -- No directory of the source is nested deeper.
    copyTree (disk.depth + 1) source.dropLast sourceName dest.dropLast destName
  | _, _ => fail .unusable

/-- Make a directory again after those above it were made. -/
def makeDirectoryAgain (path : Path) : Except IoError Unit → MetadataIo γ Unit
  | .ok () => pure ()
  | .error error => do
    let disk ← getState
    if disk.isDirectory path then pure () else fail error

/-- Make a directory and those above it; links are followed.  The path is given from its end. -/
def createDirAll : Path → MetadataIo γ Unit
  | [] => pure ()
  | name :: above => do
    match ← makeDirectoryAt above.reverse name with
    | .error .notFound => do
      createDirAll above
      let made ← makeDirectoryAt above.reverse name
      makeDirectoryAgain (above.reverse ++ [name]) made
    | made => makeDirectoryAgain (above.reverse ++ [name]) made

/-- Copy the objects that are not there yet. -/
def copyNewObjects : Nat → Path → Path → MetadataIo γ Unit
  | 0, _, _ => wait
  | depth + 1, source, dest => do
    attempt
    let disk ← getState
    match disk.node source with
    | none => fail .notFound
    | some .directory => do
      createDirAll dest.reverse
      let disk ← getState
      forEach (disk.children source) fun name =>
        copyNewObjects depth (source ++ [name]) (dest ++ [name])
    | some _ => do
      let there ← tryExists dest
      if there then pure () else copy source dest

/-! ## The metadata of a workflow -/

def objects : Text := "objects".toList
def refs : Text := "refs".toList
def packedRefs : Text := "packed-refs".toList
def shallow : Text := "shallow".toList
def head : Text := "HEAD".toList
def index : Text := "index".toList
def info : Text := "info".toList
def worktrees : Text := "worktrees".toList

/-- Where the metadata of a repository lies; a linked worktree has a directory of its own. -/
structure WorkflowGitSource where
  /-- The directory that worktrees share. -/
  common : Path
  /-- The directory of the worktree. -/
  admin : Path
  /-- The directory of a linked worktree lies in the shared one. -/
  layout : admin = common ∨ ∃ worktree, admin = common ++ [worktrees, worktree]

/-- The private directory and the metadata it is a copy of. -/
structure RemotePushGit where
  privateDir : Path
  original : WorkflowGitSource
  /-- Neither directory lies in the other. -/
  apart : ¬ privateDir <+: original.common ∧ ¬ original.common <+: privateDir

/-- Copy what is there. -/
def copyExisting (source dest : Path) : MetadataIo γ Unit := do
  let disk ← getState
  if disk.exists_ source then copy source dest else pure ()

namespace RemotePushGit

variable (git : RemotePushGit)

/-- Copy every directory of objects; what lies in `info` is not inert. -/
def refreshObjects : MetadataIo γ Unit := do
  attempt
  let disk ← getState
  match disk.realPath (git.original.common ++ [objects]) with
  | .error error => fail error
  | .ok real =>
    if disk.node real = some .directory then
      forEach ((disk.children real).filter (· ≠ info)) fun name =>
        copy (git.original.common ++ [objects, name]) (git.privateDir ++ [objects, name])
    else fail .notDirectory

/-- Copy the metadata into the private directory. -/
def refreshWorkflowMetadata : MetadataIo γ Unit := do
  git.refreshObjects
  forEach [refs, packedRefs, shallow] fun name =>
    copyExisting (git.original.common ++ [name]) (git.privateDir ++ [name])
  forEach [head, index] fun name =>
    copyExisting (git.original.admin ++ [name]) (git.privateDir ++ [name])

/-- Copy the objects back. -/
def syncObjects : MetadataIo γ Unit := do
  let disk ← getState
  if disk.exists_ (git.privateDir ++ [objects]) then
    copyNewObjects (disk.depth + 1) (git.privateDir ++ [objects])
      (git.original.common ++ [objects])
  else pure ()

/-- Copy the metadata back to the repository. -/
def syncWorkflowMetadata : MetadataIo γ Unit := do
  git.syncObjects
  forEach [refs, packedRefs, shallow] fun name =>
    copyExisting (git.privateDir ++ [name]) (git.original.common ++ [name])
  forEach [head, index] fun name =>
    copyExisting (git.privateDir ++ [name]) (git.original.admin ++ [name])

end RemotePushGit

end Awman.GitMetadata
