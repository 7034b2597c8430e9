import Awman.Library.Cleanups
import Awman.Library.OrderedSets
import Awman.Library.SortedMaps
import Awman.Library.Utf8Text
import Mathlib.Data.Char
import Mathlib.Data.List.Lex

/-!
# Backups of the catalog

Before an upgrade the directory `db` of the builtin runtime is copied to a backup with a manifest of its
files, and a failed upgrade restores it from there under a journal.  Every operation may fail, stop
halfway, or be the last before the process dies.
-/

namespace Awman.CatalogBackups

open Awman.Interaction Awman.Utf8Text

/-- The bytes of a file. -/
abbrev Bytes := List UInt8

/-- The name of an entry. -/
abbrev Name := List UInt8

/-- A text. -/
abbrev Text := List Char

/-- An entry of a directory. -/
inductive Entry where
  | file (contents : Bytes)
  | directory (entries : List (Name × Entry))
  | symlink
  /-- A socket, a pipe or a device. -/
  | other

/-- The entries of a directory in the order of their names. -/
abbrev Tree := List (Name × Entry)

/-- Why something about a backup fails. -/
inductive CatalogError where
  | io
  | alreadyThere
  | symlink
  | unsupportedEntry
  | nameNotUtf8
  | notRealDirectory (what : String)
  | backupExists
  | invalidBackup (why : String)
  | sqlite

/-- The entry with a name. -/
def entryAt (tree : Tree) (name : Name) : Option Entry :=
  (tree.find? fun entry => entry.1 = name).map Prod.snd

/-- The entries with one more at its place. -/
def putEntry (tree : Tree) (name : Name) (entry : Entry) : Tree :=
  tree.orderedInsert (fun first second => first.1 ≤ second.1) (name, entry)

/-- The entries without the one that is skipped. -/
def withoutEntry (tree : Tree) (skip : Option Name) : Tree :=
  tree.filter fun entry => skip ≠ some entry.1

mutual

/-- The copy of a tree, without the entry that is skipped. -/
def copyTree (skip : Option Name) : Tree → Except CatalogError Tree
  | [] => .ok []
  | (name, entry) :: rest =>
    if skip = some name then copyTree skip rest
    else do
      let copy ← copyEntry entry
      let others ← copyTree skip rest
      return (name, copy) :: others
termination_by structural tree => tree

/-- The copy of an entry; links and anything that is no file and no directory are refused. -/
def copyEntry : Entry → Except CatalogError Entry
  | .file contents => .ok (.file contents)
  | .directory entries => .directory <$> copyTree none entries
  | .symlink => .error .symlink
  | .other => .error .unsupportedEntry
termination_by structural entry => entry

end

instance {κ β : Type} [LinearOrder κ] [DecidableEq β] : DecidableEq (SortedMap κ β) :=
  fun first second => decidable_of_iff (first.entries = second.entries) SortedMap.ext_iff.symm

/-- The sizes of files by their paths. -/
abbrev Sizes := SortedMap Text ℕ

mutual

/-- Every file of a tree with its size, by its path; one entry is left out. -/
def treeSizes (path : Text) (skip : Option Name) (sizes : Sizes) : Tree → Except CatalogError Sizes
  | [] => .ok sizes
  | (name, entry) :: rest =>
    if skip = some name then treeSizes path skip sizes rest
    else
      match fromUtf8 name with
      | none => .error .nameNotUtf8
      | some text =>
        match entrySizes (path ++ text) sizes entry with
        | .error err => .error err
        | .ok sizes => treeSizes path skip sizes rest
termination_by structural tree => tree

/-- An entry with its size, or the files of a directory with theirs. -/
def entrySizes (relative : Text) (sizes : Sizes) : Entry → Except CatalogError Sizes
  | .file contents => .ok (sizes.upsert relative fun _ => contents.length)
  | .directory entries => treeSizes (relative ++ ['/']) none sizes entries
  | .symlink => .error .unsupportedEntry
  | .other => .error .unsupportedEntry
termination_by structural entry => entry

end

/-- What the manifest of a backup records. -/
structure CatalogBackup where
  /-- The protocol whose catalog was backed up. -/
  fromProtocol : Text
  /-- The migrations applied to the database, if it has a ledger of them. -/
  migrations : Option (OrderedSet Text)
  /-- Every other file in the backup, by its path, with its size. -/
  files : Sizes

/-- How the JSON library writes manifests and reads them. -/
structure ManifestFormat where
  toVecPretty : CatalogBackup → Bytes
  fromSlice : Bytes → Option CatalogBackup
  /-- What was written is read. -/
  round : ∀ manifest, fromSlice (toVecPretty manifest) = some manifest
  /-- A text that lacks its end is no JSON. -/
  cut : ∀ manifest length, length < (toVecPretty manifest).length →
    fromSlice ((toVecPretty manifest).take length) = none
  /-- The path of every file stands in the text. -/
  paths_le : ∀ manifest : CatalogBackup,
    (manifest.files.entries.map fun file => file.1.length).sum ≤ (toVecPretty manifest).length

/-- The name of a file that SQLite keeps for a database. -/
def IsDatabaseFile (database name : Name) : Prop :=
  name = database ∨ name = database ++ asciiBytes "-wal".toList ∨
    name = database ++ asciiBytes "-shm".toList ∨ name = database ++ asciiBytes "-journal".toList

instance (database name : Name) : Decidable (IsDatabaseFile database name) :=
  inferInstanceAs (Decidable (_ ∨ _ ∨ _ ∨ _))

/-- Only files of the database have changed; none was added, and the database is still there. -/
structure Folded (database : Name) (before after : Tree) : Prop where
  others : (after.filter fun entry => ¬ IsDatabaseFile database entry.1) =
    before.filter fun entry => ¬ IsDatabaseFile database entry.1
  names : ∀ name ∈ after.map Prod.fst, name ∈ before.map Prod.fst
  main : database ∈ before.map Prod.fst → database ∈ after.map Prod.fst

/-- What SQLite does with a database in a directory. -/
structure Sqlite where
  /-- Fold the WAL of a database into its main file and read a ledger of migrations. -/
  checkpoint : Name → Option Text → Tree → Except CatalogError (Tree × Option (OrderedSet Text))
  /-- What a database says. -/
  Content : Type
  content : Name → Tree → Content
  folded : ∀ {database ledger before after migrations},
    checkpoint database ledger before = .ok (after, migrations) →
      Folded database before after ∧ content database after = content database before

/-! ## Operations in the state directory -/

/-- What stands in the state directory under each name. -/
abbrev Home := Name → Option Entry

/-- What the operating system answers. -/
inductive Answer where
  | done
  /-- The operation fails and changes nothing. -/
  | refused
  /-- An operation on a directory fails and leaves these entries. -/
  | partly (tree : Tree)

/-- A program that works in the state directory. -/
abbrev Catalog (α : Type) := Program Answer Home CatalogError α

/-- Ask the operating system for an operation. -/
def attempt : Catalog Unit := do
  let accepted ← receive fun
    | .done => some true
    | .refused => some false
    | .partly _ => none
  if accepted then pure () else fail .io

/-- Ask for an operation that may stop halfway in a directory. -/
def attemptIn (name : Name) : Catalog Unit := do
  let left ← receive fun
    | .done => some (none, true)
    | .refused => some (none, false)
    | .partly tree => some (some tree, false)
  match left with
  | (none, true) => pure ()
  | (none, false) => fail .io
  | (some tree, _) => do
    modifyState fun home => Function.update home name (some (.directory tree))
    fail .io

/-- Make a directory. -/
def mkdirAt (name : Name) (exists' : CatalogError) : Catalog Unit := do
  attempt
  let home ← getState
  if (home name).isSome then fail exists'
  else modifyState fun home => Function.update home name (some (.directory []))

/-- Open a directory that is no link. -/
def openDirAt (name : Name) (what : String) : Catalog Tree := do
  attempt
  let home ← getState
  match home name with
  | some (.directory tree) => pure tree
  | some (.file _) => fail (.notRealDirectory what)
  | some .symlink => fail (.notRealDirectory what)
  | some .other => fail (.notRealDirectory what)
  | none => fail .io

/-- Give an entry another name, at which nothing or an empty directory stands. -/
def renameAt (source target : Name) : Catalog Unit := do
  attempt
  modifyState fun home => Function.update (Function.update home target (home source)) source none

/-- Remove a directory and all in it. -/
def removeDirAll (name : Name) : Catalog Unit := do
  attemptIn name
  modifyState fun home => Function.update home name none

/-- Remove an entry. -/
def unlinkAt (name : Name) : Catalog Unit := do
  attempt
  modifyState fun home => Function.update home name none

/-- Sync a directory. -/
def syncDir : Catalog Unit := attempt

/-- Copy a tree into a new directory. -/
def copyInto (skip : Option Name) (source : Tree) (target : Name) : Catalog Unit := do
  attemptIn target
  let copy ← ofExcept (copyTree skip source)
  modifyState fun home => Function.update home target (some (.directory copy))

variable (format : ManifestFormat) (sqlite : Sqlite)

/-- Fold the WAL of a database in a directory. -/
def checkpointDatabase (directory database : Name) (ledger : Option Text) :
    Catalog (Option (OrderedSet Text)) := do
  attemptIn directory
  let tree ← openDirAt directory "builtin catalog copy"
  let (after, migrations) ← ofExcept (sqlite.checkpoint database ledger tree)
  modifyState fun home => Function.update home directory (some (.directory after))
  return migrations

/-! ## Making a backup -/

/-- The name of the manifest. -/
def catalogBackupManifest : Name := asciiBytes "awman-catalog-backup.json".toList

/-- The name of the journal of a restore. -/
def catalogRestoreJournal : Name := asciiBytes "awman-catalog-restore".toList

/-- The name of the catalog. -/
def dbName : Name := asciiBytes "db".toList

/-- What the name of every backup starts with. -/
def backupPrefix : Name := asciiBytes "db.pre-".toList

/-- A protocol as a part of a file name. -/
def sanitiseBackupComponent (fromProtocol : Text) : Text :=
  let sanitised := fromProtocol.map fun character =>
    if character.isAlphanum || character ∈ ['.', '_', '-'] then character else '_'
  if sanitised.isEmpty then ['_'] else sanitised

/-- Where the backup is put that is taken before upgrading from a protocol. -/
def catalogBackupPath (fromProtocol : Text) : Name :=
  backupPrefix ++ asciiBytes (sanitiseBackupComponent fromProtocol)

/-- Write a new file in a directory. -/
def writeNewFileAt (directory name : Name) (bytes : Bytes) : Catalog Unit := do
  attemptIn directory
  let tree ← openDirAt directory "builtin catalog copy"
  if (entryAt tree name).isSome then fail .alreadyThere
  else modifyState fun home => Function.update home directory (some (.directory (putEntry tree name (.file bytes))))

/-- The name of the directory in which a backup is staged. -/
def backupStaging (backup id : Name) : Name :=
  asciiBytes ".".toList ++ backup ++ asciiBytes ".partial-".toList ++ id

/-- Stage a backup and give it its name. -/
def stageBackup (fromProtocol : Text) (database : Name) (ledger : Text) (source : Tree)
    (staging : Name) : Catalog Unit := do
  mkdirAt staging .alreadyThere
  let _ ← openDirAt staging "builtin catalog copy"
  copyInto none source staging
  let migrations ← checkpointDatabase sqlite staging database (some ledger)
  let staged ← openDirAt staging "builtin catalog copy"
  let files ← ofExcept (treeSizes [] none .empty staged)
  let bytes := format.toVecPretty ⟨fromProtocol, migrations, files⟩
  writeNewFileAt staging catalogBackupManifest bytes
  syncDir
  mkdirAt (catalogBackupPath fromProtocol) .backupExists
  onFailure (renameAt staging (catalogBackupPath fromProtocol))
    (unlinkAt (catalogBackupPath fromProtocol))

/-- Copy the catalog to a new private backup. -/
def backupCatalog (fromProtocol : Text) (database : Name) (ledger : Text) (id : Name) :
    Catalog Name := do
  let source ← openDirAt dbName "builtin catalog"
  attempt
  let home ← getState
  if (home (catalogBackupPath fromProtocol)).isSome then fail .backupExists
  else do
    onFailure (stageBackup format sqlite fromProtocol database ledger source
        (backupStaging (catalogBackupPath fromProtocol) id))
      (removeDirAll (backupStaging (catalogBackupPath fromProtocol) id))
    onFailure syncDir (removeDirAll (catalogBackupPath fromProtocol))
    return catalogBackupPath fromProtocol

/-- As much of a manifest is read. -/
def manifestLimit : ℕ := 2 ^ 20

/-- The manifest of a backup, after checking that its files are the ones that the manifest lists. -/
def verifiedCatalogBackup (home : Home) (backup : Name) : Except CatalogError CatalogBackup :=
  if ¬ backupPrefix <+: backup then
    .error (.invalidBackup "not a db.pre-* directory of this state directory")
  else
    match home backup with
    | none => .error .io
    | some (.directory tree) =>
      match entryAt tree catalogBackupManifest with
      | none => .error (.invalidBackup "it has no manifest")
      | some (.file contents) =>
        match format.fromSlice (contents.take manifestLimit) with
        | none => .error (.invalidBackup "its manifest cannot be read")
        | some manifest =>
          match treeSizes [] (some catalogBackupManifest) .empty tree with
          | .error _ => .error (.invalidBackup "it contains an entry that cannot be checked")
          | .ok files =>
            if files ≠ manifest.files then .error (.invalidBackup "its files do not match its manifest")
            else .ok manifest
      | some _ => .error .io
    | some _ => .error (.notRealDirectory "builtin catalog backup")

section Operations

variable {home : Home} {halt : Home → Prop} {name directory source target : Name}

section

variable {post : Unit → Home → Prop}

theorem ensures_attempt (hpost : post () home) (hhalt : halt home) : Ensures attempt home post halt := by
  refine .bind (.receive hhalt fun accepted => ?_)
  cases accepted with
  | true => exact .pure hpost
  | false => exact .fail hhalt

theorem ensures_attemptIn (hpost : post () home) (hhalt : halt home)
    (hpartly : ∀ tree, halt (Function.update home name (some (.directory tree)))) :
    Ensures (attemptIn name) home post halt := by
  refine .bind (.receive hhalt fun left => ?_)
  obtain ⟨left, accepted⟩ := left
  cases left with
  | none =>
    cases accepted with
    | true => exact .pure hpost
    | false => exact .fail hhalt
  | some tree => exact .change (.fail (hpartly tree))

theorem ensures_mkdirAt {exists' : CatalogError}
    (hpost : home name = none → post () (Function.update home name (some (.directory []))))
    (hhalt : halt home) : Ensures (mkdirAt name exists') home post halt := by
  refine .bind (ensures_attempt (.read ?_) hhalt)
  split
  · exact .fail hhalt
  · rename_i hnone
    exact .modifyState (hpost (Option.not_isSome_iff_eq_none.mp hnone))

end

theorem ensures_openDirAt {post : Tree → Home → Prop} {what : String}
    (hpost : ∀ tree, home name = some (.directory tree) → post tree home) (hhalt : halt home) :
    Ensures (openDirAt name what) home post halt := by
  refine .bind (ensures_attempt (.read ?_) hhalt)
  split
  · rename_i tree htree
    exact .pure (hpost tree htree)
  · exact .fail hhalt
  · exact .fail hhalt
  · exact .fail hhalt
  · exact .fail hhalt

section

variable {post : Unit → Home → Prop}

theorem ensures_renameAt
    (hpost : post () (Function.update (Function.update home target (home source)) source none))
    (hhalt : halt home) : Ensures (renameAt source target) home post halt :=
  .bind (ensures_attempt (.modifyState hpost) hhalt)

theorem ensures_removeDirAll (hpost : post () (Function.update home name none)) (hhalt : halt home)
    (hpartly : ∀ tree, halt (Function.update home name (some (.directory tree)))) :
    Ensures (removeDirAll name) home post halt :=
  .bind (ensures_attemptIn (.modifyState hpost) hhalt hpartly)

theorem ensures_unlinkAt (hpost : post () (Function.update home name none)) (hhalt : halt home) :
    Ensures (unlinkAt name) home post halt :=
  .bind (ensures_attempt (.modifyState hpost) hhalt)

theorem ensures_copyInto {skip : Option Name} {tree : Tree}
    (hpost : ∀ copy, copyTree skip tree = .ok copy →
      post () (Function.update home target (some (.directory copy))))
    (hhalt : halt home) (hpartly : ∀ tree, halt (Function.update home target (some (.directory tree)))) :
    Ensures (copyInto skip tree target) home post halt :=
  .bind (ensures_attemptIn (.bind (.ofExcept hhalt fun copy hcopy =>
    .modifyState (hpost copy hcopy))) hhalt hpartly)

end

theorem ensures_checkpointDatabase {post : Option (OrderedSet Text) → Home → Prop} {database : Name}
    {ledger : Option Text} (hpost : ∀ tree after migrations, home directory = some (.directory tree) →
      sqlite.checkpoint database ledger tree = .ok (after, migrations) →
      post migrations (Function.update home directory (some (.directory after)))) (hhalt : halt home)
    (hpartly : ∀ tree, halt (Function.update home directory (some (.directory tree)))) :
    Ensures (checkpointDatabase sqlite directory database ledger) home post halt := by
  refine .bind (ensures_attemptIn (.bind (ensures_openDirAt ?_ hhalt)) hhalt hpartly)
  intro tree htree
  refine .bind (.ofExcept hhalt fun result hresult => ?_)
  exact .change (.pure (hpost tree result.1 result.2 htree hresult))

theorem ensures_writeNewFileAt {post : Unit → Home → Prop} {bytes : Bytes}
    (hpost : ∀ tree, home directory = some (.directory tree) → entryAt tree name = none →
      post () (Function.update home directory (some (.directory (putEntry tree name (.file bytes))))))
    (hhalt : halt home) (hpartly : ∀ tree, halt (Function.update home directory (some (.directory tree)))) :
    Ensures (writeNewFileAt directory name bytes) home post halt := by
  refine .bind (ensures_attemptIn (.bind (ensures_openDirAt ?_ hhalt)) hhalt hpartly)
  intro tree htree
  split
  · exact .fail hhalt
  · rename_i hnone
    exact .modifyState (hpost tree htree (Option.not_isSome_iff_eq_none.mp hnone))

end Operations

/-! ## Trees -/

mutual

/-- A copy has the entries of its source. -/
theorem eq_of_copyTree {skip : Option Name} : ∀ {tree copy : Tree}, copyTree skip tree = .ok copy →
    copy = withoutEntry tree skip
  | [], _, h => (Except.ok.inj h).symm
  | (name, entry) :: rest, copy, h => by
      rw [copyTree] at h
      split at h
      · rename_i hskip
        rw [eq_of_copyTree h, withoutEntry, withoutEntry, List.filter_cons_of_neg]
        simp [hskip]
      · rename_i hkeep
        cases hentry : copyEntry entry with
        | error err =>
          rw [hentry] at h
          cases h
        | ok first =>
          cases hrest : copyTree skip rest with
          | error err =>
            rw [hentry, hrest] at h
            cases h
          | ok others =>
            rw [hentry, hrest] at h
            rw [← Except.ok.inj h, eq_of_copyEntry hentry, eq_of_copyTree hrest, withoutEntry,
              withoutEntry, List.filter_cons_of_pos]
            simp [hkeep]

/-- A copy is the entry that was copied. -/
theorem eq_of_copyEntry : ∀ {entry copy : Entry}, copyEntry entry = .ok copy → copy = entry
  | .file _, _, h => (Except.ok.inj h).symm
  | .directory entries, copy, h => by
      rw [copyEntry] at h
      cases hentries : copyTree none entries with
      | error err =>
        rw [hentries] at h
        cases h
      | ok others =>
        rw [hentries] at h
        rw [← Except.ok.inj h, eq_of_copyTree hentries, withoutEntry, List.filter_eq_self.mpr]
        intro entry _
        simp
  | .symlink, _, h => nomatch h
  | .other, _, h => nomatch h

end

section Trees

variable {name : Name} {entry : Entry} {tree : Tree}

theorem withoutEntry_none : withoutEntry tree none = tree := by
  rw [withoutEntry, List.filter_eq_self]
  intro entry _
  simp

theorem entryAt_cons_none {first : Name × Entry} {rest : Tree}
    (hnone : entryAt (first :: rest) name = none) : first.1 ≠ name ∧ entryAt rest name = none := by
  have hfirst : first.1 ≠ name := by
    intro heq
    simp [entryAt, heq] at hnone
  exact ⟨hfirst, by simpa [entryAt, hfirst] using hnone⟩

/-- A new entry is found under its name. -/
theorem entryAt_putEntry (hnone : entryAt tree name = none) :
    entryAt (putEntry tree name entry) name = some entry := by
  induction tree with
  | nil => simp [entryAt, putEntry]
  | cons first rest ih =>
    obtain ⟨hfirst, hrest⟩ := entryAt_cons_none hnone
    rw [putEntry, List.orderedInsert_cons]
    split
    · simp [entryAt]
    · have hput := ih hrest
      rw [entryAt, List.find?_cons_of_neg (by simpa using hfirst)]
      exact hput

/-- An entry that is skipped does not count where it was put. -/
theorem treeSizes_putEntry (path : Text) (sizes : Sizes) :
    treeSizes path (some name) sizes (putEntry tree name entry) =
      treeSizes path (some name) sizes tree := by
  induction tree generalizing sizes with
  | nil =>
    change treeSizes path (some name) sizes [(name, entry)] = treeSizes path (some name) sizes []
    rw [treeSizes.eq_2, if_pos rfl]
  | cons first rest ih =>
    rw [putEntry, List.orderedInsert_cons]
    split
    · rw [treeSizes, if_pos rfl]
    · change treeSizes path (some name) sizes (first :: putEntry rest name entry) = _
      rw [treeSizes, treeSizes, ih]
      split
      · rfl
      · cases fromUtf8 first.1 with
        | none => rfl
        | some text =>
          cases hsizes : entrySizes (path ++ text) sizes first.2 with
          | error err => simp only [hsizes]
          | ok next => simp only [hsizes, ih]

/-- Skipping a name that is not there changes nothing. -/
theorem treeSizes_skip (path : Text) (sizes : Sizes) (hnone : entryAt tree name = none) :
    treeSizes path (some name) sizes tree = treeSizes path none sizes tree := by
  induction tree generalizing sizes with
  | nil => rfl
  | cons first rest ih =>
    obtain ⟨hfirst, hrest⟩ := entryAt_cons_none hnone
    rw [treeSizes, treeSizes, if_neg (fun h => hfirst (Option.some.inj h).symm), if_neg nofun]
    cases fromUtf8 first.1 with
    | none => rfl
    | some text =>
      cases hsizes : entrySizes (path ++ text) sizes first.2 with
      | error err => simp only [hsizes]
      | ok next => simp only [hsizes, ih _ hrest]

end Trees

/-! ## What a backup is -/

/-- A directory with a manifest of the files that are in it. -/
structure CompleteBackup (entry : Option Entry) (manifest : CatalogBackup) (staged : Tree) : Prop where
  entry_eq : entry =
    some (.directory (putEntry staged catalogBackupManifest (.file (format.toVecPretty manifest))))
  fresh : entryAt staged catalogBackupManifest = none
  sizes : treeSizes [] none .empty staged = .ok manifest.files

theorem backupStaging_ne (backup id : Name) {other : Name} (h : other.head? ≠ some 46) :
    backupStaging backup id ≠ other := by
  intro heq
  have hhead := congrArg List.head? heq
  exact h hhead.symm

theorem head?_catalogBackupPath (fromProtocol : Text) :
    (catalogBackupPath fromProtocol).head? = some 100 := rfl

section Backups

variable {format : ManifestFormat} {sqlite : Sqlite} {home : Home} {fromProtocol : Text}
  {database id : Name} {ledger : Text}

/-- What is staged has its manifest and stands under the name of the backup. -/
theorem ensures_stageBackup {source : Tree} {staging : Name}
    (hne : staging ≠ catalogBackupPath fromProtocol) :
    Ensures (stageBackup format sqlite fromProtocol database ledger source staging) home
      (fun _ after => ∃ staged manifest, Folded database source staged ∧
        manifest.fromProtocol = fromProtocol ∧
        CompleteBackup format (after (catalogBackupPath fromProtocol)) manifest staged)
      (fun _ => True) := by
  refine .bind (ensures_mkdirAt (fun hnone => ?_) trivial)
  refine .bind (ensures_openDirAt (fun empty hempty => ?_) trivial)
  refine .bind (ensures_copyInto (fun copy hcopy => ?_) trivial fun _ => trivial)
  refine .bind (ensures_checkpointDatabase sqlite (fun tree staged migrations htree hstaged => ?_)
    trivial fun _ => trivial)
  rw [Function.update_self] at htree
  cases htree
  have hfolded := (sqlite.folded hstaged).1
  rw [eq_of_copyTree hcopy, withoutEntry_none] at hfolded
  refine .bind (ensures_openDirAt (fun staged' hstaged' => ?_) trivial)
  rw [Function.update_self] at hstaged'
  cases hstaged'
  refine .bind (.ofExcept trivial fun files hfiles => ?_)
  refine .bind (ensures_writeNewFileAt (fun written hwritten hfresh => ?_) trivial
    fun _ => trivial)
  rw [Function.update_self] at hwritten
  cases hwritten
  refine .bind (ensures_attempt ?_ trivial)
  refine .bind (ensures_mkdirAt (fun _ => ?_) trivial)
  refine (ensures_renameAt ?_ trivial).onFailure fun _ _ => ensures_unlinkAt trivial trivial
  refine ⟨staged, ⟨fromProtocol, migrations, files⟩, hfolded, rfl, ?_, hfresh, hfiles⟩
  rw [Function.update_of_ne hne.symm, Function.update_self, Function.update_of_ne hne,
    Function.update_self]

/-- A backup that is reported as complete has a manifest of its files, which are those of the catalog. -/
theorem ensures_backupCatalog :
    Ensures (backupCatalog format sqlite fromProtocol database ledger id) home
      (fun backup after => backup = catalogBackupPath fromProtocol ∧ ∃ source staged manifest,
        home dbName = some (.directory source) ∧ Folded database source staged ∧
        manifest.fromProtocol = fromProtocol ∧ CompleteBackup format (after backup) manifest staged)
      (fun _ => True) := by
  have hne : backupStaging (catalogBackupPath fromProtocol) id ≠ catalogBackupPath fromProtocol :=
    backupStaging_ne _ _ (by rw [head?_catalogBackupPath]; decide)
  refine .bind (ensures_openDirAt (fun source hsource => ?_) trivial)
  refine .bind (ensures_attempt (.read ?_) trivial)
  split
  · exact .fail trivial
  · refine .seq ((ensures_stageBackup hne).onFailure fun _ _ =>
      ensures_removeDirAll trivial trivial fun _ => trivial) ?_
    rintro _ after ⟨staged, manifest, hfolded, hfrom, hcomplete⟩
    have hsync : Ensures (onFailure syncDir (removeDirAll (catalogBackupPath fromProtocol))) after
        (fun _ later => later = after) (fun _ => True) :=
      .onFailure (ensures_attempt rfl trivial) fun _ _ =>
        ensures_removeDirAll trivial trivial fun _ => trivial
    apply Ensures.seq hsync
    rintro _ _ rfl
    exact Ensures.pure ⟨rfl, source, staged, manifest, hsource, hfolded, hfrom, hcomplete⟩

/-- A complete backup is accepted if its manifest is read to its end, and refused otherwise. -/
theorem CompleteBackup.verified {backup : Name} {manifest : CatalogBackup} {staged : Tree}
    (h : CompleteBackup format (home backup) manifest staged) (hname : backupPrefix <+: backup) :
    verifiedCatalogBackup format home backup =
      if (format.toVecPretty manifest).length ≤ manifestLimit then .ok manifest
      else .error (.invalidBackup "its manifest cannot be read") := by
  rw [verifiedCatalogBackup, if_neg (not_not.mpr hname), h.entry_eq]
  simp only [entryAt_putEntry h.fresh]
  by_cases hshort : (format.toVecPretty manifest).length ≤ manifestLimit
  · rw [if_pos hshort, List.take_of_length_le hshort, format.round]
    simp only [treeSizes_putEntry, treeSizes_skip _ _ h.fresh, h.sizes, ne_eq, not_true_eq_false,
      if_false]
  · rw [if_neg hshort, format.cut manifest manifestLimit (by omega)]

/-- A directory that is accepted has the files that its manifest lists. -/
theorem sizes_of_verified {backup : Name} {manifest : CatalogBackup}
    (h : verifiedCatalogBackup format home backup = .ok manifest) :
    ∃ tree, home backup = some (.directory tree) ∧
      treeSizes [] (some catalogBackupManifest) .empty tree = .ok manifest.files := by
  unfold verifiedCatalogBackup at h
  split at h
  · cases h
  · split at h
    · cases h
    · rename_i tree htree
      split at h
      · cases h
      · split at h
        · cases h
        · split at h
          · cases h
          · rename_i hsizes
            split at h
            · cases h
            · rename_i hsame
              cases h
              rw [not_not.mp hsame] at hsizes
              exact ⟨tree, htree, hsizes⟩
      · cases h
    · cases h

end Backups

end Awman.CatalogBackups
