import Awman.CatalogBackups
import Mathlib.Algebra.Order.BigOperators.Group.List
import Mathlib.Algebra.Order.Ring.Nat
import Mathlib.Data.Countable.Basic
import Mathlib.Logic.Equiv.List
import Mathlib.Data.Nat.Pairing

/-!
# Restoring the catalog

A restore publishes its journal before it touches `db`, swaps a staged copy of the backup in with two
renames, and removes the journal once the copy stands there.
-/

namespace Awman.CatalogBackups

open Awman.Interaction Awman.Utf8Text

/-! ## The restore -/

/-- The name under which a file is written before it is published. -/
def publishTemporary (name id : Name) : Name :=
  asciiBytes ".".toList ++ name ++ asciiBytes ".".toList ++ id ++ asciiBytes ".tmp".toList

/-- Write a new file in the state directory. -/
def writeHomeFile (name : Name) (bytes : Bytes) : Catalog Unit := do
  attempt
  let home ← getState
  if (home name).isSome then fail .alreadyThere
  else do
    modifyState fun home => Function.update home name (some (.file bytes))
    attempt

/-- Replace or create a file in the state directory. -/
def publishFile (name : Name) (bytes : Bytes) (id : Name) : Catalog Unit := do
  onFailure
    (do
      writeHomeFile (publishTemporary name id) bytes
      renameAt (publishTemporary name id) name)
    (unlinkAt (publishTemporary name id))
  syncDir

/-- The name of the directory in which a copy is staged. -/
def restoreStaging (id : Name) : Name := asciiBytes ".db.restore-".toList ++ id

/-- The name under which the old catalog is put. -/
def restoreDiscard (id : Name) : Name := asciiBytes ".db.discard-".toList ++ id

variable (format : ManifestFormat) (sqlite : Sqlite)

/-- Stage a copy of a backup. -/
def stageRestore (source : Tree) (database staging : Name) : Catalog Unit := do
  mkdirAt staging .alreadyThere
  let _ ← openDirAt staging "builtin catalog copy"
  copyInto (some catalogBackupManifest) source staging
  let _ ← checkpointDatabase sqlite staging database none
  syncDir

/-- Give the catalog another name, if it is there. -/
def displaceDb (discarded : Name) : Catalog Bool := do
  attempt
  let home ← getState
  if (home dbName).isSome then do
    modifyState fun home => Function.update (Function.update home discarded (home dbName)) dbName none
    return true
  else return false

/-- Put a catalog back that was given another name. -/
def putBack (displaced : Bool) (discarded staging : Name) : Catalog Unit := do
  if displaced then do
    let _ ← catching (renameAt discarded dbName)
    removeDirAll staging
  else removeDirAll staging

/-- Replace the catalog with a copy of a backup. -/
def restoreCatalog (backup database id publishId : Name) : Catalog Unit := do
  let home ← getState
  let _ ← ofExcept (verifiedCatalogBackup format home backup)
  let source ← openDirAt backup "builtin catalog backup"
  publishFile catalogRestoreJournal backup publishId
  onFailure (stageRestore sqlite source database (restoreStaging id)) (removeDirAll (restoreStaging id))
  let displaced ← onFailure (displaceDb (restoreDiscard id)) (removeDirAll (restoreStaging id))
  onFailure (renameAt (restoreStaging id) dbName) (putBack displaced (restoreDiscard id) (restoreStaging id))
  syncDir
  unlinkAt catalogRestoreJournal
  syncDir
  let _ ← catching (removeDirAll (restoreDiscard id))
  return ()

/-! ## What a restore leaves -/

/-- The directory has the files of a backup, up to the folding of the WAL. -/
def Restored (database : Name) (source : Tree) (entry : Option Entry) : Prop :=
  ∃ tree, entry = some (.directory tree) ∧
    Folded database (withoutEntry source (some catalogBackupManifest)) tree ∧
    sqlite.content database tree =
      sqlite.content database (withoutEntry source (some catalogBackupManifest))

/-- The journal is there. -/
def Journalled (home : Home) : Prop := home catalogRestoreJournal ≠ none

/-- Where a restore may stop: the catalog is as it was, the journal is there, or the catalog has the files
of the backup. -/
def SafeRestore (before : Home) (backup database : Name) (after : Home) : Prop :=
  after dbName = before dbName ∨ Journalled after ∨
    ∃ source, before backup = some (.directory source) ∧
      Restored sqlite database source (after dbName)

theorem ne_of_head? {name other : Name} (h : name.head? ≠ other.head?) : name ≠ other :=
  fun heq => h (congrArg List.head? heq)

section Names

variable (name id : Name)

theorem publishTemporary_ne_dbName : publishTemporary name id ≠ dbName :=
  ne_of_head? (show some (46 : UInt8) ≠ some 100 by decide)

theorem publishTemporary_ne_journal : publishTemporary name id ≠ catalogRestoreJournal :=
  ne_of_head? (show some (46 : UInt8) ≠ some 97 by decide)

theorem restoreStaging_ne_dbName : restoreStaging id ≠ dbName :=
  ne_of_head? (show some (46 : UInt8) ≠ some 100 by decide)

theorem restoreStaging_ne_journal : restoreStaging id ≠ catalogRestoreJournal :=
  ne_of_head? (show some (46 : UInt8) ≠ some 97 by decide)

theorem restoreDiscard_ne_dbName : restoreDiscard id ≠ dbName :=
  ne_of_head? (show some (46 : UInt8) ≠ some 100 by decide)

theorem restoreDiscard_ne_journal : restoreDiscard id ≠ catalogRestoreJournal :=
  ne_of_head? (show some (46 : UInt8) ≠ some 97 by decide)

theorem restoreDiscard_ne_staging : restoreDiscard id ≠ restoreStaging id := by
  intro heq
  have hletter : some (100 : UInt8) = some 114 := congrArg (·[4]?) heq
  cases hletter

end Names

/-- A change elsewhere leaves the journal. -/
theorem Journalled.update {home : Home} {name : Name} (h : Journalled home)
    (hne : name ≠ catalogRestoreJournal) (entry : Option Entry) :
    Journalled (Function.update home name entry) := by
  rw [Journalled, Function.update_of_ne hne.symm]
  exact h

section Restores

variable {format : ManifestFormat} {sqlite : Sqlite} {home : Home} {backup database id publishId : Name}

/-- The journal is published before the catalog changes. -/
theorem ensures_publishFile {bytes : Bytes} :
    Ensures (publishFile catalogRestoreJournal bytes id) home (fun _ after => Journalled after)
      (fun after => after dbName = home dbName ∨ Journalled after) := by
  have htmp := publishTemporary_ne_dbName catalogRestoreJournal id
  have hjournal := publishTemporary_ne_journal catalogRestoreJournal id
  have hdb : catalogRestoreJournal ≠ dbName := by decide
  have hwrite : Ensures (writeHomeFile (publishTemporary catalogRestoreJournal id) bytes) home
      (fun _ after => after = Function.update home (publishTemporary catalogRestoreJournal id)
        (some (.file bytes))) (fun after => after dbName = home dbName) := by
    refine Ensures.bind (ensures_attempt (Ensures.bind (Ensures.getState ?_)) rfl)
    split
    · exact Ensures.fail rfl
    · refine Ensures.bind (Ensures.modifyState (ensures_attempt rfl ?_))
      exact Function.update_of_ne htmp.symm _ _
  have hstage : Ensures (do
      writeHomeFile (publishTemporary catalogRestoreJournal id) bytes
      renameAt (publishTemporary catalogRestoreJournal id) catalogRestoreJournal) home
      (fun _ after => Journalled after) (fun after => after dbName = home dbName) := by
    apply Ensures.seq hwrite
    rintro _ _ rfl
    refine ensures_renameAt ?_ (Function.update_of_ne htmp.symm _ _)
    rw [Journalled, Function.update_of_ne hjournal.symm, Function.update_self, Function.update_self]
    exact nofun
  have hpublish := hstage.onFailure fun before hbefore =>
    @ensures_unlinkAt before (fun after => after dbName = home dbName)
      (publishTemporary catalogRestoreJournal id) _
      ((Function.update_of_ne htmp.symm none before).trans hbefore) hbefore
  refine Ensures.seq (hpublish.mono (fun _ _ h => h) fun _ h => Or.inl h) fun _ after hafter => ?_
  exact ensures_attempt hafter (Or.inr hafter)

/-- What is staged has the files of the backup. -/
theorem ensures_stageRestore {source : Tree} (hjournal : Journalled home) :
    Ensures (stageRestore sqlite source database (restoreStaging id)) home
      (fun _ after => Journalled after ∧ Restored sqlite database source (after (restoreStaging id)))
      Journalled := by
  have hne := restoreStaging_ne_journal id
  have hupdate : ∀ (before : Home) (entry : Option Entry), Journalled before →
      Journalled (Function.update before (restoreStaging id) entry) := fun _ entry h => h.update hne entry
  have hmade := hupdate home (some (.directory [])) hjournal
  refine .bind (ensures_mkdirAt (fun _ => ?_) hjournal)
  refine .bind (ensures_openDirAt (fun _ _ => ?_) hmade)
  refine .bind (ensures_copyInto (fun copy hcopy => ?_) hmade fun _ => hupdate _ _ hmade)
  have hcopied := hupdate _ (some (.directory copy)) hmade
  refine .bind (ensures_checkpointDatabase sqlite (fun tree staged migrations htree hstaged => ?_)
    hcopied fun _ => hupdate _ _ hcopied)
  rw [Function.update_self] at htree
  cases htree
  have hfolded := sqlite.folded hstaged
  rw [eq_of_copyTree hcopy] at hfolded
  have hdone := hupdate _ (some (.directory staged)) hcopied
  refine ensures_attempt ⟨hdone, staged, ?_, hfolded.1, hfolded.2⟩ hdone
  rw [Function.update_self]

/-- The old catalog goes aside. -/
theorem ensures_displaceDb {entry : Option Entry} (hjournal : Journalled home)
    (hstaging : home (restoreStaging id) = entry) :
    Ensures (displaceDb (restoreDiscard id)) home
      (fun _ after => Journalled after ∧ after (restoreStaging id) = entry) Journalled := by
  refine .bind (ensures_attempt (.read ?_) hjournal)
  split
  · refine .change (.pure ⟨?_, ?_⟩)
    · exact (hjournal.update (restoreDiscard_ne_journal id) _).update (by decide) none
    · rw [Function.update_of_ne (restoreStaging_ne_dbName id),
        Function.update_of_ne (restoreDiscard_ne_staging id).symm]
      exact hstaging
  · exact .pure ⟨hjournal, hstaging⟩

theorem ensures_removeStaging (hjournal : Journalled home) :
    Ensures (removeDirAll (restoreStaging id)) home (fun _ after => Journalled after) Journalled :=
  ensures_removeDirAll (hjournal.update (restoreStaging_ne_journal id) none) hjournal
    fun _ => hjournal.update (restoreStaging_ne_journal id) _

theorem ensures_putBack {displaced : Bool} (hjournal : Journalled home) :
    Ensures (putBack displaced (restoreDiscard id) (restoreStaging id)) home
      (fun _ after => Journalled after) Journalled := by
  rw [putBack]
  split
  · have hrename : Ensures (renameAt (restoreDiscard id) dbName) home (fun _ after => Journalled after)
        Journalled := by
      refine ensures_renameAt ?_ hjournal
      exact (hjournal.update (by decide) _).update (restoreDiscard_ne_journal id) none
    exact .seq hrename.caught fun _ _ hafter => ensures_removeStaging hafter
  · exact ensures_removeStaging hjournal

/-- Wherever a restore stops, the catalog is safe. -/
theorem ensures_restoreCatalog :
    Ensures (restoreCatalog format sqlite backup database id publishId) home
      (fun _ after => ∃ source, home backup = some (.directory source) ∧
        Restored sqlite database source (after dbName))
      (SafeRestore sqlite home backup database) := by
  have hstart : SafeRestore sqlite home backup database home := Or.inl rfl
  have hsafe : ∀ after, Journalled after → SafeRestore sqlite home backup database after :=
    fun _ h => Or.inr (Or.inl h)
  refine .read ?_
  refine .bind (.ofExcept hstart fun manifest hmanifest => ?_)
  refine .bind (ensures_openDirAt (fun source hsource => ?_) hstart)
  refine .seq (ensures_publishFile.mono (fun _ _ h => h) fun after h => ?_) ?_
  · rcases h with hdb | hjournal
    · exact Or.inl hdb
    · exact hsafe after hjournal
  intro _ published hpublished
  refine .seq (((ensures_stageRestore hpublished).onFailure fun _ h =>
    ensures_removeStaging h).mono (fun _ _ h => h) hsafe) ?_
  rintro _ staged ⟨hstaged, hrestored⟩
  refine .seq (((ensures_displaceDb hstaged rfl).onFailure fun _ h =>
    ensures_removeStaging h).mono (fun _ _ h => h) hsafe) ?_
  rintro displaced moved ⟨hmoved, hstaging⟩
  have hswap : Ensures (onFailure (renameAt (restoreStaging id) dbName)
      (putBack displaced (restoreDiscard id) (restoreStaging id))) moved
      (fun _ after => Journalled after ∧ Restored sqlite database source (after dbName)) Journalled := by
    refine (ensures_renameAt ⟨?_, ?_⟩ hmoved).onFailure fun _ h => ensures_putBack h
    · exact (hmoved.update (by decide) _).update (restoreStaging_ne_journal id) none
    · rw [Function.update_of_ne (restoreStaging_ne_dbName id).symm, Function.update_self, hstaging]
      exact hrestored
  refine .seq (hswap.mono (fun _ _ h => h) hsafe) ?_
  rintro _ swapped ⟨hswapped, hthere⟩
  refine .bind (ensures_attempt ?_ (hsafe swapped hswapped))
  refine .bind (ensures_unlinkAt ?_ (hsafe swapped hswapped))
  have hdb : catalogRestoreJournal ≠ dbName := by decide
  have hdone : ∀ entry : Option Entry, Restored sqlite database source
      (Function.update (Function.update swapped catalogRestoreJournal none) (restoreDiscard id) entry
        dbName) := by
    intro entry
    rw [Function.update_of_ne (restoreDiscard_ne_dbName id).symm, Function.update_of_ne hdb.symm]
    exact hthere
  have hunlinked : Restored sqlite database source
      (Function.update swapped catalogRestoreJournal none dbName) := by
    rw [Function.update_of_ne hdb.symm]
    exact hthere
  have hend : ∀ after : Home, Restored sqlite database source (after dbName) →
      SafeRestore sqlite home backup database after := fun _ h => Or.inr (Or.inr ⟨source, hsource, h⟩)
  refine .bind (ensures_attempt ?_ (hend _ hunlinked))
  have hremove : Ensures (removeDirAll (restoreDiscard id))
      (Function.update swapped catalogRestoreJournal none)
      (fun _ after => Restored sqlite database source (after dbName))
      (fun after => Restored sqlite database source (after dbName)) :=
    ensures_removeDirAll (hdone none) hunlinked fun _ => hdone _
  refine .seq (hremove.caught.mono (fun _ _ h => h) hend) fun _ after hafter => ?_
  exact .pure ⟨source, hsource, hafter⟩

end Restores

/-- How long the paths of some sizes are together. -/
def pathLengths (sizes : Sizes) : ℕ := (sizes.entries.map fun file => file.1.length).sum

/-- Manifests can be numbered. -/
theorem countable_catalogBackup : Countable CatalogBackup := by
  have hchar : Countable Char := Function.Injective.countable fun _ _ h => Char.toNat_inj.mp h
  have hset : Countable (OrderedSet Text) :=
    Function.Injective.countable (f := OrderedSet.elements) fun first second h => by
      cases first
      cases second
      cases h
      rfl
  have hsizes : Countable Sizes :=
    Function.Injective.countable (f := SortedMap.entries) fun _ _ h => SortedMap.ext h
  refine Function.Injective.countable
    (f := fun manifest => (manifest.fromProtocol, manifest.migrations, manifest.files)) ?_
  intro first second h
  cases first
  cases second
  cases h
  rfl

/-- The number of a manifest, which is large where its paths are long. -/
noncomputable def manifestNumber (manifest : CatalogBackup) : ℕ :=
  Nat.pair (countable_catalogBackup.exists_injective_nat.choose manifest) (pathLengths manifest.files)

theorem manifestNumber_injective : Function.Injective manifestNumber := fun _ _ h =>
  countable_catalogBackup.exists_injective_nat.choose_spec (Nat.pair_eq_pair.mp h).1

/-- A number as that many zeros and a one. -/
def spellNumber (number : ℕ) : Bytes := List.replicate number 0 ++ [1]

theorem length_spellNumber (number : ℕ) : (spellNumber number).length = number + 1 := by
  simp [spellNumber]

open Classical in
/-- A format in which a manifest is spelled as its number. -/
noncomputable def spelledFormat : ManifestFormat where
  toVecPretty manifest := spellNumber (manifestNumber manifest)
  fromSlice bytes :=
    if h : ∃ manifest, spellNumber (manifestNumber manifest) = bytes then some h.choose else none
  round := by
    intro manifest
    have hthere : ∃ other, spellNumber (manifestNumber other) = spellNumber (manifestNumber manifest) :=
      ⟨manifest, rfl⟩
    rw [dif_pos hthere]
    have hlength := congrArg List.length hthere.choose_spec
    rw [length_spellNumber, length_spellNumber] at hlength
    exact congrArg some (manifestNumber_injective (Nat.succ.inj hlength))
  cut := by
    intro manifest length hlength
    rw [dif_neg]
    rintro ⟨other, hother⟩
    -- The one stands at the end, which is cut off.
    have hone : (1 : UInt8) ∈ (spellNumber (manifestNumber manifest)).take length := by
      rw [← hother, spellNumber]
      exact List.mem_append_right _ (List.mem_singleton_self 1)
    rw [length_spellNumber] at hlength
    rw [spellNumber, List.take_append_of_le_length (by rw [List.length_replicate]; omega)] at hone
    have hzero := List.eq_of_mem_replicate (List.mem_of_mem_take hone)
    cases hzero
  paths_le := by
    intro manifest
    rw [length_spellNumber]
    exact (Nat.right_le_pair _ _).trans (Nat.le_succ _)

/-- SQLite where there is no database. -/
def noDatabase : Sqlite where
  checkpoint _ _ tree := .ok (tree, none)
  Content := Unit
  content _ _ := ()
  folded := by
    intro database ledger before after migrations h
    obtain ⟨rfl, -⟩ := Prod.mk.inj (Except.ok.inj h)
    exact ⟨⟨rfl, fun _ h => h, id⟩, rfl⟩

/-- A state directory with nothing but a catalog. -/
def homeWith (source : Tree) : Home := fun name => if name = dbName then some (.directory source) else none

/-- The answers of a run in which nothing fails. -/
def allDone : List Answer := List.replicate 14 .done

/-- A catalog without a database whose entries can be copied and listed is backed up. -/
theorem backupCatalog_done (format : ManifestFormat) (fromProtocol : Text) (database : Name)
    (ledger : Text) (id : Name) {source : Tree} {files : Sizes}
    (hcopy : copyTree none source = .ok source) (hfiles : treeSizes [] none .empty source = .ok files)
    (hfresh : entryAt source catalogBackupManifest = none) :
    ∃ after, backupCatalog format noDatabase fromProtocol database ledger id
      ⟨allDone, homeWith source⟩ = (.ok (catalogBackupPath fromProtocol), after) := by
  have hpath : catalogBackupPath fromProtocol ≠ dbName := by
    intro heq
    have hthird : some (46 : UInt8) = none := congrArg (·[2]?) heq
    cases hthird
  have hne : backupStaging (catalogBackupPath fromProtocol) id ≠ catalogBackupPath fromProtocol :=
    backupStaging_ne _ _ (by rw [head?_catalogBackupPath]; decide)
  have hstagingDb : backupStaging (catalogBackupPath fromProtocol) id ≠ dbName :=
    backupStaging_ne _ _ (by decide)
  -- The run takes one answer after the other.
  simp [backupCatalog, stageBackup, mkdirAt, openDirAt, copyInto, checkpointDatabase, writeNewFileAt,
    syncDir, renameAt, onFailure, catching, attempt, attemptIn, bind, receive, getState, modifyState,
    Interaction.ofExcept, pure, homeWith, allDone, noDatabase, hcopy, hfiles, hfresh, hpath, hne,
    hne.symm, hstagingDb, Function.update, List.replicate]

section ManyFiles

/-- A directory of empty files. -/
def flatTree (names : List Text) : Tree := names.map fun name => (encode name, .file [])

theorem copyTree_flatTree (names : List Text) :
    copyTree none (flatTree names) = .ok (flatTree names) := by
  induction names with
  | nil => rfl
  | cons name rest ih =>
    change copyTree none ((encode name, .file []) :: flatTree rest) = _
    rw [copyTree, if_neg nofun, ih]
    rfl

theorem treeSizes_flatTree (names : List Text) (sizes : Sizes) :
    treeSizes [] none sizes (flatTree names) =
      .ok (names.foldl (fun sizes name => sizes.upsert name fun _ => 0) sizes) := by
  induction names generalizing sizes with
  | nil => rfl
  | cons name rest ih =>
    change treeSizes [] none sizes ((encode name, .file []) :: flatTree rest) = _
    rw [treeSizes, if_neg (by simp), fromUtf8_encode]
    exact ih _

theorem entryAt_flatTree {names : List Text} {name : Name} (h : ∀ text ∈ names, encode text ≠ name) :
    entryAt (flatTree names) name = none := by
  have hnone : (flatTree names).find? (fun entry => entry.1 = name) = none := by
    rw [List.find?_eq_none]
    intro entry hmem
    obtain ⟨text, htext, rfl⟩ := List.mem_map.mp hmem
    simpa using h text htext
  rw [entryAt, hnone]
  rfl

theorem upsertEntries_perm {key : Text} (update : Option ℕ → ℕ) {entries : List (Text × ℕ)}
    (h : key ∉ entries.map Prod.fst) :
    (SortedMap.upsertEntries key update entries).Perm ((key, update none) :: entries) := by
  induction entries with
  | nil => exact .refl _
  | cons entry rest ih =>
    rw [List.map_cons, List.mem_cons, not_or] at h
    rw [SortedMap.upsertEntries]
    split
    · exact .refl _
    · rw [if_neg h.1]
      exact ((ih h.2).cons _).trans (.swap _ _ _)

/-- The paths of new files count. -/
theorem pathLengths_foldl {names : List Text} (hnodup : names.Nodup) (sizes : Sizes)
    (hnew : ∀ name ∈ names, name ∉ sizes.entries.map Prod.fst) :
    pathLengths (names.foldl (fun sizes name => sizes.upsert name fun _ => 0) sizes) =
      pathLengths sizes + (names.map List.length).sum := by
  induction names generalizing sizes with
  | nil => rfl
  | cons name rest ih =>
    rw [List.nodup_cons] at hnodup
    have hperm := upsertEntries_perm (fun _ => 0) (hnew name List.mem_cons_self)
    have hkeys : ∀ other ∈ rest, other ∉ (sizes.upsert name fun _ => 0).entries.map Prod.fst := by
      intro other hother hmem
      rw [SortedMap.entries_upsert] at hmem
      rcases List.mem_cons.mp ((hperm.map Prod.fst).mem_iff.mp hmem) with heq | hold
      · exact hnodup.1 ((show other = name from heq) ▸ hother)
      · exact hnew other (List.mem_cons_of_mem _ hother) hold
    have hsum : pathLengths (sizes.upsert name fun _ => 0) = name.length + pathLengths sizes := by
      rw [pathLengths, SortedMap.entries_upsert,
        (hperm.map fun file : Text × ℕ => file.1.length).sum_eq, List.map_cons, List.sum_cons]
      rfl
    rw [List.foldl_cons, ih hnodup.2 _ hkeys, hsum, List.map_cons, List.sum_cons]
    omega

/-- A file name of 250 characters. -/
def longName (index : ℕ) : Text := List.replicate 249 'a' ++ [Char.ofNat (256 + index)]

/-- File names that do not fit in a manifest that is read to its end. -/
def longNames : List Text := (List.range 4500).map longName

theorem longNames_nodup : longNames.Nodup := by
  refine List.nodup_range.map_on fun first hfirst second hsecond h => ?_
  have hlast := congrArg List.getLast? h
  rw [longName, longName, List.getLast?_concat, List.getLast?_concat] at hlast
  have hchar := congrArg Char.toNat (Option.some.inj hlast)
  have hlt := List.mem_range.mp hfirst
  have hlt' := List.mem_range.mp hsecond
  rw [toNat_ofNat (Or.inl (by omega)), toNat_ofNat (Or.inl (by omega))] at hchar
  omega

theorem length_longName (index : ℕ) : (longName index).length = 250 := by
  rw [longName, List.length_append, List.length_replicate, List.length_singleton]

theorem sum_longNames : (longNames.map List.length).sum = 4500 * 250 := by
  have hsame : longNames.map List.length = List.replicate 4500 250 := by
    rw [longNames, List.map_map, List.eq_replicate_iff]
    refine ⟨by rw [List.length_map, List.length_range], fun length hmem => ?_⟩
    obtain ⟨index, -, rfl⟩ := List.mem_map.mp hmem
    exact length_longName index
  rw [hsame, List.sum_replicate, Nat.nsmul_eq_mul]

/-- A name of another length is no long name. -/
theorem encode_ne_of_short {text : Text} (htext : text ∈ longNames) (other : Text) {name : Name}
    (hname : fromUtf8 name = some other) (hother : other.length ≠ 250) : encode text ≠ name := by
  intro heq
  obtain ⟨index, -, rfl⟩ := List.mem_map.mp htext
  rw [← heq, fromUtf8_encode] at hname
  rw [← Option.some.inj hname] at hother
  exact hother (length_longName index)

end ManyFiles

/-- Without a file of the database nothing is folded. -/
theorem Folded.eq_of_none {database : Name} {before after : Tree} (h : Folded database before after)
    (hnone : ∀ name ∈ before.map Prod.fst, ¬ IsDatabaseFile database name) : after = before := by
  have hafter : (after.filter fun entry => ¬ IsDatabaseFile database entry.1) = after :=
    List.filter_eq_self.mpr fun entry hmem =>
      decide_eq_true (hnone _ (h.names _ (List.mem_map.mpr ⟨entry, hmem, rfl⟩)))
  have hbefore : (before.filter fun entry => ¬ IsDatabaseFile database entry.1) = before :=
    List.filter_eq_self.mpr fun entry hmem =>
      decide_eq_true (hnone _ (List.mem_map.mpr ⟨entry, hmem, rfl⟩))
  rw [← hafter, h.others, hbefore]

end Awman.CatalogBackups
