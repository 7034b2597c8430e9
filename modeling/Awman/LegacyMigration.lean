import Awman.Library.Cleanups

/-!
# Moving the database to the shared data root

The database of the API mode is copied to the shared data root, with the files SQLite keeps beside it,
and the old files are renamed aside once the copies are verified.  Every operation may fail, and the
process may die before any of them; the next start tries again from what is left on both sides.
-/

namespace Awman.DataPaths

open Awman.Interaction

/-- The bytes of a file. -/
abbrev Bytes := List UInt8

/-- The files of a database. -/
inductive Part where
  | main
  | wal
  | shm
  deriving DecidableEq, Repr

/-- The files of a database that are there. -/
abbrev Files := Part → Option Bytes

/-- The directories that a migration is about. -/
structure Disk where
  /-- The files under their old names. -/
  legacy : Files
  backup : Files
  /-- The files in the shared data root. -/
  target : Files
  lock : Bool

/-- Why an attempt fails. -/
inductive MigrationError where
  | io
  | inProgress
  | verificationFailed (part : Part)
  deriving DecidableEq, Repr

/-- How an attempt ends that does not fail. -/
inductive MigrationOutcome where
  | freshInstall
  | alreadyMigrated
  | migrated (copiedBytes : ℕ) (sidecars : List Part) (backupKept : Bool)
  | recoveredFromInterrupted (copiedBytes : ℕ)
  deriving DecidableEq, Repr

/-- What the operating system answers. -/
inductive Answer where
  | done
  /-- The operation fails and changes nothing. -/
  | refused
  /-- The lock file is older than a minute, or not. -/
  | stale (old : Bool)
  /-- A copy leaves these bytes, and tells how many it copied or fails. -/
  | copied (contents : Bytes) (count : Option ℕ)

/-- A program that works on the directories. -/
abbrev Migration (α : Type) := Program Answer Disk MigrationError α

/-- Ask the operating system for an operation. -/
def attempt : Migration Unit := do
  let accepted ← receive fun
    | .done => some true
    | .refused => some false
    | _ => none
  if accepted then pure () else fail .io

/-! ## The lock -/

/-- Make the lock file, unless it is there. -/
def createLock : Migration Bool := do
  attempt
  let disk ← getState
  if disk.lock then return false
  modifyState fun disk => { disk with lock := true }
  attempt
  return true

/-- Take the lock; one that a process left long ago is removed first. -/
def MigrationLock.acquire : Migration Unit := do
  if ← createLock then return ()
  let old ← receive fun
    | .stale old => some old
    | _ => none
  if old then
    attempt
    modifyState fun disk => { disk with lock := false }
    if ← createLock then return ()
    fail .inProgress
  else fail .inProgress

/-- Remove the lock file. -/
def MigrationLock.drop : Migration Unit := do
  attempt
  modifyState fun disk => { disk with lock := false }

/-! ## Moving the files -/

/-- Remove a file at the target, if it is there. -/
def removeTarget (part : Part) : Migration Unit := do
  attempt
  modifyState fun disk => { disk with target := Function.update disk.target part none }

def removeTargets : Migration Unit :=
  forEach [.main, .wal, .shm] removeTarget

variable (sha256 : Bytes → Bytes)

/-- Copy one file to the target and compare it with its source. -/
def copyAndVerifyOne (part : Part) : Migration ℕ := do
  let (contents, count) ← receive fun
    | .copied contents count => some (some contents, count)
    | .refused => some (none, none)
    | _ => none
  match contents with
  | none => fail .io
  | some contents => do
    modifyState fun disk => { disk with target := Function.update disk.target part (some contents) }
    match count with
    | none => fail .io
    | some copied => do
      attempt
      attempt
      let disk ← getState
      match disk.legacy part, disk.target part with
      | some source, some destination =>
        if copied ≠ source.length ∨ destination.length ≠ source.length then
          fail (.verificationFailed part)
        else do
          attempt
          attempt
          if sha256 source ≠ sha256 destination then fail (.verificationFailed part)
          else return source.length
      | _, _ => fail .io

/-- Copy those of some files that are there. -/
def copySidecars : List Part → Migration ℕ
  | [] => pure 0
  | part :: rest => do
    let disk ← getState
    if (disk.legacy part).isSome then
      let bytes ← copyAndVerifyOne sha256 part
      let others ← copySidecars rest
      return bytes + others
    else copySidecars rest

def copyAndVerify : Migration ℕ := do
  let bytes ← copyAndVerifyOne sha256 .main
  let others ← copySidecars sha256 [.wal, .shm]
  return bytes + others

/-- Rename an old file aside; with an older backup there it is removed. -/
def setAside (part : Part) : Migration Unit := do
  attempt
  modifyState fun disk =>
    { disk with
      legacy := Function.update disk.legacy part none
      backup := Function.update disk.backup part (disk.backup part <|> disk.legacy part) }

/-- Rename the old files aside.  Gives the side files and whether the database itself was kept. -/
def renameLegacyAside : List Part → Migration (List Part × Bool)
  | [] => pure ([], true)
  | part :: rest => do
    let disk ← getState
    if (disk.legacy part).isNone then renameLegacyAside rest
    else do
      setAside part
      let (sidecars, backupKept) ← renameLegacyAside rest
      return (if part = .main then sidecars else part :: sidecars,
        backupKept && !(part = .main && (disk.backup part).isSome))

/-- Copy and verify the files, then rename the old ones aside. -/
def moveFiles (recovered : Bool) : Migration MigrationOutcome := do
  let copiedBytes ← onFailure (copyAndVerify sha256) removeTargets
  let (sidecars, backupKept) ← renameLegacyAside [.main, .wal, .shm]
  if recovered then return .recoveredFromInterrupted copiedBytes
  else return .migrated copiedBytes sidecars backupKept

/-- What is done under the lock. -/
def migrateLocked : Migration MigrationOutcome := do
  let disk ← getState
  match (disk.legacy .main).isSome, (disk.target .main).isSome with
  | false, false => return .freshInstall
  | false, true => return .alreadyMigrated
  | true, true => do
    removeTargets
    moveFiles sha256 true
  | true, false => moveFiles sha256 false

/-- Relocate the database from a pre-squad API root. -/
def migrateLegacyDb : Migration MigrationOutcome := do
  attempt
  MigrationLock.acquire
  withCleanup (migrateLocked sha256) MigrationLock.drop

/-! ## What each operation leaves -/

/-- What is there under a name comes from the old database, or was there before. -/
def carried (legacy target : Files) : Files := fun part => legacy part <|> target part

/-- What stands at the target once an attempt has moved the files. -/
def Disk.carried (disk : Disk) : Files :=
  if (disk.target .main).isSome then disk.legacy else DataPaths.carried disk.legacy disk.target

/-- Only the target and the lock have changed, and at the target nothing has come that is not of the old
database. -/
structure Preparing (before after : Disk) : Prop where
  legacy : after.legacy = before.legacy
  backup : after.backup = before.backup
  within : ∀ part, after.target part ≠ none → before.target part ≠ none ∨ before.legacy part ≠ none

theorem Preparing.refl (disk : Disk) : Preparing disk disk :=
  ⟨rfl, rfl, fun _ h => Or.inl h⟩

theorem Preparing.trans {first second third : Disk} (h : Preparing first second)
    (h' : Preparing second third) : Preparing first third where
  legacy := h'.legacy.trans h.legacy
  backup := h'.backup.trans h.backup
  within := fun part hpart => by
    rcases h'.within part hpart with htarget | hlegacy
    · exact h.within part htarget
    · exact Or.inr (h.legacy ▸ hlegacy)

instance : Std.Refl Preparing := ⟨Preparing.refl⟩

instance : IsTrans Disk Preparing := ⟨fun _ _ _ h h' => h.trans h'⟩

/-- The files are as they were. -/
structure SameFiles (before after : Disk) : Prop where
  legacy : after.legacy = before.legacy
  backup : after.backup = before.backup
  target : after.target = before.target

instance : Std.Refl SameFiles := ⟨fun _ => ⟨rfl, rfl, rfl⟩⟩

instance : IsTrans Disk SameFiles :=
  ⟨fun _ _ _ h h' => ⟨h'.legacy.trans h.legacy, h'.backup.trans h.backup, h'.target.trans h.target⟩⟩

section Operations

variable {disk : Disk} {part : Part}

theorem ensures_attempt {post : Unit → Disk → Prop} {halt : Disk → Prop} (hpost : post () disk)
    (hhalt : halt disk) : Ensures attempt disk post halt := by
  refine .bind (.receive hhalt fun accepted => ?_)
  cases accepted with
  | true => exact .pure hpost
  | false => exact .fail hhalt

theorem relates_attempt {r : Disk → Disk → Prop} [Std.Refl r] : Relates r attempt :=
  fun before => ensures_attempt (Std.Refl.refl before) (Std.Refl.refl before)

theorem relates_setLock (lock : Bool) :
    Relates SameFiles (modifyState fun disk => { disk with lock := lock } : Migration Unit) :=
  fun _ => .modifyState ⟨rfl, rfl, rfl⟩

theorem relates_createLock : Relates SameFiles createLock := by
  refine .bind relates_attempt fun _ => .bind .getState fun disk => ?_
  split
  · exact .pure
  · refine .bind (relates_setLock true) fun _ => ?_
    exact .bind relates_attempt fun _ => .pure

theorem relates_acquire : Relates SameFiles MigrationLock.acquire := by
  refine .bind relates_createLock fun made => ?_
  split
  · exact .pure
  · refine .bind .receive fun old => ?_
    split
    · refine .bind relates_attempt fun _ => ?_
      refine .bind (relates_setLock false) fun _ => ?_
      refine .bind relates_createLock fun made => ?_
      split
      · exact .pure
      · exact .fail
    · exact .fail

theorem relates_drop : Relates SameFiles MigrationLock.drop :=
  .bind relates_attempt fun _ => relates_setLock false

theorem preparing_remove : Preparing disk { disk with target := Function.update disk.target part none } where
  legacy := rfl
  backup := rfl
  within := fun other hother => by
    change Function.update disk.target part none other ≠ none at hother
    by_cases heq : other = part
    · rw [heq, Function.update_self] at hother
      exact absurd rfl hother
    · rw [Function.update_of_ne heq] at hother
      exact Or.inl hother

theorem preparing_copy (contents : Bytes) (hthere : disk.legacy part ≠ none) :
    Preparing disk { disk with target := Function.update disk.target part (some contents) } where
  legacy := rfl
  backup := rfl
  within := fun other hother => by
    change Function.update disk.target part (some contents) other ≠ none at hother
    by_cases heq : other = part
    · rw [heq]
      exact Or.inr hthere
    · rw [Function.update_of_ne heq] at hother
      exact Or.inl hother

theorem ensures_removeTarget : Ensures (removeTarget part) disk
    (fun _ after => after = { disk with target := Function.update disk.target part none })
    (Preparing disk) :=
  .bind (ensures_attempt (.modifyState rfl) (Preparing.refl disk))

/-- All files at the target are removed, or some of them. -/
theorem ensures_removeTargets : Ensures removeTargets disk
    (fun _ after => after = { disk with target := fun _ => none }) (Preparing disk) := by
  apply Ensures.seq ensures_removeTarget
  rintro _ _ rfl
  refine Ensures.seq (ensures_removeTarget.mono (fun _ _ h => h) fun _ h => preparing_remove.trans h) ?_
  rintro _ _ rfl
  refine Ensures.seq (ensures_removeTarget.mono (fun _ _ h => h) fun _ h =>
    (preparing_remove.trans preparing_remove).trans h) ?_
  rintro _ _ rfl
  apply Ensures.pure
  have hnone : Function.update (Function.update (Function.update disk.target .main none) .wal none) .shm
      none = fun _ => none := by
    funext part
    cases part with
    | main | wal | shm => rfl
  rw [hnone]

variable {sha256 : Bytes → Bytes} (hsha : Function.Injective sha256)

include hsha

/-- A file that was copied and verified has the bytes of its source. -/
theorem ensures_copyAndVerifyOne {source : Bytes} (hsource : disk.legacy part = some source) :
    Ensures (copyAndVerifyOne sha256 part) disk
      (fun _ after => after = { disk with target := Function.update disk.target part (some source) })
      (Preparing disk) := by
  have hthere : disk.legacy part ≠ none := by
    rw [hsource]
    exact nofun
  refine Ensures.bind (Ensures.receive (Preparing.refl disk) ?_)
  rintro ⟨contents, count⟩
  cases contents with
  | none => exact Ensures.fail (Preparing.refl disk)
  | some contents =>
    have hcopied := preparing_copy contents hthere
    refine Ensures.bind (Ensures.modifyState ?_)
    cases count with
    | none => exact Ensures.fail hcopied
    | some copied =>
      refine Ensures.bind (ensures_attempt ?_ hcopied)
      refine Ensures.bind (ensures_attempt ?_ hcopied)
      refine Ensures.bind (Ensures.getState ?_)
      simp only [hsource, Function.update_self]
      split
      · exact Ensures.fail hcopied
      · refine Ensures.bind (ensures_attempt ?_ hcopied)
        refine Ensures.bind (ensures_attempt ?_ hcopied)
        split
        · exact Ensures.fail hcopied
        · rename_i hsame
          apply Ensures.pure
          rw [hsha (not_ne_iff.mp hsame)]

/-- Of some files those that are there are at the target afterwards, and the rest of it is as it was. -/
structure Copied (parts : List Part) (before after : Disk) : Prop extends Preparing before after where
  target : ∀ part, after.target part =
    if part ∈ parts then before.legacy part <|> before.target part else before.target part

theorem ensures_copySidecars (parts : List Part) : Ensures (copySidecars sha256 parts) disk
    (fun _ after => Copied parts disk after) (Preparing disk) := by
  induction parts generalizing disk with
  | nil => exact .pure ⟨Preparing.refl disk, fun _ => rfl⟩
  | cons part rest ih =>
    refine .read ?_
    cases hsource : disk.legacy part with
    | none =>
      rw [Option.isSome_none, if_neg Bool.false_ne_true]
      refine ih.mono (fun _ after hafter => ⟨hafter.toPreparing, fun other => ?_⟩) fun _ h => h
      rw [hafter.target other]
      by_cases heq : other = part
      · rw [heq, hsource, if_pos List.mem_cons_self]
        split
        · rfl
        · rfl
      · have hmem : other ∈ part :: rest ↔ other ∈ rest := by
          rw [List.mem_cons, or_iff_right heq]
        simp only [hmem]
    | some source =>
      rw [Option.isSome_some, if_pos rfl]
      have hthere : disk.legacy part ≠ none := by
        rw [hsource]
        exact nofun
      have hcopied := preparing_copy source hthere
      apply Ensures.seq (ensures_copyAndVerifyOne hsha hsource)
      rintro bytes _ rfl
      refine Ensures.seq (ih.mono (fun _ _ h => h) fun _ h => hcopied.trans h) ?_
      intro others after hafter
      refine .pure ⟨hcopied.trans hafter.toPreparing, fun other => ?_⟩
      rw [hafter.target other]
      change (if other ∈ rest then disk.legacy other <|>
        Function.update disk.target part (some source) other
        else Function.update disk.target part (some source) other) = _
      by_cases heq : other = part
      · rw [heq, Function.update_self, hsource, if_pos List.mem_cons_self]
        split
        · rfl
        · rfl
      · have hmem : other ∈ part :: rest ↔ other ∈ rest := by
          rw [List.mem_cons, or_iff_right heq]
        rw [Function.update_of_ne heq]
        simp only [hmem]

theorem ensures_copyAndVerify (hmain : disk.legacy .main ≠ none) :
    Ensures (copyAndVerify sha256) disk
      (fun _ after => Preparing disk after ∧ after.target = carried disk.legacy disk.target)
      (Preparing disk) := by
  obtain ⟨source, hsource⟩ := Option.ne_none_iff_exists'.mp hmain
  have hcopied := preparing_copy source hmain
  apply Ensures.seq (ensures_copyAndVerifyOne hsha hsource)
  rintro bytes _ rfl
  refine Ensures.seq ((ensures_copySidecars hsha [.wal, .shm]).mono (fun _ _ h => h) fun _ h =>
    hcopied.trans h) ?_
  intro others after hafter
  refine .pure ⟨hcopied.trans hafter.toPreparing, funext fun part => ?_⟩
  rw [hafter.target part, carried]
  cases part with
  | main =>
    rw [hsource]
    rfl
  | wal | shm => rfl

end Operations

section Moving

variable {disk : Disk}

/-- Old files have gone, and the target is as it was. -/
structure Aside (before after : Disk) : Prop where
  target : after.target = before.target
  legacy : ∀ part, before.legacy part = none → after.legacy part = none

instance : Std.Refl Aside := ⟨fun _ => ⟨rfl, fun _ h => h⟩⟩

instance : IsTrans Disk Aside :=
  ⟨fun _ _ _ h h' => ⟨h'.target.trans h.target, fun part hpart => h'.legacy part (h.legacy part hpart)⟩⟩

theorem relates_setAside (part : Part) : Relates Aside (setAside part) := by
  refine .bind relates_attempt fun _ before => .modifyState ⟨rfl, fun other hother => ?_⟩
  change Function.update before.legacy part none other = none
  by_cases heq : other = part
  · rw [heq, Function.update_self]
  · rw [Function.update_of_ne heq]
    exact hother

theorem relates_renameLegacyAside (parts : List Part) : Relates Aside (renameLegacyAside parts) := by
  induction parts with
  | nil => exact .pure
  | cons part rest ih =>
    refine .bind .getState fun disk => ?_
    split
    · exact ih
    · exact .bind (relates_setAside part) fun _ => .bind ih fun _ => .pure

/-- The database has its new name, with the files that are carried there. -/
structure Moved (before after : Disk) : Prop where
  main : after.legacy .main = none
  target : after.target = before.target

/-- The database itself goes first, and until it goes nothing has changed. -/
theorem ensures_renameLegacyAside (hmain : disk.legacy .main ≠ none) :
    Ensures (renameLegacyAside [.main, .wal, .shm]) disk (fun _ after => Moved disk after)
      (fun after => after = disk ∨ Moved disk after) := by
  have hthere : ¬ (disk.legacy .main).isNone = true := by
    rw [Option.isNone_iff_eq_none]
    exact hmain
  refine .read ?_
  rw [if_neg hthere]
  have hset : Ensures (setAside .main) disk (fun _ after => Moved disk after)
      (fun after => after = disk ∨ Moved disk after) := by
    have hgone : Function.update disk.legacy .main none .main = none := Function.update_self _ _ _
    exact .bind (ensures_attempt (.modifyState ⟨hgone, rfl⟩) (Or.inl rfl))
  refine .seq hset fun _ before hbefore => ?_
  have hkept : ∀ after, Aside before after → Moved disk after := fun after h =>
    ⟨h.legacy .main hbefore.main, h.target.trans hbefore.target⟩
  refine .seq ((relates_renameLegacyAside [.wal, .shm] before).mono
    (fun _ after h => hkept after h) fun after h => Or.inr (hkept after h)) fun result after hafter => ?_
  exact .pure hafter

end Moving

/-! ## One attempt -/

/-- What an attempt that did not return leaves: the old database as it was, or a target to which all of it
was carried. -/
structure Left (before after : Disk) : Prop where
  idle : before.legacy .main = none → SameFiles before after
  part : Preparing before after ∨
    (before.legacy .main ≠ none ∧ after.legacy .main = none ∧ after.target = before.carried)

/-- What an attempt leaves that returned. -/
def Reported (before : Disk) (outcome : MigrationOutcome) (after : Disk) : Prop :=
  match outcome with
  | .freshInstall =>
    before.legacy .main = none ∧ before.target .main = none ∧ SameFiles before after
  | .alreadyMigrated =>
    before.legacy .main = none ∧ before.target .main ≠ none ∧ SameFiles before after
  | _ => before.legacy .main ≠ none ∧ after.legacy .main = none ∧ after.target = before.carried

theorem SameFiles.preparing {before after : Disk} (h : SameFiles before after) :
    Preparing before after where
  legacy := h.legacy
  backup := h.backup
  within := fun _ hpart => Or.inl (h.target ▸ hpart)

theorem SameFiles.carried {before after : Disk} (h : SameFiles before after) :
    after.carried = before.carried := by
  rw [Disk.carried, Disk.carried, h.legacy, h.target]

section

variable {first second third : Disk}

/-- A change of the lock alone does not change what is left. -/
theorem Left.of_same (h : SameFiles first second) (h' : Left second third) : Left first third where
  idle := fun hmain => by
    have hsame := h'.idle (h.legacy ▸ hmain)
    exact ⟨hsame.legacy.trans h.legacy, hsame.backup.trans h.backup, hsame.target.trans h.target⟩
  part := by
    rcases h'.part with hprep | ⟨hmain, hgone, htarget⟩
    · exact Or.inl (h.preparing.trans hprep)
    · exact Or.inr ⟨h.legacy ▸ hmain, hgone, htarget.trans h.carried⟩

theorem Left.same (h : Left first second) (h' : SameFiles second third) :
    Left first third where
  idle := fun hmain => by
    have hsame := h.idle hmain
    exact ⟨h'.legacy.trans hsame.legacy, h'.backup.trans hsame.backup, h'.target.trans hsame.target⟩
  part := by
    rcases h.part with hprep | ⟨hmain, hgone, htarget⟩
    · exact Or.inl (hprep.trans h'.preparing)
    · refine Or.inr ⟨hmain, ?_, h'.target.trans htarget⟩
      rw [h'.legacy]
      exact hgone

theorem Reported.of_same {outcome : MigrationOutcome} (h : SameFiles first second)
    (h' : Reported second outcome third) : Reported first outcome third := by
  cases outcome with
  | freshInstall | alreadyMigrated =>
    obtain ⟨hlegacy, htarget, hsame⟩ := h'
    exact ⟨h.legacy ▸ hlegacy, h.target ▸ htarget, hsame.legacy.trans h.legacy,
      hsame.backup.trans h.backup, hsame.target.trans h.target⟩
  | migrated | recoveredFromInterrupted =>
    obtain ⟨hmain, hgone, htarget⟩ := h'
    exact ⟨h.legacy ▸ hmain, hgone, htarget.trans h.carried⟩

theorem Reported.same {outcome : MigrationOutcome} (h : Reported first outcome second)
    (h' : SameFiles second third) : Reported first outcome third := by
  cases outcome with
  | freshInstall | alreadyMigrated =>
    obtain ⟨hlegacy, htarget, hsame⟩ := h
    exact ⟨hlegacy, htarget, h'.legacy.trans hsame.legacy, h'.backup.trans hsame.backup,
      h'.target.trans hsame.target⟩
  | migrated | recoveredFromInterrupted =>
    obtain ⟨hmain, hgone, htarget⟩ := h
    exact ⟨hmain, (congrFun h'.legacy .main).trans hgone, h'.target.trans htarget⟩

end

/-- An attempt that has returned has left things as one that did not. -/
theorem Reported.left {before after : Disk} {outcome : MigrationOutcome}
    (h : Reported before outcome after) : Left before after := by
  cases outcome with
  | freshInstall | alreadyMigrated => exact ⟨fun _ => h.2.2, Or.inl h.2.2.preparing⟩
  | migrated | recoveredFromInterrupted => exact ⟨fun hmain => absurd hmain h.1, Or.inr h⟩

theorem reported_of_moved {disk : Disk} {outcome : MigrationOutcome} {after : Disk}
    (hmain : disk.legacy .main ≠ none) (hfresh : outcome ≠ .freshInstall)
    (halready : outcome ≠ .alreadyMigrated) (hgone : after.legacy .main = none)
    (htarget : after.target = disk.carried) : Reported disk outcome after := by
  cases outcome with
  | freshInstall => exact absurd rfl hfresh
  | alreadyMigrated => exact absurd rfl halready
  | migrated | recoveredFromInterrupted => exact ⟨hmain, hgone, htarget⟩

section Attempts

variable {disk : Disk} {sha256 : Bytes → Bytes} (hsha : Function.Injective sha256)

include hsha

/-- The files are moved to a target in which some may stand already. -/
theorem ensures_moveFiles (recovered : Bool) (hmain : disk.legacy .main ≠ none) :
    Ensures (moveFiles sha256 recovered) disk
      (fun outcome after => outcome ≠ .freshInstall ∧ outcome ≠ .alreadyMigrated ∧
        after.legacy .main = none ∧ after.target = carried disk.legacy disk.target)
      (fun after => Preparing disk after ∨
        (after.legacy .main = none ∧ after.target = carried disk.legacy disk.target)) := by
  have hcopy : Ensures (onFailure (copyAndVerify sha256) removeTargets) disk
      (fun _ after => Preparing disk after ∧ after.target = carried disk.legacy disk.target)
      (Preparing disk) := by
    refine (ensures_copyAndVerify hsha hmain).onFailure fun before hbefore => ?_
    refine ensures_removeTargets.mono (fun _ after h => ?_) fun _ h => hbefore.trans h
    rw [h]
    exact hbefore.trans ⟨rfl, rfl, fun _ hpart => absurd rfl hpart⟩
  refine .seq (hcopy.mono (fun _ _ h => h) fun _ h => Or.inl h) ?_
  rintro copiedBytes before ⟨hprep, htarget⟩
  have hthere : before.legacy .main ≠ none := by
    rw [hprep.legacy]
    exact hmain
  have hmoved : ∀ after, Moved before after →
      after.legacy .main = none ∧ after.target = carried disk.legacy disk.target :=
    fun after h => ⟨h.main, h.target.trans htarget⟩
  refine .seq ((ensures_renameLegacyAside hthere).mono (fun _ after h => hmoved after h)
    fun after h => ?_) ?_
  · rcases h with rfl | h
    · exact Or.inl hprep
    · exact Or.inr (hmoved after h)
  · rintro ⟨sidecars, backupKept⟩ after hafter
    cases recovered with
    | true | false => exact .pure ⟨nofun, nofun, hafter⟩

theorem ensures_migrateLocked :
    Ensures (migrateLocked sha256) disk (Reported disk) (Left disk) := by
  refine .read ?_
  cases hlegacy : disk.legacy .main with
  | none =>
    cases htarget : disk.target .main with
    | none => exact .pure ⟨hlegacy, htarget, Std.Refl.refl disk⟩
    | some bytes =>
      exact .pure ⟨hlegacy, htarget ▸ nofun, Std.Refl.refl disk⟩
  | some source =>
    have hmain : disk.legacy .main ≠ none := hlegacy ▸ nofun
    have hidle : ∀ after : Disk, disk.legacy .main = none → SameFiles disk after :=
      fun _ hnone => absurd hnone hmain
    cases htarget : disk.target .main with
    | none =>
      have hcarried : carried disk.legacy disk.target = disk.carried := by
        rw [Disk.carried, htarget]
        rfl
      refine (ensures_moveFiles hsha false hmain).mono (fun outcome after h => ?_) fun after h => ?_
      · obtain ⟨hfresh, halready, hgone, hfiles⟩ := h
        exact reported_of_moved hmain hfresh halready hgone (hfiles.trans hcarried)
      · rcases h with hprep | ⟨hgone, hfiles⟩
        · exact ⟨hidle after, Or.inl hprep⟩
        · exact ⟨hidle after, Or.inr ⟨hmain, hgone, hfiles.trans hcarried⟩⟩
    | some bytes =>
      have hcarried : carried disk.legacy (fun _ => none) = disk.carried := by
        rw [Disk.carried, htarget]
        change carried disk.legacy (fun _ => none) = disk.legacy
        funext part
        rw [carried]
        cases disk.legacy part with
        | none | some => rfl
      have hempty : Preparing disk { disk with target := fun _ => none } :=
        ⟨rfl, rfl, fun _ hpart => absurd rfl hpart⟩
      refine .seq (ensures_removeTargets.mono (fun _ _ h => h) fun after h =>
        ⟨hidle after, Or.inl h⟩) ?_
      rintro _ _ rfl
      have hmove := @ensures_moveFiles { disk with target := fun _ => none } sha256 hsha true hmain
      refine hmove.mono (fun outcome after h => ?_) fun after h => ?_
      · obtain ⟨hfresh, halready, hgone, hfiles⟩ := h
        exact reported_of_moved hmain hfresh halready hgone (hfiles.trans hcarried)
      · rcases h with hprep | ⟨hgone, hfiles⟩
        · exact ⟨hidle after, Or.inl (hempty.trans hprep)⟩
        · exact ⟨hidle after, Or.inr ⟨hmain, hgone, hfiles.trans hcarried⟩⟩

/-- What an attempt leaves, wherever it stops. -/
theorem ensures_migrateLegacyDb :
    Ensures (migrateLegacyDb sha256) disk (Reported disk) (Left disk) := by
  have hleft : ∀ after, SameFiles disk after → Left disk after := fun after h =>
    ⟨fun _ => h, Or.inl h.preparing⟩
  refine .bind (ensures_attempt ?_ (hleft disk (Std.Refl.refl disk)))
  refine .seq ((relates_acquire disk).mono (fun _ _ h => h) hleft) ?_
  intro _ before hbefore
  refine .withCleanup ((ensures_migrateLocked hsha).mono (fun _ _ h => h.of_same hbefore)
    fun _ h => h.of_same hbefore) ?_ ?_ fun _ _ h => h.left
  · intro outcome locked hlocked
    exact (relates_drop locked).mono (fun _ _ h => hlocked.same h) fun _ h => hlocked.same h
  · intro locked hlocked
    exact (relates_drop locked).mono (fun _ _ h => hlocked.same h) fun _ h => hlocked.same h

end Attempts

/-! ## Attempts one after another -/

/-- What the target holds when an attempt starts to copy has an old file to replace it, or is removed. -/
def Met (disk : Disk) : Prop :=
  disk.legacy .main ≠ none →
    disk.target .main ≠ none ∨ ∀ part, disk.target part ≠ none → disk.legacy part ≠ none

/-- What is carried is the old database just when nothing is left over at the target. -/
theorem carried_eq_legacy_iff {disk : Disk} (hmain : disk.legacy .main ≠ none) :
    disk.carried = disk.legacy ↔ Met disk := by
  rw [Disk.carried]
  cases htarget : disk.target .main with
  | some bytes =>
    have hthere : disk.target .main ≠ none := htarget ▸ nofun
    exact ⟨fun _ _ => Or.inl hthere, fun _ => rfl⟩
  | none =>
    change carried disk.legacy disk.target = disk.legacy ↔ _
    constructor
    · intro h _
      refine Or.inr fun part hpart hnone => hpart ?_
      have hsame := congrFun h part
      rw [carried, hnone] at hsame
      exact hsame
    · intro hmet
      have hparts := (hmet hmain).resolve_left fun hnot => hnot htarget
      funext part
      rw [carried]
      cases hlegacy : disk.legacy part with
      | some source => rfl
      | none =>
        have hnone : disk.target part = none := by
          by_contra hnot
          exact hparts part hnot hlegacy
        rw [hnone]
        rfl

/-- What happens to the directories. -/
inductive Step where
  /-- An attempt, and how it ended; one that waits died there. -/
  | attempt (result : Except (Halt MigrationError) MigrationOutcome)
  /-- The old release changes its database, which still has its name. -/
  | owner

/-- A step with the directories before and after it. -/
structure Record where
  before : Disk
  step : Step
  after : Disk

def Record.Attempted (record : Record) : Prop := record.step ≠ .owner

/-- The attempt reports that it moved the database. -/
def Record.ReportsMove (record : Record) : Prop :=
  ∃ outcome, record.step = .attempt (.ok outcome) ∧ outcome ≠ .freshInstall ∧ outcome ≠ .alreadyMigrated

/-- One step after another, the newest first, from directories in which nothing was migrated. -/
inductive History (sha256 : Bytes → Bytes) (start : Disk) : List Record → Disk → Prop where
  | start (hstart : start.legacy .main ≠ none ∨ start.target .main = none) :
      History sha256 start [] start
  | attempt {records : List Record} {disk : Disk} (h : History sha256 start records disk)
      (answers : List Answer) :
      History sha256 start
        (⟨disk, .attempt (migrateLegacyDb sha256 ⟨answers, disk⟩).1,
          (migrateLegacyDb sha256 ⟨answers, disk⟩).2.state⟩ :: records)
        (migrateLegacyDb sha256 ⟨answers, disk⟩).2.state
  | owner {records : List Record} {disk : Disk} (h : History sha256 start records disk)
      (hthere : disk.legacy .main ≠ none) (files : Files) (hmain : files .main ≠ none) :
      History sha256 start (⟨disk, .owner, { disk with legacy := files }⟩ :: records)
        { disk with legacy := files }

/-- What a step of a history may do. -/
structure Safe (earlier : List Record) (record : Record) : Prop where
  /-- The old files stay as they are until all of them are at the target. -/
  intact : record.Attempted → record.after.legacy = record.before.legacy ∨
    ∀ part bytes, record.before.legacy part = some bytes → record.after.target part = some bytes
  moved : record.ReportsMove → record.after.target = record.before.legacy
  already : record.step = .attempt (.ok .alreadyMigrated) → ∃ old ∈ earlier, old.Attempted ∧
    old.before.legacy .main ≠ none ∧ record.after.target = old.before.legacy

/-- A target without an old database beside it is what an earlier attempt found under the old names. -/
def Settled (records : List Record) (disk : Disk) : Prop :=
  disk.legacy .main = none → disk.target .main = none ∨
    ∃ old ∈ records, old.Attempted ∧ old.before.legacy .main ≠ none ∧ disk.target = old.before.legacy

section Histories

variable {sha256 : Bytes → Bytes} {start disk : Disk} {records : List Record}

/-- What an attempt of a history leaves. -/
theorem left_of_attempt (hsha : Function.Injective sha256) (disk : Disk) (answers : List Answer) :
    Left disk (migrateLegacyDb sha256 ⟨answers, disk⟩).2.state :=
  (ensures_migrateLegacyDb hsha).everywhere (fun _ _ h => h.left) answers

/-- What an attempt of a history reports. -/
theorem reported_of_attempt (hsha : Function.Injective sha256) {answers : List Answer}
    {outcome : MigrationOutcome} (h : (migrateLegacyDb sha256 ⟨answers, disk⟩).1 = .ok outcome) :
    Reported disk outcome (migrateLegacyDb sha256 ⟨answers, disk⟩).2.state :=
  (ensures_migrateLegacyDb hsha).returned h

theorem Left.intact {before after : Disk} (h : Left before after) :
    after.legacy = before.legacy ∨
      ∀ part bytes, before.legacy part = some bytes → after.target part = some bytes := by
  rcases h.part with hprep | ⟨-, -, htarget⟩
  · exact Or.inl hprep.legacy
  · refine Or.inr fun part bytes hpart => ?_
    rw [htarget, Disk.carried]
    split
    · exact hpart
    · rw [carried, hpart]
      rfl

/-- An attempt that reports a move has carried the files. -/
theorem Reported.carried {before after : Disk} {outcome : MigrationOutcome}
    (h : Reported before outcome after) (hfresh : outcome ≠ .freshInstall)
    (halready : outcome ≠ .alreadyMigrated) :
    before.legacy .main ≠ none ∧ after.target = before.carried := by
  cases outcome with
  | freshInstall => exact absurd rfl hfresh
  | alreadyMigrated => exact absurd rfl halready
  | migrated | recoveredFromInterrupted => exact ⟨h.1, h.2.2⟩

section

variable (hsha : Function.Injective sha256) (h : History sha256 start records disk)
include hsha h

theorem moved_iff_met {record : Record} (hmem : record ∈ records) (hmove : record.ReportsMove) :
    record.after.target = record.before.legacy ↔ Met record.before := by
  induction h with
  | start hstart => cases hmem
  | owner h hthere files hmain ih =>
    rcases List.mem_cons.mp hmem with rfl | hmem
    · obtain ⟨outcome, hstep, -⟩ := hmove
      cases hstep
    · exact ih hmem
  | attempt h answers ih =>
    rcases List.mem_cons.mp hmem with rfl | hmem
    · obtain ⟨outcome, hstep, hfresh, halready⟩ := hmove
      have hreport := reported_of_attempt hsha (Step.attempt.inj hstep)
      obtain ⟨hmain, hcarried⟩ := hreport.carried hfresh halready
      rw [← carried_eq_legacy_iff hmain, ← hcarried]
    · exact ih hmem

/-- A step after which the history is settled again keeps everything safe. -/
theorem safe_and_settled (hmet : ∀ record ∈ records, record.Attempted → Met record.before) :
    (∀ record earlier, (record :: earlier) <:+ records → Safe earlier record) ∧
      Settled records disk := by
  induction h with
  | start hstart =>
    refine ⟨fun record earlier hsuffix => absurd (List.suffix_nil.mp hsuffix) nofun, fun hnone => ?_⟩
    exact Or.inl (hstart.resolve_left fun hnot => hnot hnone)
  | @owner records disk h hthere files hmain ih =>
    obtain ⟨hsafe, -⟩ := ih fun record hmem => hmet record (List.mem_cons_of_mem _ hmem)
    refine ⟨fun record earlier hsuffix => ?_, fun hnone => absurd hnone hmain⟩
    rcases List.suffix_cons_iff.mp hsuffix with heq | hsuffix
    · cases heq
      refine ⟨fun hattempt => absurd rfl hattempt, fun hmove => ?_, nofun⟩
      obtain ⟨outcome, hstep, -⟩ := hmove
      cases hstep
    · exact hsafe record earlier hsuffix
  | @attempt records disk h answers ih =>
    obtain ⟨hsafe, hsettled⟩ := ih fun record hmem => hmet record (List.mem_cons_of_mem _ hmem)
    have hnow := hmet _ List.mem_cons_self nofun
    have hleft := left_of_attempt hsha disk answers
    refine ⟨fun record earlier hsuffix => ?_, fun hnone => ?_⟩
    · rcases List.suffix_cons_iff.mp hsuffix with heq | hsuffix
      · cases heq
        refine ⟨fun _ => hleft.intact, fun hmove => ?_, fun hstep => ?_⟩
        · exact (moved_iff_met hsha (h.attempt answers) List.mem_cons_self hmove).mpr hnow
        · obtain ⟨hgone, hthere, hsame⟩ := reported_of_attempt hsha (Step.attempt.inj hstep)
          rcases hsettled hgone with hnothing | ⟨old, hold, hattempted, hmain, htarget⟩
          · exact absurd hnothing hthere
          · exact ⟨old, hold, hattempted, hmain, hsame.target.trans htarget⟩
      · exact hsafe record earlier hsuffix
    · by_cases hgone : disk.legacy .main = none
      · have hsame := hleft.idle hgone
        rcases hsettled hgone with hnothing | ⟨old, hold, hattempted, hmain, htarget⟩
        · exact Or.inl ((congrFun hsame.target .main).trans hnothing)
        · exact Or.inr ⟨old, List.mem_cons_of_mem _ hold, hattempted, hmain,
            hsame.target.trans htarget⟩
      · rcases hleft.part with hprep | ⟨-, -, htarget⟩
        · exact absurd ((congrFun hprep.legacy .main).symm.trans hnone) hgone
        · exact Or.inr ⟨_, List.mem_cons_self, nofun, hgone,
            htarget.trans ((carried_eq_legacy_iff hgone).mpr hnow)⟩

/-- Where nobody but the attempts touches the files, nothing is left over. -/
theorem met_of_undisturbed (halone : ∀ record ∈ records, record.Attempted)
    (htidy : ∀ part, start.target part ≠ none → start.legacy part ≠ none) :
    (∀ record ∈ records, Met record.before) ∧
      (disk.legacy .main = none ∨ ∀ part, disk.target part ≠ none → disk.legacy part ≠ none) := by
  induction h with
  | start hstart => exact ⟨nofun, Or.inr htidy⟩
  | owner h hthere files hmain ih => exact absurd rfl (halone _ List.mem_cons_self)
  | @attempt records disk h answers ih =>
    obtain ⟨hmet, hnow⟩ := ih fun record hmem => halone record (List.mem_cons_of_mem _ hmem)
    have hleft := left_of_attempt hsha disk answers
    refine ⟨fun record hmem => ?_, ?_⟩
    · rcases List.mem_cons.mp hmem with rfl | hmem
      · exact fun hmain => Or.inr (hnow.resolve_left hmain)
      · exact hmet record hmem
    · by_cases hgone : disk.legacy .main = none
      · exact Or.inl ((congrFun (hleft.idle hgone).legacy .main).trans hgone)
      · rcases hleft.part with hprep | ⟨-, hmoved, -⟩
        · refine Or.inr fun part hpart => ?_
          rw [hprep.legacy]
          rcases hprep.within part hpart with htarget | hlegacy
          · exact hnow.resolve_left hgone part htarget
          · exact hlegacy
        · exact Or.inl hmoved

end

/-- A history whose attempts find nothing left over at the target is safe, an attempt that finds something
reports a move that was none, and attempts alone leave nothing over. -/
theorem migrations_crashSafe (hsha : Function.Injective sha256) (h : History sha256 start records disk) :
    ((∀ record ∈ records, record.Attempted → Met record.before) →
      ∀ record earlier, (record :: earlier) <:+ records → Safe earlier record) ∧
    (∀ record ∈ records, record.ReportsMove →
      (record.after.target = record.before.legacy ↔ Met record.before)) ∧
    ((∀ record ∈ records, record.Attempted) →
      (∀ part, start.target part ≠ none → start.legacy part ≠ none) →
      ∀ record ∈ records, Met record.before) :=
  ⟨fun hmet => (safe_and_settled hsha h hmet).1, fun _ hmem => moved_iff_met hsha h hmem,
    fun halone htidy => (met_of_undisturbed hsha h halone htidy).1⟩

end Histories

/-! ## A side file that is left over -/

/-- A database with a write-ahead log, and nothing migrated. -/
def logged : Disk where
  legacy := fun
    | .main => some [109]
    | .wal => some [119]
    | .shm => none
  backup := fun _ => none
  target := fun _ => none
  lock := false

/-- The database after its owner has folded the log into it. -/
def folded : Files := fun
  | .main => some [109, 119]
  | _ => none

/-- An attempt that dies once it has copied the database and its log. -/
def diesBeforeRename : List Answer :=
  [.done, .done, .done, .copied [109] (some 1), .done, .done, .done, .done,
    .copied [119] (some 1), .done, .done, .done, .done]

/-- An attempt that finds the lock of a dead process and dies once it has removed the copy. -/
def diesWhileRemoving : List Answer :=
  [.done, .done, .stale true, .done, .done, .done, .done]

/-- An attempt that finds the lock of a dead process and moves the database. -/
def movesFolded : List Answer :=
  [.done, .done, .stale true, .done, .done, .done, .copied [109, 119] (some 2), .done, .done, .done,
    .done, .done, .done]

/-- One attempt, which dies. -/
def diedOnce : List Record :=
  [⟨logged, .attempt (migrateLegacyDb id ⟨diesBeforeRename, logged⟩).1,
    (migrateLegacyDb id ⟨diesBeforeRename, logged⟩).2.state⟩]

theorem migrations_crashSafe_diedOnce :
    ((∀ record ∈ diedOnce, record.Attempted → Met record.before) →
      ∀ record earlier, (record :: earlier) <:+ diedOnce → Safe earlier record) ∧
    (∀ record ∈ diedOnce, record.ReportsMove →
      (record.after.target = record.before.legacy ↔ Met record.before)) ∧
    ((∀ record ∈ diedOnce, record.Attempted) →
      (∀ part, logged.target part ≠ none → logged.legacy part ≠ none) →
      ∀ record ∈ diedOnce, Met record.before) := by
  have hstart : History id logged [] logged := .start (Or.inl (Option.some_ne_none [109]))
  exact migrations_crashSafe Function.injective_id (hstart.attempt diesBeforeRename)

theorem left_over_log_moved :
    ¬ ∀ (sha256 : Bytes → Bytes) (start disk : Disk) (records : List Record),
      Function.Injective sha256 → History sha256 start records disk →
      ∀ record earlier, (record :: earlier) <:+ records → Safe earlier record := by
  intro h
  have hstart : History id logged [] logged := .start (Or.inl (Option.some_ne_none [109]))
  have hfirst := hstart.attempt diesBeforeRename
  have hsecond := hfirst.owner (Option.some_ne_none [109]) folded (Option.some_ne_none [109, 119])
  have hthird := (hsecond.attempt diesWhileRemoving).attempt movesFolded
  have hsafe := h id logged _ _ Function.injective_id hthird _ _ (List.suffix_refl _)
  have hmoved := hsafe.moved ⟨.migrated 2 [] true, rfl, nofun, nofun⟩
  exact absurd (congrFun hmoved .wal) nofun

end Awman.DataPaths
