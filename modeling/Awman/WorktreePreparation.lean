import Awman.EngineErrors
import Awman.Library.Utf8Text
import Awman.PromptTemplates

/-!
# Preparing a worktree

A run works in a worktree of its own.  One that is already there is resumed or recreated.  To recreate
it, its branch is deleted, then its directory; the question about uncommitted files of the main checkout
and the commands that make the new worktree come after that.
-/

namespace Awman.Worktrees

open Awman.Engine (EngineError)
open Awman.Network (trim)
open Awman.Prompt (lines)
open Awman.Utf8Text (fromUtf8 fromUtf8Lossy)

/-- The bytes of a path. -/
abbrev Path := List UInt8

/-- The id of a commit. -/
abbrev Commit := String

/-- A path in a message. -/
def display (path : Path) : String := String.ofList (fromUtf8Lossy path)

/-! ## Errors -/

/-- The text of an error that a git command ends with. -/
def gitText : EngineError → String
  | .git message => s!"git operation failed: {message}"
  | .io path error =>
    let shown := display path
    s!"io error at {shown}: {error}"
  | _ => ""

inductive CommandError where
  | engine (error : EngineError)
  | worktreeExists (path : Path) (branch : String)
  | aborted
  | other (text : String)
  deriving DecidableEq

/-- Why a git command does not succeed. -/
inductive GitFailure where
  | exited (stderr : List UInt8)
  | notInvoked (error : String)
  deriving DecidableEq

/-! ## The repository -/

/-- What HEAD names. -/
inductive Head where
  | branch (name : String)
  | detached (commit : Commit)
  deriving DecidableEq

/-- A linked worktree. -/
structure Worktree (φ : Type) where
  /-- Its index and its files, committed or not. -/
  contents : φ
  head : Head
  /-- It and its registration in the repository name each other. -/
  owned : Bool

/-- A repository with its main checkout. -/
structure Repo (φ : Type) where
  worktrees : Path → Option (Worktree φ)
  branches : String → Option Commit
  rootHead : Head

variable {φ : Type}

/-- The commit that a HEAD names. -/
def Repo.resolve (repo : Repo φ) : Head → Option Commit
  | .branch name => repo.branches name
  | .detached commit => some commit

def Repo.setWorktree (repo : Repo φ) (path : Path) (worktree : Option (Worktree φ)) : Repo φ :=
  { repo with worktrees := Function.update repo.worktrees path worktree }

def Repo.setBranch (repo : Repo φ) (name : String) (commit : Option Commit) : Repo φ :=
  { repo with branches := Function.update repo.branches name commit }

/-- The HEAD of a worktree is moved. -/
def Repo.setHead (repo : Repo φ) (path : Path) (head : Head) : Repo φ :=
  repo.setWorktree path ((repo.worktrees path).map fun worktree => { worktree with head })

/-- The HEAD of a worktree names its commit, no branch. -/
def Repo.detach (repo : Repo φ) (path : Path) : Repo φ :=
  match (repo.worktrees path).bind fun worktree => repo.resolve worktree.head with
  | some commit => repo.setHead path (.detached commit)
  | none => repo

/-- A new branch begins at the commit of the main checkout. -/
def Repo.makeBranch (repo : Repo φ) (name : String) : Repo φ :=
  if (repo.branches name).isSome then repo else repo.setBranch name (repo.resolve repo.rootHead)

/-- The branch of the main checkout is at another commit. -/
def Repo.advanceRoot (repo : Repo φ) (commit : Commit) : Repo φ :=
  match repo.rootHead with
  | .branch name => repo.setBranch name (some commit)
  | .detached _ => { repo with rootHead := .detached commit }

/-! ## The host -/

inductive PreWorktreeDecision where
  | commit (message : String)
  | useLastCommit
  | abort
  deriving DecidableEq

inductive ExistingWorktreeDecision where
  | resume
  | recreate
  | fail
  deriving DecidableEq

inductive ExistingWorktreeChoice where
  | ask
  | explicit (decision : ExistingWorktreeDecision)
  | resumeAccepted
  deriving DecidableEq

/-- What a frontend answers. -/
structure WorktreeLifecycleFrontend where
  askPreWorktreeUncommittedFiles : List (List Char) → String → Except CommandError PreWorktreeDecision
  askExistingWorktree : Path → String → Except CommandError ExistingWorktreeDecision
  existingWorktreeAfterResume : Path → String → Except CommandError ExistingWorktreeDecision

/-- How the commands of one preparation end, each of them run at most once.  Git changes its references
as one: a command that fails leaves them as they were. -/
structure Host (φ : Type) where
  /-- What tells the owner of a worktree can be read. -/
  ownerRead : Bool
  /-- `git rev-parse --abbrev-ref HEAD` runs in the worktree. -/
  headRead : Bool
  /-- `git update-ref --no-deref HEAD HEAD` -/
  updateRef : Except GitFailure Unit
  /-- `git rev-parse --verify`, before the branch is deleted. -/
  branchRead : Bool
  /-- `git branch -D` -/
  branchDelete : Except GitFailure Unit
  /-- `git symbolic-ref HEAD` -/
  symbolicRef : Except GitFailure Unit
  /-- `git worktree remove --force` -/
  worktreeRemove : Except GitFailure Unit
  /-- What a removal that fails leaves of the index and the files. -/
  left : φ → φ
  /-- `git status --porcelain`, with what it writes. -/
  status : Except GitFailure (List UInt8)
  /-- `git add -A` -/
  add : Except GitFailure Unit
  /-- `git commit -m`, with the commit it makes. -/
  commit : Except GitFailure Commit
  createDirAll : Except String Unit
  /-- `git rev-parse --verify`, before the worktree is made. -/
  branchReadAgain : Bool
  /-- `git worktree add`, with what it checks out. -/
  worktreeAdd : Except GitFailure φ
  /-- A `git worktree add -b` that fails has made the branch. -/
  branchMade : Bool

/-- A step that may change the repository and may fail. -/
abbrev GitM (φ ε : Type) := ExceptT ε (StateM (Repo φ))

/-- The step on a repository. -/
def GitM.on {ε α : Type} (step : GitM φ ε α) (repo : Repo φ) : Except ε α × Repo φ :=
  step.run.run repo

/-- A step of the engine as one of a command. -/
def GitM.ofEngine {α : Type} (step : GitM φ EngineError α) : GitM φ CommandError α :=
  ExceptT.adapt .engine step

section Steps

variable {ε α β : Type} {repo : Repo φ}

@[simp] theorem on_pure (a : α) : GitM.on (pure a : GitM φ ε α) repo = (.ok a, repo) := rfl

@[simp] theorem on_throw (error : ε) :
    GitM.on (throw error : GitM φ ε α) repo = (.error error, repo) := rfl

@[simp] theorem on_ofExcept (result : Except ε α) :
    GitM.on (MonadExcept.ofExcept result : GitM φ ε α) repo = (result, repo) := by
  cases result <;> rfl

@[simp] theorem on_get : GitM.on (get : GitM φ ε (Repo φ)) repo = (.ok repo, repo) := rfl

@[simp] theorem on_modify (change : Repo φ → Repo φ) :
    GitM.on (modify change : GitM φ ε Unit) repo = (.ok (), change repo) := rfl

@[simp] theorem on_bind (step : GitM φ ε α) (next : α → GitM φ ε β) :
    GitM.on (step >>= next) repo =
      match step.on repo with
      | (.ok a, after) => (next a).on after
      | (.error error, after) => (.error error, after) := by
  unfold GitM.on
  rw [ExceptT.run_bind, StateT.run_bind]
  rcases StateT.run (ExceptT.run step) repo with ⟨_ | _, _⟩ <;> rfl

@[simp] theorem on_map (step : GitM φ ε α) (change : α → β) :
    GitM.on (change <$> step) repo =
      match step.on repo with
      | (.ok a, after) => (.ok (change a), after)
      | (.error error, after) => (.error error, after) := by
  rw [map_eq_pure_bind, on_bind]
  rfl

@[simp] theorem on_tryCatch (step : GitM φ ε α) (handle : ε → GitM φ ε α) :
    GitM.on (tryCatch step handle) repo =
      match step.on repo with
      | (.ok a, after) => (.ok a, after)
      | (.error error, after) => (handle error).on after := by
  unfold GitM.on
  rw [ExceptT.run_tryCatch, StateT.run_bind]
  rcases StateT.run (ExceptT.run step) repo with ⟨_ | _, _⟩ <;> rfl

@[simp] theorem on_ofEngine (step : GitM φ EngineError α) :
    GitM.on step.ofEngine repo =
      match step.on repo with
      | (.ok a, after) => (.ok a, after)
      | (.error error, after) => (.error (.engine error), after) := by
  unfold GitM.on GitM.ofEngine
  rw [ExceptT.run_adapt, StateT.run_map]
  rcases StateT.run (ExceptT.run step) repo with ⟨_ | _, _⟩ <;> rfl

end Steps

/-! ## The commands of the engine -/

section Engine

variable (host : Host φ)

/-- What a command writes on its standard error, in a message. -/
def trimmed (stderr : List UInt8) : String := String.ofList (trim (fromUtf8Lossy stderr))

/-- Run a git command; one that does not succeed is an error. -/
def runGitLogged {α : Type} (command : String) (outcome : Except GitFailure α)
    (explain : List UInt8 → String) : GitM φ EngineError α :=
  match outcome with
  | .ok result => pure result
  | .error (.exited stderr) => throw (.git (explain stderr))
  | .error (.notInvoked error) => throw (.git s!"invoke `{command}`: {error}")

def validateWorktreeOwner (worktree : Path) : GitM φ EngineError Unit := do
  let repo ← get
  let shown := display worktree
  if host.ownerRead ∧ (repo.worktrees worktree).any (·.owned) then pure ()
  else throw (.git s!"worktree does not belong to this repository: {shown}")

/-- The branch that a worktree has checked out. -/
def currentBranch (repo : Repo φ) (worktree : Path) : Option String := do
  guard host.headRead
  let existing ← repo.worktrees worktree
  -- A branch without a commit has no HEAD to parse.
  let _ ← repo.resolve existing.head
  let name := match existing.head with
    | .branch name => String.ofList (trim name.toList)
    | .detached _ => "HEAD"
  if name = "" ∨ name = "HEAD" then none else some name

def branchExists (read : Bool) (repo : Repo φ) (branch : String) : Bool :=
  read && (repo.branches branch).isSome

def deleteBranchLogged (branch : String) : GitM φ EngineError Unit := do
  runGitLogged s!"git branch -D {branch}" host.branchDelete
    fun stderr => "git branch -D failed: " ++ trimmed stderr
  modify fun repo => repo.setBranch branch none

/-- Delete the branch of a worktree that is about to be recreated; its HEAD is detached before. -/
def deleteRecreatedBranchLogged (worktree : Path) (branch : String) : GitM φ EngineError Unit := do
  let repo ← get
  let shown := display worktree
  let current := (currentBranch host repo worktree).getD "detached HEAD"
  if currentBranch host repo worktree ≠ some branch then
    throw (.git (s!"cannot recreate {shown}: branch '{branch}' is not checked out here " ++
      s!"(current branch: {current}); check whether it is checked out elsewhere"))
  runGitLogged "git update-ref --no-deref HEAD HEAD" host.updateRef
    fun stderr => String.ofList (fromUtf8Lossy stderr)
  modify fun repo => repo.detach worktree
  let repo ← get
  if branchExists host.branchRead repo branch then
    tryCatch (deleteBranchLogged host branch) fun error => do
      let text := gitText error
      runGitLogged s!"git symbolic-ref HEAD refs/heads/{branch}" host.symbolicRef
        fun _ => s!"{text}; could not restore original branch; worktree files preserved at {shown}"
      modify fun repo => repo.setHead worktree (.branch branch)
      throw error

/-- Git is given a path only if it is a text. -/
def toStr (path : Path) : GitM φ EngineError Unit :=
  if (fromUtf8 path).isSome then pure () else throw (.git "worktree path not UTF-8")

/-- What a removal leaves. -/
def afterRemoval (worktree : Path) (repo : Repo φ) : Repo φ :=
  match host.worktreeRemove with
  | .ok _ => repo.setWorktree worktree none
  | .error (.exited _) => repo.setWorktree worktree ((repo.worktrees worktree).map
      fun kept => { kept with contents := host.left kept.contents })
  | .error (.notInvoked _) => repo

def removeWorktreeLogged (worktree : Path) : GitM φ EngineError Unit := do
  toStr worktree
  let shown := display worktree
  modify (afterRemoval host worktree)
  runGitLogged s!"git worktree remove --force {shown}" host.worktreeRemove
    fun stderr => "git worktree remove failed: " ++ trimmed stderr

/-- The lines of `git status` that say something. -/
def uncommittedFiles (stdout : List UInt8) : List (List Char) :=
  (lines (fromUtf8Lossy stdout)).filter (trim · ≠ [])

def uncommittedFilesLogged : GitM φ EngineError (List (List Char)) := do
  let stdout ← runGitLogged "git status --porcelain" host.status
    fun stderr => "git status failed: " ++ trimmed stderr
  return uncommittedFiles stdout

def commitAllLogged (message : String) : GitM φ EngineError Unit := do
  runGitLogged "git add -A" host.add fun stderr => "git add -A failed: " ++ trimmed stderr
  let commit ← runGitLogged s!"git commit -m {message}" host.commit
    fun stderr => "git commit failed: " ++ trimmed stderr
  modify fun repo => repo.advanceRoot commit

/-- What an attempt to make a worktree with a new branch leaves of the branch. -/
def afterBranching (branch : String) (repo : Repo φ) : Repo φ :=
  match host.worktreeAdd with
  | .ok _ => repo.makeBranch branch
  | .error (.exited _) => if host.branchMade then repo.makeBranch branch else repo
  | .error (.notInvoked _) => repo

def createWorktreeLogged (worktree : Path) (branch : String) : GitM φ EngineError Unit := do
  match host.createDirAll with
  | .error error => throw (.io worktree error)
  | .ok _ => pure ()
  toStr worktree
  let shown := display worktree
  let repo ← get
  let created := branchExists host.branchReadAgain repo branch
  let command :=
    if created then s!"git worktree add {shown} {branch}" else s!"git worktree add {shown} -b {branch}"
  modify (if created then id else afterBranching host branch)
  let contents ← runGitLogged command host.worktreeAdd
    fun stderr => "git worktree add failed: " ++ trimmed stderr
  modify fun repo => repo.setWorktree worktree (some ⟨contents, .branch branch, true⟩)

end Engine

/-! ## The preparation -/

/-- What a run knows of its worktree. -/
structure WorktreeLifecycle where
  worktreePath : Path
  /-- Where a worktree that is recreated goes. -/
  creationPath : Path
  branch : String

variable (host : Host φ) (frontend : WorktreeLifecycleFrontend) (lifecycle : WorktreeLifecycle)

/-- What becomes of the worktree that is already there. -/
def existingDecision : ExistingWorktreeChoice → Except CommandError ExistingWorktreeDecision
  | .explicit decision => .ok decision
  | .ask => frontend.askExistingWorktree lifecycle.worktreePath lifecycle.branch
  | .resumeAccepted => frontend.existingWorktreeAfterResume lifecycle.worktreePath lifecycle.branch

/-- The question about uncommitted files of the main checkout. -/
def askUncommitted (files : List (List Char)) : Except CommandError PreWorktreeDecision :=
  let branch := lifecycle.branch
  frontend.askPreWorktreeUncommittedFiles files s!"WIP: pre-worktree commit for {branch}"

/-- Do with the uncommitted files what is answered. -/
def settleUncommitted (files : List (List Char)) : GitM φ CommandError Unit := do
  if files ≠ [] then
    match ← MonadExcept.ofExcept (askUncommitted frontend lifecycle files) with
    | .commit message => (commitAllLogged host message).ofEngine
    | .useLastCommit => pure ()
    | .abort => throw .aborted

/-- Make the worktree, after the question about uncommitted files of the main checkout. -/
def createFresh (path : Path) : GitM φ CommandError Path := do
  let files ← (uncommittedFilesLogged host).ofEngine
  settleUncommitted host frontend lifecycle files
  (createWorktreeLogged host path lifecycle.branch).ofEngine
  return path

def prepareWithExisting (choice : ExistingWorktreeChoice) : GitM φ CommandError Path := do
  let repo ← get
  if (repo.worktrees lifecycle.worktreePath).isSome then
    match ← MonadExcept.ofExcept (existingDecision frontend lifecycle choice) with
    | .resume =>
      (validateWorktreeOwner host lifecycle.worktreePath).ofEngine
      return lifecycle.worktreePath
    | .recreate =>
      (validateWorktreeOwner host lifecycle.worktreePath).ofEngine
      (deleteRecreatedBranchLogged host lifecycle.worktreePath lifecycle.branch).ofEngine
      (removeWorktreeLogged host lifecycle.worktreePath).ofEngine
      createFresh host frontend lifecycle lifecycle.creationPath
    | .fail => throw (.worktreeExists lifecycle.worktreePath lifecycle.branch)
  else createFresh host frontend lifecycle lifecycle.worktreePath

/-! ## What one command does -/

section Commands

variable {α : Type} (repo : Repo φ) {worktree : Path} {branch : String}

theorem runGitLogged_ok (command : String) (result : α) (explain : List UInt8 → String) :
    (runGitLogged command (.ok result) explain).on repo = (.ok result, repo) := rfl

theorem runGitLogged_error (command : String) (failure : GitFailure) (explain : List UInt8 → String) :
    ∃ error, (runGitLogged command (.error failure : Except GitFailure α) explain).on repo =
      (.error error, repo) := by
  cases failure with
  | exited | notInvoked => exact ⟨_, rfl⟩

theorem validateWorktreeOwner_ok (howned : host.ownerRead = true ∧
    (repo.worktrees worktree).any (·.owned) = true) :
    (validateWorktreeOwner host worktree).on repo = (.ok (), repo) := by
  simp [validateWorktreeOwner, howned]

theorem validateWorktreeOwner_error (howned : ¬ (host.ownerRead = true ∧
    (repo.worktrees worktree).any (·.owned) = true)) :
    ∃ error, (validateWorktreeOwner host worktree).on repo = (.error error, repo) := by
  simp only [validateWorktreeOwner, on_bind, on_get, if_neg howned, on_throw]
  exact ⟨_, rfl⟩

theorem deleteBranchLogged_ok (branch : String) (hdeleted : host.branchDelete = .ok ()) :
    (deleteBranchLogged host branch).on repo = (.ok (), repo.setBranch branch none) := by
  simp only [deleteBranchLogged, on_bind, hdeleted, runGitLogged_ok, on_modify]

theorem deleteBranchLogged_error (branch : String) (hdeleted : host.branchDelete ≠ .ok ()) :
    ∃ error, (deleteBranchLogged host branch).on repo = (.error error, repo) := by
  cases houtcome : host.branchDelete with
  | ok _ => exact absurd houtcome hdeleted
  | error failure =>
    obtain ⟨error, hrun⟩ := runGitLogged_error (α := Unit) repo
      s!"git branch -D {branch}" failure fun stderr => "git branch -D failed: " ++ trimmed stderr
    exact ⟨error, by simp only [deleteBranchLogged, on_bind, houtcome, hrun]⟩

/-- A worktree that does not have the branch checked out is left as it is. -/
theorem deleteRecreatedBranchLogged_refused
    (hrefused : ¬ (currentBranch host repo worktree = some branch ∧ host.updateRef = .ok ())) :
    ∃ error, (deleteRecreatedBranchLogged host worktree branch).on repo = (.error error, repo) := by
  unfold deleteRecreatedBranchLogged
  by_cases hchecked : currentBranch host repo worktree = some branch
  · have hupdate : host.updateRef ≠ .ok () := fun hok => hrefused ⟨hchecked, hok⟩
    cases houtcome : host.updateRef with
    | ok _ => exact absurd houtcome hupdate
    | error failure =>
      obtain ⟨error, hrun⟩ := runGitLogged_error (α := Unit) repo
        "git update-ref --no-deref HEAD HEAD" failure
        fun stderr => String.ofList (fromUtf8Lossy stderr)
      exact ⟨error, by simp [hchecked, hrun]⟩
  · simp only [on_bind, on_get, ne_eq, hchecked, not_false_eq_true, if_true, on_throw]
    exact ⟨_, rfl⟩

section

variable (hchecked : currentBranch host repo worktree = some branch)
include hchecked

/-- The worktree is detached, and its branch is deleted if it can be. -/
theorem deleteRecreatedBranchLogged_ok (hupdate : host.updateRef = .ok ())
    (hdeleted : branchExists host.branchRead (repo.detach worktree) branch = true →
      host.branchDelete = .ok ()) :
    ∃ after, (deleteRecreatedBranchLogged host worktree branch).on repo = (.ok (), after) ∧
      after.worktrees = (repo.detach worktree).worktrees := by
  unfold deleteRecreatedBranchLogged
  by_cases hexists : branchExists host.branchRead (repo.detach worktree) branch = true
  · have hok := deleteBranchLogged_ok host (repo.detach worktree) branch
      (hdeleted hexists)
    exact ⟨(repo.detach worktree).setBranch branch none,
      by simp [hchecked, hupdate, runGitLogged_ok, hexists, hok], rfl⟩
  · exact ⟨repo.detach worktree, by simp [hchecked, hupdate, runGitLogged_ok, hexists], rfl⟩

/-- The branch cannot be deleted: the HEAD is put back, if it can be. -/
theorem deleteRecreatedBranchLogged_undone (hupdate : host.updateRef = .ok ())
    (hexists : branchExists host.branchRead (repo.detach worktree) branch = true)
    (hdeleted : host.branchDelete ≠ .ok ()) :
    ∃ error, (deleteRecreatedBranchLogged host worktree branch).on repo = (.error error,
      if host.symbolicRef = .ok () then (repo.detach worktree).setHead worktree (.branch branch)
      else repo.detach worktree) := by
  unfold deleteRecreatedBranchLogged
  obtain ⟨error, hdelete⟩ := deleteBranchLogged_error host
    (repo.detach worktree) branch hdeleted
  cases hrestore : host.symbolicRef with
  | ok _ => exact ⟨error, by simp [hchecked, hupdate, runGitLogged_ok, hexists, hdelete]⟩
  | error failure =>
    simp only [on_bind, on_get, hchecked, ne_eq, not_true_eq_false, if_false, hupdate,
      runGitLogged_ok, on_modify, hexists, if_true, on_tryCatch, hdelete, reduceCtorEq]
    cases failure with
    | exited | notInvoked => exact ⟨_, rfl⟩

/-- A worktree with a branch checked out is detached from it. -/
theorem worktrees_detach :
    ∃ existing name commit, repo.worktrees worktree = some existing ∧ existing.head = .branch name ∧
      (repo.detach worktree).worktrees =
        Function.update repo.worktrees worktree (some { existing with head := .detached commit }) := by
  simp only [currentBranch, Option.bind_eq_bind, Option.bind_eq_some_iff] at hchecked
  obtain ⟨_, _, existing, hexisting, commit, hcommit, hname⟩ := hchecked
  cases hhead : existing.head with
  | detached _ => simp [hhead] at hname
  | branch name =>
    refine ⟨existing, name, commit, hexisting, hhead, ?_⟩
    simp [Repo.detach, hexisting, hcommit, Repo.setHead, Repo.setWorktree]

/-- A worktree that is detached from a branch does not have the HEAD it had. -/
theorem detach_head_ne :
    ((repo.detach worktree).worktrees worktree).map (·.head) ≠
      (repo.worktrees worktree).map (·.head) := by
  obtain ⟨existing, name, commit, hexisting, hhead, hdetach⟩ := worktrees_detach host repo hchecked
  rw [hdetach, Function.update_self, hexisting, Option.map_some, Option.map_some, hhead]
  intro hsame
  cases hsame

/-- Putting back the HEAD of a worktree leaves it as it was, if its HEAD named that branch. -/
theorem detach_setHead :
    ((repo.detach worktree).setHead worktree (.branch branch)).worktrees worktree =
      repo.worktrees worktree ↔ (repo.worktrees worktree).map (·.head) = some (.branch branch) := by
  obtain ⟨existing, name, commit, hexisting, hhead, hdetach⟩ := worktrees_detach host repo hchecked
  have hback : ((repo.detach worktree).setHead worktree (.branch branch)).worktrees worktree =
      some { existing with head := .branch branch } := by
    simp only [Repo.setHead, Repo.setWorktree, hdetach, Function.update_self, Option.map_some]
  rw [hback, hexisting, Option.map_some, Option.some.injEq, Option.some.injEq]
  constructor
  · intro hsame
    rw [← hsame]
  · intro hbranch
    rw [← hbranch]

end

@[simp] theorem branches_detach : (repo.detach worktree).branches = repo.branches := by
  unfold Repo.detach
  cases (repo.worktrees worktree).bind fun existing => repo.resolve existing.head <;> rfl

@[simp] theorem branches_setHead (head : Head) :
    (repo.setHead worktree head).branches = repo.branches := rfl

@[simp] theorem branchExists_detach (read : Bool) :
    branchExists read (repo.detach worktree) branch = branchExists read repo branch := by
  simp only [branchExists, branches_detach]

theorem removeWorktreeLogged_ok (hpath : (fromUtf8 worktree).isSome = true)
    (hremoved : host.worktreeRemove = .ok ()) :
    (removeWorktreeLogged host worktree).on repo = (.ok (), repo.setWorktree worktree none) := by
  simp [removeWorktreeLogged, toStr, hpath, hremoved, afterRemoval, runGitLogged_ok]

/-- A removal that fails does not move the HEAD. -/
theorem removeWorktreeLogged_error
    (hfails : ¬ ((fromUtf8 worktree).isSome = true ∧ host.worktreeRemove = .ok ())) :
    ∃ error after, (removeWorktreeLogged host worktree).on repo = (.error error, after) ∧
      (after.worktrees worktree).map (·.head) = (repo.worktrees worktree).map (·.head) := by
  unfold removeWorktreeLogged
  by_cases hpath : (fromUtf8 worktree).isSome = true
  · cases houtcome : host.worktreeRemove with
    | ok _ => exact absurd ⟨hpath, houtcome⟩ hfails
    | error failure =>
      simp only [on_bind, toStr, hpath, if_true, on_pure, on_modify]
      cases failure with
      | exited stderr =>
        refine ⟨_, _, rfl, ?_⟩
        simp [afterRemoval, houtcome, Repo.setWorktree, Function.comp_def]
      | notInvoked error =>
        refine ⟨_, _, rfl, ?_⟩
        simp [afterRemoval, houtcome]
  · simp only [on_bind, toStr, if_neg hpath, on_throw]
    exact ⟨_, _, rfl, rfl⟩

end Commands

/-! ## Making the worktree -/

/-- The question about uncommitted files of the main checkout does not end the preparation. -/
def Settled (files : List (List Char)) : Prop :=
  files = [] ∨ askUncommitted frontend lifecycle files = .ok .useLastCommit ∨
    (∃ message, askUncommitted frontend lifecycle files = .ok (.commit message)) ∧
      host.add = .ok () ∧ ∃ commit, host.commit = .ok commit

/-- Every command that makes the worktree succeeds. -/
structure Creates (path : Path) : Prop where
  settled : ∃ stdout, host.status = .ok stdout ∧
    Settled host frontend lifecycle (uncommittedFiles stdout)
  directory : host.createDirAll = .ok ()
  readable : (fromUtf8 path).isSome = true
  added : ∃ contents, host.worktreeAdd = .ok contents

section Creation

variable (repo : Repo φ) {path : Path}

@[simp] theorem worktrees_advanceRoot (commit : Commit) :
    (repo.advanceRoot commit).worktrees = repo.worktrees := by
  unfold Repo.advanceRoot
  cases repo.rootHead <;> rfl

@[simp] theorem worktrees_makeBranch (name : String) :
    (repo.makeBranch name).worktrees = repo.worktrees := by
  unfold Repo.makeBranch
  split <;> rfl

@[simp] theorem worktrees_afterBranching (name : String) :
    (afterBranching host name repo).worktrees = repo.worktrees := by
  unfold afterBranching
  split
  · exact worktrees_makeBranch repo name
  · split
    · exact worktrees_makeBranch repo name
    · rfl
  · rfl

theorem commitAllLogged_on (message : String) :
    (∃ error, (commitAllLogged host message).on repo = (.error error, repo) ∧
      ¬ (host.add = .ok () ∧ ∃ commit, host.commit = .ok commit)) ∨
    ∃ commit, (commitAllLogged host message).on repo = (.ok (), repo.advanceRoot commit) ∧
      host.add = .ok () ∧ host.commit = .ok commit := by
  unfold commitAllLogged
  cases hadd : host.add with
  | error failure =>
    obtain ⟨error, hrun⟩ := runGitLogged_error (α := Unit) repo "git add -A" failure
      fun stderr => "git add -A failed: " ++ trimmed stderr
    exact Or.inl ⟨error, by simp [hrun]⟩
  | ok _ =>
    cases hcommit : host.commit with
    | ok commit => exact Or.inr ⟨commit, by simp [runGitLogged_ok]⟩
    | error failure =>
      obtain ⟨error, hrun⟩ := runGitLogged_error (α := Commit) repo
        s!"git commit -m {message}" failure fun stderr => "git commit failed: " ++ trimmed stderr
      exact Or.inl ⟨error, by simp [runGitLogged_ok, hrun]⟩

theorem createWorktreeLogged_ok (branch : String) (hdirectory : host.createDirAll = .ok ())
    (hreadable : (fromUtf8 path).isSome = true) (hadded : ∃ contents, host.worktreeAdd = .ok contents) :
    ∃ after, (createWorktreeLogged host path branch).on repo = (.ok (), after) := by
  obtain ⟨contents, hadd⟩ := hadded
  simp only [createWorktreeLogged, hdirectory, toStr, hreadable, if_true, on_bind, on_pure, on_get,
    on_modify, hadd, runGitLogged_ok]
  exact ⟨_, rfl⟩

/-- An attempt that fails makes no worktree. -/
theorem createWorktreeLogged_error (branch : String)
    (hfails : ¬ (host.createDirAll = .ok () ∧ (fromUtf8 path).isSome = true ∧
      ∃ contents, host.worktreeAdd = .ok contents)) :
    ∃ error after, (createWorktreeLogged host path branch).on repo = (.error error, after) ∧
      after.worktrees = repo.worktrees := by
  unfold createWorktreeLogged
  cases hdirectory : host.createDirAll with
  | error error => exact ⟨_, _, rfl, rfl⟩
  | ok _ =>
    by_cases hreadable : (fromUtf8 path).isSome = true
    · cases hadd : host.worktreeAdd with
      | ok contents => exact absurd ⟨hdirectory, hreadable, contents, hadd⟩ hfails
      | error failure =>
        have hworktrees : ∀ created : Bool, ((if created then id
            else afterBranching host branch : Repo φ → Repo φ) repo).worktrees = repo.worktrees := by
          intro created
          cases created with
          | false => exact worktrees_afterBranching host repo branch
          | true => rfl
        simp only [on_bind, on_pure, toStr, hreadable, if_true, on_get, on_modify]
        cases failure with
        | exited | notInvoked => exact ⟨_, _, rfl, hworktrees _⟩
    · simp only [on_bind, toStr, if_neg hreadable, on_throw]
      exact ⟨_, _, rfl, rfl⟩

theorem settleUncommitted_ok {files : List (List Char)}
    (hsettled : Settled host frontend lifecycle files) :
    ∃ after, (settleUncommitted host frontend lifecycle files).on repo = (.ok (), after) ∧
      after.worktrees = repo.worktrees := by
  unfold settleUncommitted
  by_cases hnone : files = []
  · exact ⟨repo, by simp [hnone], rfl⟩
  · rcases hsettled with hempty | hlast | ⟨⟨message, hcommit⟩, hadd, commit, hmade⟩
    · exact absurd hempty hnone
    · exact ⟨repo, by simp [hnone, hlast], rfl⟩
    · rcases commitAllLogged_on host repo message with ⟨_, _, hfails⟩ | ⟨made, hrun, _⟩
      · exact absurd ⟨hadd, commit, hmade⟩ hfails
      · exact ⟨repo.advanceRoot made, by simp [hnone, hcommit, hrun], worktrees_advanceRoot repo made⟩

theorem settleUncommitted_error {files : List (List Char)}
    (hsettled : ¬ Settled host frontend lifecycle files) :
    ∃ error, (settleUncommitted host frontend lifecycle files).on repo = (.error error, repo) := by
  unfold settleUncommitted
  have hsome : files ≠ [] := fun hnone => hsettled (Or.inl hnone)
  cases hanswer : askUncommitted frontend lifecycle files with
  | error error => exact ⟨error, by simp [hsome]⟩
  | ok decision =>
    cases decision with
    | useLastCommit => exact absurd (Or.inr (Or.inl hanswer)) hsettled
    | abort => exact ⟨.aborted, by simp [hsome]⟩
    | commit message =>
      rcases commitAllLogged_on host repo message with
        ⟨error, hrun, _⟩ | ⟨made, _, hadd, hmade⟩
      · exact ⟨.engine error, by simp [hsome, hrun]⟩
      · exact absurd (Or.inr (Or.inr ⟨⟨message, hanswer⟩, hadd, made, hmade⟩)) hsettled

theorem createFresh_ok (hcreates : Creates host frontend lifecycle path) :
    ∃ after, (createFresh host frontend lifecycle path).on repo = (.ok path, after) := by
  obtain ⟨⟨stdout, hstatus, hsettled⟩, hdirectory, hreadable, hadded⟩ := hcreates
  obtain ⟨between, hsettle, _⟩ := settleUncommitted_ok host frontend lifecycle repo hsettled
  obtain ⟨after, hcreate⟩ := createWorktreeLogged_ok host between lifecycle.branch
    hdirectory hreadable hadded
  refine ⟨after, ?_⟩
  simp [createFresh, uncommittedFilesLogged, hstatus, runGitLogged_ok, hsettle, hcreate]

/-- A preparation that fails while it makes the worktree leaves the worktrees as they are. -/
theorem createFresh_error (hfails : ¬ Creates host frontend lifecycle path) :
    ∃ error after, (createFresh host frontend lifecycle path).on repo = (.error error, after) ∧
      after.worktrees = repo.worktrees := by
  unfold createFresh uncommittedFilesLogged
  cases hstatus : host.status with
  | error failure =>
    obtain ⟨error, hrun⟩ := runGitLogged_error (α := List UInt8) repo
      "git status --porcelain" failure fun stderr => "git status failed: " ++ trimmed stderr
    exact ⟨.engine error, repo, by simp only [on_bind, on_ofEngine, hrun], rfl⟩
  | ok stdout =>
    simp only [on_bind, on_ofEngine, runGitLogged_ok, on_pure]
    by_cases hsettled : Settled host frontend lifecycle (uncommittedFiles stdout)
    · obtain ⟨between, hsettle, hbetween⟩ :=
        settleUncommitted_ok host frontend lifecycle repo hsettled
      have hcreate : ¬ (host.createDirAll = .ok () ∧ (fromUtf8 path).isSome = true ∧
          ∃ contents, host.worktreeAdd = .ok contents) := fun ⟨hdirectory, hreadable, hadded⟩ =>
        hfails ⟨⟨stdout, hstatus, hsettled⟩, hdirectory, hreadable, hadded⟩
      obtain ⟨error, after, hrun, hafter⟩ := createWorktreeLogged_error host between
        lifecycle.branch hcreate
      exact ⟨.engine error, after, by simp only [hsettle, hrun], hafter.trans hbetween⟩
    · obtain ⟨error, hsettle⟩ := settleUncommitted_error host frontend lifecycle repo hsettled
      exact ⟨error, repo, by simp only [hsettle], rfl⟩

end Creation

/-! ## What a preparation that fails leaves -/

/-- The worktree that was there is as it was, and its branch has the commits it had. -/
def KeepsExisting (before after : Repo φ) : Prop :=
  ∀ existing, before.worktrees lifecycle.worktreePath = some existing →
    after.worktrees lifecycle.worktreePath = some existing ∧
      ∀ name, existing.head = .branch name ∨ name = lifecycle.branch →
        after.branches name = before.branches name

/-- The worktree is recreated: nothing is found against it, and its HEAD is detached. -/
structure Detaches (choice : ExistingWorktreeChoice) (repo : Repo φ) : Prop where
  recreate : existingDecision frontend lifecycle choice = .ok .recreate
  owned : host.ownerRead = true ∧ (repo.worktrees lifecycle.worktreePath).any (·.owned) = true
  checkedOut : currentBranch host repo lifecycle.worktreePath = some lifecycle.branch
  updated : host.updateRef = .ok ()

/-- The branch cannot be deleted, and the HEAD of the worktree is put back. -/
structure Restores (repo : Repo φ) : Prop where
  found : branchExists host.branchRead repo lifecycle.branch = true
  refused : host.branchDelete ≠ .ok ()
  restored : host.symbolicRef = .ok ()
  named : (repo.worktrees lifecycle.worktreePath).map (·.head) = some (.branch lifecycle.branch)

/-- Everything after the HEAD is detached succeeds. -/
structure Completes (repo : Repo φ) : Prop where
  deleted : branchExists host.branchRead repo lifecycle.branch = true → host.branchDelete = .ok ()
  readable : (fromUtf8 lifecycle.worktreePath).isSome = true
  removed : host.worktreeRemove = .ok ()
  created : Creates host frontend lifecycle lifecycle.creationPath

variable {choice : ExistingWorktreeChoice} {repo : Repo φ}

/-- A preparation that does not come to detach the worktree leaves it as it is when it fails. -/
theorem prepareWithExisting_undetached (hdetaches : ¬ Detaches host frontend lifecycle choice repo)
    (hexists : (repo.worktrees lifecycle.worktreePath).isSome = true) :
    ((prepareWithExisting host frontend lifecycle choice).on repo).2 = repo := by
  unfold prepareWithExisting
  simp only [on_bind, on_get, hexists, if_true, on_ofExcept]
  cases hdecision : existingDecision frontend lifecycle choice with
  | error error => rfl
  | ok decision =>
    simp only
    by_cases howned : host.ownerRead = true ∧
        (repo.worktrees lifecycle.worktreePath).any (·.owned) = true
    · have hvalid := validateWorktreeOwner_ok host repo howned
      cases decision with
      | fail => rfl
      | resume => simp only [on_bind, on_ofEngine, hvalid, on_pure]
      | recreate =>
        have hrefused : ¬ (currentBranch host repo lifecycle.worktreePath = some lifecycle.branch ∧
            host.updateRef = .ok ()) := fun ⟨hchecked, hupdate⟩ =>
          hdetaches ⟨hdecision, howned, hchecked, hupdate⟩
        obtain ⟨error, hrun⟩ := deleteRecreatedBranchLogged_refused host repo hrefused
        simp only [on_bind, on_ofEngine, hvalid, hrun]
    · obtain ⟨error, hinvalid⟩ := validateWorktreeOwner_error host repo howned
      cases decision with
      | fail => rfl
      | resume | recreate => simp only [on_bind, on_ofEngine, hinvalid]

section

variable (hdetaches : Detaches host frontend lifecycle choice repo)
include hdetaches

/-- From the detached HEAD on, the preparation is what follows the check of the owner. -/
theorem prepareWithExisting_detached :
    (prepareWithExisting host frontend lifecycle choice).on repo =
      (do
        (deleteRecreatedBranchLogged host lifecycle.worktreePath lifecycle.branch).ofEngine
        (removeWorktreeLogged host lifecycle.worktreePath).ofEngine
        createFresh host frontend lifecycle lifecycle.creationPath).on repo := by
  have hexists : (repo.worktrees lifecycle.worktreePath).isSome = true := by
    have howned := hdetaches.owned.2
    cases hworktree : repo.worktrees lifecycle.worktreePath with
    | none => simp [hworktree] at howned
    | some existing => rfl
  have hvalid := validateWorktreeOwner_ok host repo hdetaches.owned
  simp only [prepareWithExisting, on_bind, on_get, hexists, if_true, on_ofExcept, hdetaches.recreate,
    on_ofEngine, hvalid]

/-- A preparation that completes returns the path of the new worktree. -/
theorem prepareWithExisting_completes (hcompletes : Completes host frontend lifecycle repo) :
    ∃ after, (prepareWithExisting host frontend lifecycle choice).on repo =
      (.ok lifecycle.creationPath, after) := by
  obtain ⟨deleted, hdelete, _⟩ := deleteRecreatedBranchLogged_ok host repo hdetaches.checkedOut
    hdetaches.updated (by rw [branchExists_detach]; exact hcompletes.deleted)
  have hremove := removeWorktreeLogged_ok host deleted hcompletes.readable hcompletes.removed
  obtain ⟨after, hcreate⟩ := createFresh_ok host frontend lifecycle
    (deleted.setWorktree lifecycle.worktreePath none) hcompletes.created
  refine ⟨after, ?_⟩
  rw [prepareWithExisting_detached host frontend lifecycle hdetaches]
  simp only [on_bind, on_ofEngine, hdelete, hremove, hcreate]

/-- A preparation that puts back the HEAD fails, and the worktree and the branches are as they were. -/
theorem prepareWithExisting_restores (hrestores : Restores host lifecycle repo) :
    KeepsExisting lifecycle repo ((prepareWithExisting host frontend lifecycle choice).on repo).2 := by
  obtain ⟨error, hdelete⟩ := deleteRecreatedBranchLogged_undone host repo hdetaches.checkedOut
    hdetaches.updated (by rw [branchExists_detach]; exact hrestores.found) hrestores.refused
  rw [prepareWithExisting_detached host frontend lifecycle hdetaches]
  simp only [on_bind, on_ofEngine, hdelete, if_pos hrestores.restored]
  intro existing hexisting
  refine ⟨?_, fun name _ => ?_⟩
  · rw [(detach_setHead host repo hdetaches.checkedOut).mpr hrestores.named, hexisting]
  · rw [branches_setHead, branches_detach]

/-- A preparation that neither puts back the HEAD nor completes fails, and the worktree is not as it was. -/
theorem prepareWithExisting_loses (hrestores : ¬ Restores host lifecycle repo)
    (hcompletes : ¬ Completes host frontend lifecycle repo) :
    ∃ error after, (prepareWithExisting host frontend lifecycle choice).on repo = (.error error, after) ∧
      after.worktrees lifecycle.worktreePath ≠ repo.worktrees lifecycle.worktreePath := by
  have hmoved := detach_head_ne host repo hdetaches.checkedOut
  rw [prepareWithExisting_detached host frontend lifecycle hdetaches]
  simp only [on_bind, on_ofEngine]
  by_cases hdeleted : branchExists host.branchRead repo lifecycle.branch = true →
      host.branchDelete = .ok ()
  · obtain ⟨deleted, hdelete, hworktrees⟩ := deleteRecreatedBranchLogged_ok host repo
      hdetaches.checkedOut hdetaches.updated (by rw [branchExists_detach]; exact hdeleted)
    simp only [hdelete]
    by_cases hremoved : (fromUtf8 lifecycle.worktreePath).isSome = true ∧ host.worktreeRemove = .ok ()
    · have hremove := removeWorktreeLogged_ok host deleted hremoved.1 hremoved.2
      have hcreates : ¬ Creates host frontend lifecycle lifecycle.creationPath := fun hcreates =>
        hcompletes ⟨hdeleted, hremoved.1, hremoved.2, hcreates⟩
      obtain ⟨error, after, hcreate, hafter⟩ := createFresh_error host frontend lifecycle
        (deleted.setWorktree lifecycle.worktreePath none) hcreates
      refine ⟨error, after, by simp only [hremove, hcreate], ?_⟩
      obtain ⟨existing, _, _, hexisting, _⟩ := worktrees_detach host repo hdetaches.checkedOut
      rw [hafter, hexisting]
      simp [Repo.setWorktree]
    · obtain ⟨error, after, hremove, hheads⟩ := removeWorktreeLogged_error host deleted hremoved
      refine ⟨.engine error, after, by simp only [hremove], fun hsame => hmoved ?_⟩
      rw [← hworktrees, ← hheads, hsame]
  · obtain ⟨hfound, hrefused⟩ := Classical.not_imp.mp hdeleted
    obtain ⟨error, hdelete⟩ := deleteRecreatedBranchLogged_undone host repo hdetaches.checkedOut
      hdetaches.updated (by rw [branchExists_detach]; exact hfound) hrefused
    simp only [hdelete]
    refine ⟨.engine error, _, rfl, ?_⟩
    by_cases hrestored : host.symbolicRef = .ok ()
    · rw [if_pos hrestored]
      intro hsame
      have hnamed := (detach_setHead host repo hdetaches.checkedOut).mp hsame
      exact hrestores ⟨hfound, hrefused, hrestored, hnamed⟩
    · rw [if_neg hrestored]
      intro hsame
      exact hmoved (congrArg (Option.map (·.head)) hsame)

end

/-- A host on which every command succeeds, with an untracked file in the main checkout. -/
def dirtyHost : Host ℕ where
  ownerRead := true
  headRead := true
  updateRef := .ok ()
  branchRead := true
  branchDelete := .ok ()
  symbolicRef := .ok ()
  worktreeRemove := .ok ()
  left := id
  -- `?? a`
  status := .ok [0x3F, 0x3F, 0x20, 0x61, 0x0A]
  add := .ok ()
  commit := .ok "c3"
  createDirAll := .ok ()
  branchReadAgain := true
  worktreeAdd := .ok 0
  branchMade := true

/-- The user recreates the worktree, and aborts at the uncommitted files. -/
def abortingFrontend : WorktreeLifecycleFrontend where
  askPreWorktreeUncommittedFiles _ _ := .ok .abort
  askExistingWorktree _ _ := .ok .recreate
  existingWorktreeAfterResume _ _ := .ok .resume

def workflowLifecycle : WorktreeLifecycle := ⟨[0x77], [0x77], "awman/workflow-w"⟩

/-- The worktree holds work that is on its branch only. -/
def workedRepo : Repo ℕ where
  worktrees := fun path => if path = [0x77] then some ⟨7, .branch "awman/workflow-w", true⟩ else none
  branches := fun name =>
    if name = "awman/workflow-w" then some "c2" else if name = "main" then some "c1" else none
  rootHead := .branch "main"

end Awman.Worktrees
