import Awman.Library.ShellWords
import Awman.Library.TextCuts
import Awman.WorkflowPhaseSteps
import Mathlib.Data.List.DropRight

/-!
# The shell commands of setup and teardown steps

`setupStepToShellWith` and `teardownStepToShellWith` give the command text a step runs and the
environment it overrides.  `poll_ci` steps are run by the engine itself and have no command.
-/

namespace Awman.Engine

open Awman.ShellWords

/-- How a step that talks to a remote authenticates. -/
inductive PushAuth where
  | none
  | ssh (keyPath : String) (knownHosts : Option String)
  | httpsToken (envVar : String)
  deriving DecidableEq, Repr

/-- What the run decided for the command of a step. -/
structure StepCommandOptions where
  /-- How the step authenticates. -/
  pushAuth : PushAuth
  /-- The address used in place of the one the step names. -/
  remoteUrl : Option String
  deriving DecidableEq, Repr

/-- No authentication, and the addresses the steps name. -/
instance : Inhabited StepCommandOptions := ⟨⟨.none, none⟩⟩

/-- Quote a text as a single shell word. -/
def shQuote (text : String) : String := String.ofList (quoted text.toList)

/-- A clause that is left out when its field is absent. -/
def clause (text : String) (field : Option String) : String :=
  match field with
  | some value => text ++ shQuote value
  | none => ""

/-! ## Transport -/

/-- The host and the path of an address the token is sent to. -/
def httpsDestination (remoteUrl : Option String) : String × String :=
  let destination := (remoteUrl.getD "").toList
  let rest :=
    if "https://".toList.isPrefixOf destination then destination.drop 8 else []
  let (host, path) := (TextCuts.splitOnce '/' rest).getD ([], [])
  (String.ofList host, String.ofList path)

/-- The text with every backslash and double quote in a row replaced by the double quote. -/
def unescapeQuotes : List Char → List Char
  | '\\' :: '"' :: rest => '"' :: unescapeQuotes rest
  | character :: rest => character :: unescapeQuotes rest
  | [] => []

/-- The git configuration that answers for the approved destination only. -/
def credentialHelper (envVar : String) (remoteUrl : Option String) : String :=
  let (host, path) := httpsDestination remoteUrl
  let helper :=
    "credential.helper=!f() \x7b protocol=; host=; path=; while IFS='=' read -r k v; do case \\\"$k\\\" " ++
      "in protocol) protocol=$v;; host) host=$v;; path) path=$v;; esac; done; if [ \\\"$1\\\" = get ] " ++
      "&& [ \\\"$protocol\\\" = https ] && [ \\\"$host\\\" = " ++ shQuote host ++
      " ] && [ \\\"$path\\\" = " ++ shQuote path ++
      " ]; then printf '%s\\n' 'username=x-access-token' \\\"password=$" ++ envVar ++ "\\\"; fi; \x7d; f"
  String.ofList (unescapeQuotes helper.toList)

/-- The git program without hooks, helpers and signing of the checkout. -/
def controlledGit : String :=
  "git -c core.hooksPath=/dev/null -c core.fsmonitor=false -c maintenance.auto=false " ++
    "-c gc.auto=0 -c push.gpgSign=false -c push.recurseSubmodules=no -c credential.helper="

/-- The git program with the configuration it runs under. -/
def transportGit (opts : StepCommandOptions) : String :=
  if opts.pushAuth = .none ∧ opts.remoteUrl = none then "git"
  else
    match opts.pushAuth with
    | .httpsToken envVar =>
      controlledGit ++ " -c credential.useHttpPath=true -c " ++
        shQuote (credentialHelper envVar opts.remoteUrl)
    | _ => controlledGit

/-- The command git reaches a remote over SSH with. -/
def sshCommand (opts : StepCommandOptions) : String :=
  if opts.pushAuth = .none ∧ opts.remoteUrl = none then "ssh -o StrictHostKeyChecking=accept-new"
  else
    match opts.pushAuth with
    | .ssh keyPath knownHosts =>
      "ssh -F /dev/null -i " ++ shQuote keyPath ++
        " -o IdentitiesOnly=yes -o BatchMode=yes -o StrictHostKeyChecking=accept-new" ++
        clause " -o UserKnownHostsFile=" knownHosts
    | _ => "ssh -F /dev/null -o BatchMode=yes -o StrictHostKeyChecking=accept-new"

/-- The environment of a command that talks to a remote. -/
def transportEnv (opts : StepCommandOptions) : StepEnv :=
  if opts.pushAuth = .none ∧ opts.remoteUrl = none then
    some [("GIT_SSH_COMMAND", sshCommand opts)]
  else some [("GIT_TERMINAL_PROMPT", "0"), ("GIT_SSH_COMMAND", sshCommand opts)]

/-! ## Setup steps -/

/-- The directory a `clone_repo` step clones into. -/
def cloneTargetDir (url : String) (into : Option String) : String :=
  match into with
  | some dir => dir
  | none =>
    let trimmed := url.toList.rdropWhile (· == '/')
    let name := trimmed.rtakeWhile (fun character => character != '/' && character != ':')
    if ".git".toList.isSuffixOf name then String.ofList (name.rdrop 4) else String.ofList name

/-- The clone itself. -/
def cloneCommand (opts : StepCommandOptions) (url : String) (branch into : Option String) : String :=
  transportGit opts ++ " clone" ++ clause " -b " branch ++ " " ++
    (if opts.remoteUrl.isSome then "-- " else "") ++ shQuote (opts.remoteUrl.getD url) ++
    clause " " into

/-- The test for a directory that is already a clone of the address. -/
def alreadyCloned (dir url : String) : String :=
  "[ -f " ++ shQuote (dir ++ "/.git/config") ++ " ] && [ \"$(git -C " ++ shQuote dir ++
    " config --get remote.origin.url)\" = " ++ shQuote url ++ " ]"

/-- The command of a `clone_repo` step. -/
def cloneRepoCommand (opts : StepCommandOptions) (url : String) (branch into : Option String)
    (conflictMode : CloneConflictMode) : String :=
  let clone := cloneCommand opts url branch into
  let dir := cloneTargetDir url into
  match conflictMode with
  | .skip =>
    "if " ++ alreadyCloned dir url ++ "; then echo " ++
      shQuote ("clone_repo: " ++ dir ++ " already cloned from " ++ url ++ "; skipping") ++
      "; else " ++ clone ++ "; fi"
  | .replace =>
    "if " ++ alreadyCloned dir url ++ "; then echo " ++
      shQuote ("clone_repo: " ++ dir ++ " already cloned from " ++ url ++ "; replacing") ++
      "; rm -rf " ++ shQuote dir ++ "; fi; " ++ clone
  | .error =>
    "if " ++ alreadyCloned dir url ++ "; then echo " ++
      shQuote ("clone_repo: " ++ dir ++ " already cloned from " ++ url ++
        " (conflict_mode = error)") ++
      " >&2; exit 1; else " ++ clone ++ "; fi"

/-- The command of a `checkout_create_branch` step. -/
def checkoutCreateBranchCommand (branch : String) (base : Option String) : String :=
  "git fetch origin 2>/dev/null; git checkout " ++ shQuote branch ++
    " 2>/dev/null || git checkout -b " ++ shQuote branch ++ clause " " base

/-- The command of a `pull_branch` step. -/
def pullBranchCommand (opts : StepCommandOptions) (remote branch : Option String) : String :=
  if opts = default then
    match remote, branch with
    | some remote, some branch => "git pull " ++ shQuote remote ++ " " ++ shQuote branch
    | _, _ => "git pull"
  else
    match opts.remoteUrl.or remote, branch with
    | some remote, some branch =>
      transportGit opts ++ " pull -- " ++ shQuote remote ++ " " ++ shQuote branch
    | some remote, none => transportGit opts ++ " pull -- " ++ shQuote remote
    | none, _ => transportGit opts ++ " pull"

/-- The command of a `run_script` step. -/
def runScriptCommand (path : String) : String := "sh " ++ shQuote path

/-- The command and environment of a setup step. -/
def setupStepToShellWith (step : SetupStep) (opts : StepCommandOptions) :
    Option (String × StepEnv) :=
  match step with
  | .cloneRepo url branch into conflictMode =>
    some (cloneRepoCommand opts url branch into conflictMode,
      if opts = default then none else transportEnv opts)
  | .checkoutCreateBranch branch base => some (checkoutCreateBranchCommand branch base, none)
  | .pullBranch remote branch =>
    some (pullBranchCommand opts remote branch, if opts = default then none else transportEnv opts)
  | .runShell command env => some (command, env)
  | .runScript path env => some (runScriptCommand path, env)
  | .pollCi .. => none

/-! ## Teardown steps -/

/-- The command of a `commit_changes` step. -/
def commitChangesCommand (message : String) (addAll : Bool) : String :=
  let commit := "if git diff --cached --quiet; then echo 'commit_changes: nothing to commit'; " ++
    "else git commit -m " ++ shQuote message ++ "; fi"
  if addAll then "git add -A -- . && " ++ commit else commit

/-- The command of a `create_pull_request` step. -/
def createPullRequestCommand (opts : StepCommandOptions) (title body base : Option String) : String :=
  "gh pr create --title " ++ shQuote (title.getD "Automated PR") ++ " --body " ++
    shQuote (body.getD "") ++
    (if opts.remoteUrl.isSome then " --head \"$(git symbolic-ref --short HEAD)\"" else "") ++
    clause " --base " base

/-- Whether a `push_branch` step names something else than a branch. -/
def notABranch (branch : String) : Bool :=
  branch.toList.head? == some '-' || branch.toList.head? == some '+' || branch.toList.contains ':'

/-- The remote of a `push_branch` step. -/
def pushRemote (opts : StepCommandOptions) (remote : Option String) : String :=
  (opts.remoteUrl.or remote).getD "origin"

/-- The command of a `push_branch` step that names a branch. -/
def pushBranchCommand (opts : StepCommandOptions) (remote branch : Option String) : String :=
  transportGit opts ++ " push -u -- " ++ shQuote (pushRemote opts remote) ++ " " ++
    shQuote (branch.getD "HEAD")

/-- What a `push_branch` step that names something else runs. -/
def pushBranchRefusal : String :=
  "printf '%s\\n' 'push_branch requires a branch name, not options or a refspec' >&2; exit 2"

/-- The command and environment of a teardown step. -/
def teardownStepToShellWith (step : TeardownStep) (opts : StepCommandOptions) :
    Option (String × StepEnv) :=
  match step with
  | .runShell command env => some (command, env)
  | .runScript path => some (runScriptCommand path, none)
  | .commitChanges message addAll => some (commitChangesCommand message addAll, none)
  | .createPullRequest title body base =>
    some (createPullRequestCommand opts title body base, none)
  | .pushBranch remote branch =>
    if notABranch (branch.getD "HEAD") then some (pushBranchRefusal, none)
    else some (pushBranchCommand opts remote branch, transportEnv opts)
  | .pollCi .. => none

example : (teardownStepToShellWith (.pushBranch none (some "feature/x")) default).map Prod.fst =
    some "git push -u -- 'origin' 'feature/x'" := by decide

end Awman.Engine
