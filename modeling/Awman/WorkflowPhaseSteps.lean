import Awman.PromptTemplates
import Awman.WorkflowState

/-!
# Setup and teardown steps

The two shell phases accept different steps and share one runner.  `PhaseStepSpec` is what the
runner reads of a step: whether it publishes the run's work, whether the engine runs it itself, and
what is run again to bring a fix for failing CI to the remote.
-/

namespace Awman.Engine

open Awman.Prompt (WorkItemContext)

/-- Which of the two shell phases a step belongs to. -/
inductive PhaseKind where
  | setup
  | teardown
deriving DecidableEq, Repr

/-- The phase a run sits in while this phase runs. -/
def PhaseKind.workflowPhase : PhaseKind → WorkflowPhase
  | .setup => .setup
  | .teardown => .teardown

/-- The phase a run moves to once this phase completes. -/
def PhaseKind.nextWorkflowPhase : PhaseKind → WorkflowPhase
  | .setup => .main
  | .teardown => .done

/-- What a `clone_repo` step does when its target is already a clone of the same address. -/
inductive CloneConflictMode where
  | skip
  | replace
  | error
deriving DecidableEq, Repr

/-- The environment overrides of a step. -/
abbrev StepEnv :=
  Option (List (String × String))

/-- A setup step. -/
inductive SetupStep where
  | cloneRepo (url : String) (branch into : Option String) (conflictMode : CloneConflictMode)
  | checkoutCreateBranch (branch : String) (base : Option String)
  | pullBranch (remote branch : Option String)
  | runShell (command : String) (env : StepEnv)
  | runScript (path : String) (env : StepEnv)
  | pollCi (intervalSecs maxRetries : Option Nat)
deriving DecidableEq, Repr

/-- A teardown step. -/
inductive TeardownStep where
  | runShell (command : String) (env : StepEnv)
  | runScript (path : String)
  | commitChanges (message : String) (addAll : Bool)
  | createPullRequest (title body base : Option String)
  | pushBranch (remote branch : Option String)
  | pollCi (intervalSecs maxRetries : Option Nat)
deriving DecidableEq, Repr

/-- How templates are rendered for a work item. -/
structure PromptTemplates where
  render : String → Option WorkItemContext → String
  /-- The text of a section of a work item. -/
  extractSection : List Char → String → Option String

/-- The interval of a `poll_ci` step that names none. -/
def defaultPollCiIntervalSecs : Nat :=
  30

/-- The number of retries of a `poll_ci` step that names none. -/
def defaultPollCiMaxRetries : Nat :=
  10

/-- How many failed job names a CI fix commit message lists before it counts the rest. -/
def ciFixMessageMaxJobs : Nat :=
  5

/-- The commit message of a fix for failed CI jobs. -/
def ciFixCommitMessage (message : String) (failedJobs : List String) : String :=
  if failedJobs = [] then
    message ++ ": fix CI"
  else
    let names := ", ".intercalate (failedJobs.take ciFixMessageMaxJobs)
    let rest :=
      if ciFixMessageMaxJobs < failedJobs.length then
        " and " ++ toString (failedJobs.length - ciFixMessageMaxJobs) ++ " more"
      else ""
    let noun := if failedJobs.length = 1 then "job" else "jobs"
    message ++ ": fix CI " ++ noun ++ " " ++ names ++ rest

/-- A number with leading zeros up to four digits. -/
def fourDigits (number : Nat) : String :=
  let digits := toString number
  "".pushn '0' (4 - digits.length) ++ digits

/-- What the phase runner needs of a step. -/
class PhaseStepSpec (S : Type) where
  /-- The phase steps of this type belong to. -/
  kind : PhaseKind
  /-- Apply the work item to every text of the step. -/
  substitute : PromptTemplates → Option WorkItemContext → S → S
  /-- The step in one line. -/
  description : S → String
  /-- The interval and retries of a CI poll the engine runs itself. -/
  pollCi : S → Option (Nat × Nat)
  createsPullRequest : S → Bool
  publishes : S → Bool
  /-- Whether the step brings local work to the remote branch. -/
  republishesCiFix : S → Bool
  /-- The step as it is run again for failed jobs, if that differs from the step. -/
  forCiFix : List String → S → Option S
  setup_publishesNothing : kind = .setup → ∀ step, publishes step = false

/-- How a `poll_ci` step is described. -/
def pollCiDescription (intervalSecs maxRetries : Option Nat) : String :=
  "poll_ci: interval=" ++ toString (intervalSecs.getD defaultPollCiIntervalSecs) ++ "s, retries=" ++
    toString (maxRetries.getD defaultPollCiMaxRetries)

namespace SetupStep

/-- The step in one line. -/
def description : SetupStep → String
  | cloneRepo url _ _ _ => "clone_repo: " ++ url
  | checkoutCreateBranch branch _ => "checkout_create_branch: " ++ branch
  | pullBranch (some remote) (some branch) => "pull_branch: " ++ remote ++ " " ++ branch
  | pullBranch _ _ => "pull_branch"
  | runShell command _ => "run_shell: " ++ command
  | runScript path _ => "run_script: " ++ path
  | pollCi intervalSecs maxRetries => pollCiDescription intervalSecs maxRetries

/-- Apply the work item to every text of the step. -/
def substitute (templates : PromptTemplates) (context : Option WorkItemContext) :
    SetupStep → SetupStep
  | cloneRepo url branch into conflictMode =>
    cloneRepo (templates.render url context) (branch.map (templates.render · context))
      (into.map (templates.render · context)) conflictMode
  | checkoutCreateBranch branch base =>
    checkoutCreateBranch (templates.render branch context)
      (base.map (templates.render · context))
  | pullBranch remote branch =>
    pullBranch (remote.map (templates.render · context))
      (branch.map (templates.render · context))
  | runShell command env => runShell (templates.render command context) env
  | runScript path env => runScript (templates.render path context) env
  | pollCi intervalSecs maxRetries => pollCi intervalSecs maxRetries

instance : PhaseStepSpec SetupStep where
  kind := .setup
  substitute := substitute
  description := description
  pollCi
    | pollCi intervalSecs maxRetries => some (intervalSecs.getD defaultPollCiIntervalSecs,
        maxRetries.getD defaultPollCiMaxRetries)
    | _ => none
  createsPullRequest _ := false
  publishes _ := false
  republishesCiFix _ := false
  forCiFix _ _ := none
  setup_publishesNothing _ _ := rfl

end SetupStep

namespace TeardownStep

/-- The step in one line. -/
def description : TeardownStep → String
  | runShell command _ => "run_shell: " ++ command
  | runScript path => "run_script: " ++ path
  | commitChanges message _ => "commit_changes: " ++ message
  | createPullRequest (some title) _ _ => "create_pull_request: " ++ title
  | createPullRequest none _ _ => "create_pull_request"
  | pushBranch (some remote) (some branch) => "push_branch: " ++ remote ++ " " ++ branch
  | pushBranch _ _ => "push_branch"
  | pollCi intervalSecs maxRetries => pollCiDescription intervalSecs maxRetries

/-- Apply the work item to every text of the step.  A pull request that names no title or body
takes them from the work item. -/
def substitute (templates : PromptTemplates) (context : Option WorkItemContext) :
    TeardownStep → TeardownStep
  | runShell command env => runShell (templates.render command context) env
  | runScript path => runScript (templates.render path context)
  | commitChanges message addAll => commitChanges (templates.render message context) addAll
  | createPullRequest title body base =>
    let title :=
      match title with
      | some title => some (templates.render title context)
      | none => context.map fun item => "Implement awman/work-item-" ++ fourDigits item.number.toNat
    let body :=
      match body with
      | some body => some (templates.render body context)
      | none => context.bind fun item => templates.extractSection item.content "Summary"
    createPullRequest title body (base.map (templates.render · context))
  | pushBranch remote branch =>
    pushBranch (remote.map (templates.render · context))
      (branch.map (templates.render · context))
  | pollCi intervalSecs maxRetries => pollCi intervalSecs maxRetries

/-- Whether a teardown step still runs after a cancel: nothing that publishes the cancelled work
does, local cleanup does. -/
def runsWhenCancelled : TeardownStep → Bool
  | pushBranch _ _ | createPullRequest _ _ _ | pollCi _ _ => false
  | runShell _ _ | runScript _ | commitChanges _ _ => true

instance : PhaseStepSpec TeardownStep where
  kind := .teardown
  substitute := substitute
  description := description
  pollCi
    | pollCi intervalSecs maxRetries => some (intervalSecs.getD defaultPollCiIntervalSecs,
        maxRetries.getD defaultPollCiMaxRetries)
    | _ => none
  createsPullRequest
    | createPullRequest _ _ _ => true
    | _ => false
  publishes step := !step.runsWhenCancelled
  republishesCiFix
    | commitChanges _ _ | pushBranch _ _ => true
    | _ => false
  forCiFix failedJobs
    | commitChanges message addAll =>
      some (commitChanges (ciFixCommitMessage message failedJobs) addAll)
    | _ => none
  setup_publishesNothing hkind := by cases hkind

end TeardownStep

end Awman.Engine
