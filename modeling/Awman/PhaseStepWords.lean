import Awman.Library.CommandOptions
import Awman.PhaseStepCommands

/-!
# What the shell reads in a step's command

For each kind of step the words and operators its command is read as are a fixed list with the
fields of the step at fixed places, each as one literal word.  The proofs follow the text of the
command from word to word.
-/

namespace Awman.Engine

open Awman.ShellWords

/-! ## The words of the commands -/

/-- Words without quotes and expansions. -/
def bareWords (words : List String) : List Token := words.map bare

/-- A word that is exactly this text. -/
def literalWord (text : String) : Token := literal text.toList

/-- An operator. -/
def operatorToken (symbol : String) : Token := .operator symbol.toList

/-- The output of a command between double quotes. -/
def outputOf (tokens : List Token) : Token := .word [.substitution tokens true]

/-- The words of a clause that is left out when its field is absent. -/
def clauseTokens (words : List Token) (field : Option String) : List Token :=
  match field with
  | some value => words ++ [literalWord value]
  | none => []

/-- The git program with the configuration it runs under. -/
def transportTokens (opts : StepCommandOptions) : List Token :=
  if opts.pushAuth = .none ∧ opts.remoteUrl = none then [bare "git"]
  else
    bareWords ["git", "-c", "core.hooksPath=/dev/null", "-c", "core.fsmonitor=false", "-c",
      "maintenance.auto=false", "-c", "gc.auto=0", "-c", "push.gpgSign=false", "-c",
      "push.recurseSubmodules=no", "-c", "credential.helper="] ++
    match opts.pushAuth with
    | .httpsToken envVar =>
      bareWords ["-c", "credential.useHttpPath=true", "-c"] ++
        [literalWord (credentialHelper envVar opts.remoteUrl)]
    | _ => []

/-- The clone of a `clone_repo` step. -/
def cloneTokens (opts : StepCommandOptions) (url : String) (branch into : Option String) :
    List Token :=
  transportTokens opts ++ [bare "clone"] ++ clauseTokens [bare "-b"] branch ++
    (if opts.remoteUrl.isSome then [bare "--"] else []) ++
    [literalWord (opts.remoteUrl.getD url)] ++ clauseTokens [] into

/-- The test for a directory that is already a clone of the address. -/
def alreadyClonedTokens (dir url : String) : List Token :=
  [bare "[", bare "-f", literalWord (dir ++ "/.git/config"), bare "]", operatorToken "&&", bare "[",
    outputOf ([bare "git", bare "-C", literalWord dir] ++
      bareWords ["config", "--get", "remote.origin.url"]),
    bare "=", literalWord url, bare "]"]

/-- A `clone_repo` step. -/
def cloneRepoTokens (opts : StepCommandOptions) (url : String) (branch into : Option String)
    (conflictMode : CloneConflictMode) : List Token :=
  let clone := cloneTokens opts url branch into
  let dir := cloneTargetDir url into
  bare "if" :: alreadyClonedTokens dir url ++
  match conflictMode with
  | .skip =>
    [operatorToken ";", bare "then", bare "echo",
      literalWord ("clone_repo: " ++ dir ++ " already cloned from " ++ url ++ "; skipping"),
      operatorToken ";", bare "else"] ++ clone ++ [operatorToken ";", bare "fi"]
  | .replace =>
    [operatorToken ";", bare "then", bare "echo",
      literalWord ("clone_repo: " ++ dir ++ " already cloned from " ++ url ++ "; replacing"),
      operatorToken ";", bare "rm", bare "-rf", literalWord dir, operatorToken ";", bare "fi",
      operatorToken ";"] ++ clone
  | .error =>
    [operatorToken ";", bare "then", bare "echo",
      literalWord ("clone_repo: " ++ dir ++ " already cloned from " ++ url ++
        " (conflict_mode = error)"),
      operatorToken ">&", bare "2", operatorToken ";", bare "exit", bare "1", operatorToken ";",
      bare "else"] ++ clone ++ [operatorToken ";", bare "fi"]

/-- Errors of a command are dropped. -/
def quietly : List Token := [.ioNumber ['2'], operatorToken ">", bare "/dev/null"]

/-- A `checkout_create_branch` step. -/
def checkoutCreateBranchTokens (branch : String) (base : Option String) : List Token :=
  bareWords ["git", "fetch", "origin"] ++ quietly ++ [operatorToken ";"] ++
    bareWords ["git", "checkout"] ++ [literalWord branch] ++ quietly ++ [operatorToken "||"] ++
    bareWords ["git", "checkout", "-b"] ++ [literalWord branch] ++ clauseTokens [] base

/-- A `pull_branch` step. -/
def pullBranchTokens (opts : StepCommandOptions) (remote branch : Option String) : List Token :=
  if opts = default then
    match remote, branch with
    | some remote, some branch =>
      bareWords ["git", "pull"] ++ [literalWord remote, literalWord branch]
    | _, _ => bareWords ["git", "pull"]
  else
    match opts.remoteUrl.or remote, branch with
    | some remote, some branch =>
      transportTokens opts ++ bareWords ["pull", "--"] ++ [literalWord remote, literalWord branch]
    | some remote, none =>
      transportTokens opts ++ bareWords ["pull", "--"] ++ [literalWord remote]
    | none, _ => transportTokens opts ++ [bare "pull"]

/-- A `run_script` step. -/
def runScriptTokens (path : String) : List Token := [bare "sh", literalWord path]

/-- The words of a setup step; `run_shell` brings its own command and `poll_ci` has none. -/
def setupStepTokens (step : SetupStep) (opts : StepCommandOptions) : Option (List Token) :=
  match step with
  | .cloneRepo url branch into conflictMode =>
    some (cloneRepoTokens opts url branch into conflictMode)
  | .checkoutCreateBranch branch base => some (checkoutCreateBranchTokens branch base)
  | .pullBranch remote branch => some (pullBranchTokens opts remote branch)
  | .runScript path _ => some (runScriptTokens path)
  | .runShell .. => none
  | .pollCi .. => none

/-- A `commit_changes` step. -/
def commitChangesTokens (message : String) (addAll : Bool) : List Token :=
  (if addAll then bareWords ["git", "add", "-A", "--", "."] ++ [operatorToken "&&"] else []) ++
    bareWords ["if", "git", "diff", "--cached", "--quiet"] ++ [operatorToken ";"] ++
    [bare "then", bare "echo", literalWord "commit_changes: nothing to commit", operatorToken ";"] ++
    bareWords ["else", "git", "commit", "-m"] ++ [literalWord message, operatorToken ";", bare "fi"]

/-- A `create_pull_request` step. -/
def createPullRequestTokens (opts : StepCommandOptions) (title body base : Option String) :
    List Token :=
  bareWords ["gh", "pr", "create", "--title"] ++ [literalWord (title.getD "Automated PR")] ++
    [bare "--body", literalWord (body.getD "")] ++
    (if opts.remoteUrl.isSome then
      [bare "--head", outputOf (bareWords ["git", "symbolic-ref", "--short", "HEAD"])]
     else []) ++
    clauseTokens [bare "--base"] base

/-- A `push_branch` step. -/
def pushBranchTokens (opts : StepCommandOptions) (remote branch : Option String) : List Token :=
  if notABranch (branch.getD "HEAD") then
    [bare "printf", literalWord "%s\\n",
      literalWord "push_branch requires a branch name, not options or a refspec",
      operatorToken ">&", bare "2", operatorToken ";", bare "exit", bare "2"]
  else
    transportTokens opts ++ bareWords ["push", "-u", "--"] ++
      [literalWord (pushRemote opts remote), literalWord (branch.getD "HEAD")]

/-- The words of a teardown step; `run_shell` brings its own command and `poll_ci` has none. -/
def teardownStepTokens (step : TeardownStep) (opts : StepCommandOptions) : Option (List Token) :=
  match step with
  | .runScript path => some (runScriptTokens path)
  | .commitChanges message addAll => some (commitChangesTokens message addAll)
  | .createPullRequest title body base => some (createPullRequestTokens opts title body base)
  | .pushBranch remote branch => some (pushBranchTokens opts remote branch)
  | .runShell .. => none
  | .pollCi .. => none

/-! ## Reading the commands -/

@[simp] theorem shQuote_toList (text : String) : (shQuote text).toList = quoted text.toList :=
  String.toList_ofList

/-- A quoted value is read as one word. -/
theorem reads_shQuote (text : String) : Reads (shQuote text).toList [literalWord text] := by
  rw [shQuote_toList]
  exact Reads.quoted text.toList

/-- A clause without an option adds its field as a word. -/
theorem reads_clause_operand {text : List Char} {tokens : List Token} (htext : Reads text tokens)
    (field : Option String) :
    Reads (text ++ (clause " " field).toList) (tokens ++ clauseTokens [] field) := by
  cases field with
  | none => simpa [clause, clauseTokens] using htext
  | some value => simpa [clause, clauseTokens] using htext.blank (reads_shQuote value)

/-- A clause with an option adds the option and its field as words. -/
theorem reads_clause {text : List Char} {tokens words : List Token} {option : String}
    (htext : Reads text tokens) (hoption : Reads option.toList words) (field : Option String) :
    Reads (text ++ (clause (" " ++ option ++ " ") field).toList)
      (tokens ++ clauseTokens words field) := by
  cases field with
  | none => simpa [clause, clauseTokens] using htext
  | some value =>
    simpa [clause, clauseTokens] using (htext.blank hoption).blank (reads_shQuote value)

/-- The words in front of the credential configuration. -/
theorem reads_controlledGit :
    Reads controlledGit.toList
      (bareWords ["git", "-c", "core.hooksPath=/dev/null", "-c", "core.fsmonitor=false", "-c",
        "maintenance.auto=false", "-c", "gc.auto=0", "-c", "push.gpgSign=false", "-c",
        "push.recurseSubmodules=no", "-c", "credential.helper="]) := by
  have hhooks : Reads
      "git -c core.hooksPath=/dev/null -c core.fsmonitor=false -c maintenance.auto=false".toList
      (bareWords ["git", "-c", "core.hooksPath=/dev/null", "-c", "core.fsmonitor=false", "-c",
        "maintenance.auto=false"]) := Reads.phrase (by repeat constructor) (by decide)
  have hsigning : Reads
      "-c gc.auto=0 -c push.gpgSign=false -c push.recurseSubmodules=no -c credential.helper=".toList
      (bareWords ["-c", "gc.auto=0", "-c", "push.gpgSign=false", "-c", "push.recurseSubmodules=no",
        "-c", "credential.helper="]) := Reads.phrase (by repeat constructor) (by decide)
  have hfront :
      "git -c core.hooksPath=/dev/null -c core.fsmonitor=false -c maintenance.auto=false ".toList =
        "git -c core.hooksPath=/dev/null -c core.fsmonitor=false -c maintenance.auto=false".toList ++
          [' '] := by
    rw [String.toList_ofList, String.toList_ofList]
    decide
  have htext := hhooks.blank hsigning
  rw [List.append_cons, ← hfront, ← String.toList_append] at htext
  exact htext

theorem reads_transportGit (opts : StepCommandOptions) :
    Reads (transportGit opts).toList (transportTokens opts) := by
  unfold transportGit transportTokens
  split
  · exact Reads.spelledWord (by decide)
  · cases opts.pushAuth with
    | none | ssh => simpa using reads_controlledGit
    | httpsToken envVar =>
      have hpath : Reads "-c credential.useHttpPath=true -c".toList
          (bareWords ["-c", "credential.useHttpPath=true", "-c"]) :=
        Reads.phrase (by repeat constructor) (by decide)
      have hreads := reads_controlledGit.blank
        (hpath.blank (reads_shQuote (credentialHelper envVar opts.remoteUrl)))
      simpa using hreads

/-- The clone command reads as its program and operands. -/
theorem reads_clone (opts : StepCommandOptions) (url : String) (branch into : Option String) :
    Reads (cloneCommand opts url branch into).toList (cloneTokens opts url branch into) := by
  have hclone : Reads "clone".toList [bare "clone"] := Reads.spelledWord (by decide)
  have hbranch : Reads "-b".toList [bare "-b"] := Reads.spelledWord (by decide)
  have hend : Reads "--".toList [bare "--"] := Reads.spelledWord (by decide)
  have hurl := reads_shQuote (opts.remoteUrl.getD url)
  have hgit := (reads_transportGit opts).blank hclone
  have hfront := reads_clause hgit hbranch branch
  have hoperands := reads_clause_operand hurl into
  unfold cloneCommand cloneTokens
  split
  · simpa using hfront.blank (hend.blank hoperands)
  · simpa using hfront.blank hoperands

/-- The test for an earlier clone reads as written. -/
theorem reads_alreadyCloned (dir url : String) :
    Reads (alreadyCloned dir url).toList (alreadyClonedTokens dir url) := by
  have htest : Reads "[ -f".toList (bareWords ["[", "-f"]) := Reads.phrase (by repeat constructor) (by decide)
  have hclose : Reads "]".toList [bare "]"] := Reads.spelledWord (by decide)
  have hand : Reads "&&".toList [operatorToken "&&"] := fun _ _ => ⟨_, _, rfl, rfl⟩
  have hopen : Reads "[".toList [bare "["] := Reads.spelledWord (by decide)
  have hgit : Reads "git -C".toList (bareWords ["git", "-C"]) :=
    Reads.phrase (by repeat constructor) (by decide)
  have hconfig : Reads "config --get remote.origin.url".toList
      (bareWords ["config", "--get", "remote.origin.url"]) := Reads.phrase (by repeat constructor) (by decide)
  have hequal : Reads "=".toList [bare "="] := Reads.spelledWord (by decide)
  have horigin := (hgit.blank ((reads_shQuote dir).blank hconfig)).substitution
  have hexists := htest.blank ((reads_shQuote (dir ++ "/.git/config")).blank hclose)
  have hsame := hopen.blank (horigin.blank (hequal.blank ((reads_shQuote url).blank hclose)))
  have hreads := hexists.blank (hand.blank hsame)
  unfold alreadyCloned alreadyClonedTokens
  simpa [outputOf, bareWords] using hreads

theorem reads_cloneRepo (opts : StepCommandOptions) (url : String) (branch into : Option String)
    (conflictMode : CloneConflictMode) :
    Reads (cloneRepoCommand opts url branch into conflictMode).toList
      (cloneRepoTokens opts url branch into conflictMode) := by
  have hif : Reads "if".toList [bare "if"] := Reads.spelledWord (by decide)
  have hthen : Reads "then echo".toList (bareWords ["then", "echo"]) :=
    Reads.phrase (by repeat constructor) (by decide)
  have helse : Reads "else".toList [bare "else"] := Reads.spelledWord (by decide)
  have hfi : Reads "fi".toList [bare "fi"] := Reads.spelledWord (by decide)
  have hremove : Reads "rm -rf".toList (bareWords ["rm", "-rf"]) :=
    Reads.phrase (by repeat constructor) (by decide)
  have hstderr : Reads ">&2".toList [operatorToken ">&", bare "2"] :=
    fun _ _ => ⟨_, _, rfl, rfl⟩
  have hexit : Reads "exit 1".toList (bareWords ["exit", "1"]) :=
    Reads.phrase (by repeat constructor) (by decide)
  have htest := hif.blank (reads_alreadyCloned (cloneTargetDir url into) url)
  have hclone := reads_clone opts url branch into
  cases conflictMode with
  | skip =>
    have hreads := htest.semicolon ((hthen.blank (reads_shQuote ("clone_repo: " ++
      cloneTargetDir url into ++ " already cloned from " ++ url ++ "; skipping"))).semicolon
      ((helse.blank hclone).semicolon hfi))
    unfold cloneRepoCommand cloneRepoTokens
    simpa [operatorToken, bareWords] using hreads
  | replace =>
    have hreads := htest.semicolon ((hthen.blank (reads_shQuote ("clone_repo: " ++
      cloneTargetDir url into ++ " already cloned from " ++ url ++ "; replacing"))).semicolon
      ((hremove.blank (reads_shQuote (cloneTargetDir url into))).semicolon
        (hfi.semicolon hclone)))
    unfold cloneRepoCommand cloneRepoTokens
    simpa [operatorToken, bareWords] using hreads
  | error =>
    have hreads := htest.semicolon (((hthen.blank (reads_shQuote ("clone_repo: " ++
      cloneTargetDir url into ++ " already cloned from " ++ url ++
      " (conflict_mode = error)"))).blank hstderr).semicolon
      (hexit.semicolon ((helse.blank hclone).semicolon hfi)))
    unfold cloneRepoCommand cloneRepoTokens
    simpa [operatorToken, bareWords] using hreads

theorem reads_quietly : Reads "2>/dev/null".toList quietly := by
  have hfile : isBareWord "/dev/null" = true := by decide
  simpa [quietly, operatorToken] using Reads.redirectErrors hfile

theorem reads_checkoutCreateBranch (branch : String) (base : Option String) :
    Reads (checkoutCreateBranchCommand branch base).toList
      (checkoutCreateBranchTokens branch base) := by
  have hfetch : Reads "git fetch origin".toList (bareWords ["git", "fetch", "origin"]) :=
    Reads.phrase (by repeat constructor) (by decide)
  have hcheckout : Reads "git checkout".toList (bareWords ["git", "checkout"]) :=
    Reads.phrase (by repeat constructor) (by decide)
  have hor : Reads "||".toList [operatorToken "||"] := fun _ _ => ⟨_, _, rfl, rfl⟩
  have hcreate : Reads "git checkout -b".toList (bareWords ["git", "checkout", "-b"]) :=
    Reads.phrase (by repeat constructor) (by decide)
  have hbranch := reads_shQuote branch
  have hfirst := (hfetch.blank reads_quietly).semicolon
    (hcheckout.blank (hbranch.blank reads_quietly))
  have hreads := reads_clause_operand (hfirst.blank (hor.blank (hcreate.blank hbranch))) base
  unfold checkoutCreateBranchCommand checkoutCreateBranchTokens
  simpa [operatorToken] using hreads

theorem reads_pullBranch (opts : StepCommandOptions) (remote branch : Option String) :
    Reads (pullBranchCommand opts remote branch).toList (pullBranchTokens opts remote branch) := by
  have hplain : Reads "git pull".toList (bareWords ["git", "pull"]) :=
    Reads.phrase (by repeat constructor) (by decide)
  have hpull : Reads "pull".toList [bare "pull"] := Reads.spelledWord (by decide)
  have hend : Reads "pull --".toList (bareWords ["pull", "--"]) :=
    Reads.phrase (by repeat constructor) (by decide)
  have hgit := reads_transportGit opts
  unfold pullBranchCommand pullBranchTokens
  split
  · cases remote with
    | none => simpa using hplain
    | some remote =>
      cases branch with
      | none => simpa using hplain
      | some branch =>
        simpa using hplain.blank ((reads_shQuote remote).blank (reads_shQuote branch))
  · cases opts.remoteUrl.or remote with
    | none => simpa using hgit.blank hpull
    | some remote =>
      have hremote := (hgit.blank hend).blank (reads_shQuote remote)
      cases branch with
      | none => simpa using hremote
      | some branch => simpa using hremote.blank (reads_shQuote branch)

/-- The script command reads as one path operand. -/
theorem reads_runScript (path : String) :
    Reads (runScriptCommand path).toList (runScriptTokens path) := by
  have hsh : Reads "sh".toList [bare "sh"] := Reads.spelledWord (by decide)
  unfold runScriptCommand runScriptTokens
  simpa using hsh.blank (reads_shQuote path)

/-- The message is one word of the commit command. -/
theorem reads_commitChanges (message : String) (addAll : Bool) :
    Reads (commitChangesCommand message addAll).toList (commitChangesTokens message addAll) := by
  have hadd : Reads "git add -A -- .".toList (bareWords ["git", "add", "-A", "--", "."]) :=
    Reads.phrase (by repeat constructor) (by decide)
  have hand : Reads "&&".toList [operatorToken "&&"] := fun _ _ => ⟨_, _, rfl, rfl⟩
  have hdiff : Reads "if git diff --cached --quiet".toList
      (bareWords ["if", "git", "diff", "--cached", "--quiet"]) :=
      Reads.phrase (by repeat constructor) (by decide)
  have hthen : Reads "then echo".toList (bareWords ["then", "echo"]) :=
    Reads.phrase (by repeat constructor) (by decide)
  have hclean := Reads.quoted "commit_changes: nothing to commit".toList
  have helse : Reads "else git commit -m".toList (bareWords ["else", "git", "commit", "-m"]) :=
    Reads.phrase (by repeat constructor) (by decide)
  have hfi : Reads "fi".toList [bare "fi"] := Reads.spelledWord (by decide)
  have hcommit := hdiff.semicolon ((hthen.blank hclean).semicolon
    ((helse.blank (reads_shQuote message)).semicolon hfi))
  cases addAll with
  | false =>
    unfold commitChangesCommand commitChangesTokens
    simpa [operatorToken, bareWords, literalWord,
      quoted, quotedChar] using hcommit
  | true =>
    unfold commitChangesCommand commitChangesTokens
    simpa [operatorToken, bareWords, literalWord,
      quoted, quotedChar] using hadd.blank (hand.blank hcommit)

theorem reads_createPullRequest (opts : StepCommandOptions) (title body base : Option String) :
    Reads (createPullRequestCommand opts title body base).toList
      (createPullRequestTokens opts title body base) := by
  have hcreate : Reads "gh pr create --title".toList (bareWords ["gh", "pr", "create", "--title"]) :=
    Reads.phrase (by repeat constructor) (by decide)
  have hbody : Reads "--body".toList [bare "--body"] := Reads.spelledWord (by decide)
  have hbase : Reads "--base".toList [bare "--base"] := Reads.spelledWord (by decide)
  have hhead : Reads "--head".toList [bare "--head"] := Reads.spelledWord (by decide)
  have hcurrent : Reads "git symbolic-ref --short HEAD".toList
      (bareWords ["git", "symbolic-ref", "--short", "HEAD"]) := Reads.phrase (by repeat constructor) (by decide)
  have hoption := hhead.blank hcurrent.substitution
  have htexts := (hcreate.blank (reads_shQuote (title.getD "Automated PR"))).blank
    (hbody.blank (reads_shQuote (body.getD "")))
  unfold createPullRequestCommand createPullRequestTokens outputOf
  split
  · simpa using reads_clause (htexts.blank hoption) hbase base
  · simpa using reads_clause htexts hbase base

/-- The refusal of a push reads as a printed message. -/
theorem reads_pushBranchRefusal :
    Reads pushBranchRefusal.toList
      [bare "printf", literalWord "%s\\n",
        literalWord "push_branch requires a branch name, not options or a refspec",
        operatorToken ">&", bare "2", operatorToken ";", bare "exit", bare "2"] := by
  have hprintf : Reads "printf".toList [bare "printf"] := Reads.spelledWord (by decide)
  have hformat := Reads.quoted "%s\\n".toList
  have hmessage :=
    Reads.quoted "push_branch requires a branch name, not options or a refspec".toList
  have hstderr : Reads ">&2".toList [operatorToken ">&", bare "2"] :=
    fun _ _ => ⟨_, _, rfl, rfl⟩
  have hexit : Reads "exit 2".toList (bareWords ["exit", "2"]) :=
    Reads.phrase (by repeat constructor) (by decide)
  have hreads := (hprintf.blank (hformat.blank (hmessage.blank hstderr))).semicolon hexit
  simpa [pushBranchRefusal, operatorToken, bareWords, literalWord, quoted, quotedChar] using hreads

/-- A push reads as the refusal or as the push itself. -/
theorem reads_pushBranch (opts : StepCommandOptions) (remote branch : Option String) :
    Reads (if notABranch (branch.getD "HEAD") then pushBranchRefusal
      else pushBranchCommand opts remote branch).toList (pushBranchTokens opts remote branch) := by
  unfold pushBranchTokens
  split
  · exact reads_pushBranchRefusal
  · have hwords : Reads "push -u --".toList (bareWords ["push", "-u", "--"]) :=
      Reads.phrase (by repeat constructor) (by decide)
    have hreads := ((reads_transportGit opts).blank hwords).blank
      ((reads_shQuote (pushRemote opts remote)).blank (reads_shQuote (branch.getD "HEAD")))
    simpa [pushBranchCommand] using hreads

end Awman.Engine
