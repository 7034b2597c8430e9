import Awman.Library.CommandOptions
import Awman.PhaseStepHelper

/-!
# Fields are not options

Behind the words of a command stand the programs that read them.  A field is read as an option only
where a command gives it to a program as an operand without `--` in front of it; everywhere else it
is the argument of an option, or stands behind `--`.
-/

namespace Awman.Engine

open Awman.ShellWords

/-- How git reads options, with the ones of the steps that take the next word. -/
def gitOptions : OptionSyntax where
  withArgument := ["-c".toList, "-C".toList, "-b".toList, "-m".toList]

/-- How a shell reads options: a plus turns off what a dash turns on. -/
def shOptions : OptionSyntax where
  starts := ['-', '+']
  withArgument := ["-o".toList, "+o".toList]

/-- How the programs that the steps call read options, as their manuals say: a dash starts an option,
for `sh` also a plus, `--` ends the options, and some options take the next word, of which the ones
that the steps use are listed.  Of the other programs `[` reads operands only, and what `echo` and
`printf` are given starts with a fixed text. -/
def optionSyntax (program : List Char) : Option OptionSyntax :=
  if program = "git".toList then some gitOptions
  else if program = "gh".toList then
    some { withArgument := ["--title".toList, "--body".toList, "--head".toList, "--base".toList] }
  else if program = "ssh".toList then
    some { withArgument := ["-F".toList, "-i".toList, "-o".toList] }
  else if program = "rm".toList then some {}
  else if program = "sh".toList then some shOptions
  else none

/-- No word with a quoted part is read as an option. -/
def OptionsUnquoted (tokens : List Token) : Prop := quotedOptions optionSyntax tokens = []

/-- A single command without commands inside its words. -/
structure Simple (tokens : List Token) : Prop where
  /-- No operator separates commands. -/
  single : ∀ token ∈ tokens, token.isControl = false
  /-- No word contains a command. -/
  flat : innerTokens tokens = []

theorem Simple.nil : Simple [] := ⟨by simp, rfl⟩

theorem Simple.append {first second : List Token} (hfirst : Simple first) (hsecond : Simple second) :
    Simple (first ++ second) := by
  constructor
  · intro token htoken
    rcases List.mem_append.mp htoken with hleft | hright
    · exact hfirst.single token hleft
    · exact hsecond.single token hright
  · rw [innerTokens_append, hfirst.flat, hsecond.flat]
    rfl

variable {rest tokens : List Token}

theorem Simple.cons {token : Token} (hcontrol : token.isControl = false) (hinner : token.inner = [])
    (hrest : Simple rest) : Simple (token :: rest) := by
  constructor
  · simpa [hcontrol] using hrest.single
  · rw [innerTokens, hinner, hrest.flat]
    rfl

theorem Simple.bare_cons (text : String) (hrest : Simple rest) :
    Simple (bare text :: rest) := hrest.cons rfl (inner_bare text)

theorem inner_literalWord (text : String) : (literalWord text).inner = [] := inner_literal text.toList

theorem Simple.literalWord_cons (text : String) (hrest : Simple rest) :
    Simple (literalWord text :: rest) := hrest.cons rfl (inner_literalWord text)

theorem inner_outputOf (tokens : List Token) :
    (outputOf tokens).inner = tokens :: innerTokens tokens := by
  simp [outputOf, Token.inner, innerPieces, Piece.inner]

theorem Simple.bareWords (words : List String) : Simple (bareWords words) := by
  induction words with
  | nil => exact nil
  | cons word rest ih => exact bare_cons word ih

theorem Simple.clauseTokens {words : List Token} (hwords : Simple words) (field : Option String) :
    Simple (clauseTokens words field) := by
  cases field with
  | none => exact nil
  | some value => exact hwords.append (literalWord_cons value nil)

theorem Simple.transportTokens (opts : StepCommandOptions) : Simple (transportTokens opts) := by
  unfold Engine.transportTokens
  split
  · exact Simple.bareWords ["git"]
  · apply (Simple.bareWords _).append
    split
    · exact (Simple.bareWords _).append (literalWord_cons _ nil)
    · exact nil

open Simple (nil bare_cons literalWord_cons)

/-- A single command keeps its fields from its options when its arguments do. -/
theorem Simple.optionsUnquoted (hsimple : Simple tokens)
    (hoptions : (commandOptions optionSyntax ((commandWords tokens).dropWhile isReserved)).filter
      (fun word => word.any Piece.isQuoted) = []) : OptionsUnquoted tokens := by
  rw [OptionsUnquoted, quotedOptions_command hsimple.single, hsimple.flat, hoptions]
  rfl

/-- Behind the configuration of git its arguments are read. -/
theorem transportOptions (opts : StepCommandOptions) (rest : List Token) :
    (commandOptions optionSyntax
      ((commandWords (transportTokens opts ++ rest)).dropWhile isReserved)).filter
        (fun word => word.any Piece.isQuoted) =
      (optionWords gitOptions (commandWords rest)).filter
        (fun word => word.any Piece.isQuoted) := by
  unfold transportTokens
  split
  · rfl
  · cases opts.pushAuth with
    | none | ssh | httpsToken => rfl

/-! ## The single commands -/

/-- A field that starts with none of the characters that start an option of the program. -/
def NoOption (options : OptionSyntax) (field : String) : Prop :=
  ∀ first ∈ options.starts, field.toList.head? ≠ some first

/-- A field that is no option of a program is passed over. -/
theorem optionWords_literalWord (options : OptionSyntax) {field : String}
    (hfield : NoOption options field) (rest : List Token) :
    optionWords options (commandWords (literalWord field :: rest)) =
      optionWords options (commandWords rest) :=
  optionWords_operand (isOptionLike_literal hfield)

/-- A field that does not start with a dash. -/
def NoDash (field : String) : Prop := NoOption {} field

/-- Operands of a clone without a dash in front are read as operands. -/
theorem clone_optionsUnquoted (opts : StepCommandOptions) (url : String)
    (branch into : Option String)
    (hoperands : opts.remoteUrl = none → NoDash url ∧ ∀ dir, into = some dir → NoDash dir)
    {front : List Token} (hsimple : Simple front)
    (hfront : ∀ rest, (commandWords (front ++ rest)).dropWhile isReserved =
      (commandWords rest).dropWhile isReserved) :
    OptionsUnquoted (front ++ cloneTokens opts url branch into) := by
  have hend : Simple (if opts.remoteUrl.isSome then [bare "--"] else []) := by
    split
    · exact bare_cons "--" nil
    · exact nil
  apply Simple.optionsUnquoted
  · exact hsimple.append ((((((Simple.transportTokens opts).append
      (bare_cons "clone" nil)).append
      (.clauseTokens (bare_cons "-b" nil) branch)).append hend).append
      (literalWord_cons _ nil)).append (.clauseTokens nil into))
  · rw [hfront]
    unfold cloneTokens
    simp only [List.append_assoc]
    rw [transportOptions]
    cases hremote : opts.remoteUrl with
    | some remote =>
      cases branch with
      | none | some => rfl
    | none =>
      obtain ⟨hurl, hinto⟩ := hoperands hremote
      -- what stands in front of the address has no field that is an operand
      have haddress : optionWords gitOptions
          (commandWords (literalWord url :: clauseTokens [] into)) = [] := by
        rw [optionWords_literalWord gitOptions hurl]
        cases into with
        | none => rfl
        | some dir => exact optionWords_literalWord gitOptions (hinto dir rfl) []
      cases branch with
      | none => exact congrArg (List.filter _) haddress
      | some branch =>
        have hflag : optionWords gitOptions
            (commandWords (bare "clone" :: bare "-b" :: literalWord branch :: literalWord url ::
              clauseTokens [] into)) =
            "-b".toList.map (Piece.char · false) ::
              optionWords gitOptions
                (commandWords (literalWord url :: clauseTokens [] into)) := rfl
        have hquoted : List.filter (fun word => word.any Piece.isQuoted)
            ["-b".toList.map (Piece.char · false)] = [] := rfl
        rw [haddress] at hflag
        exact (congrArg (List.filter fun word => word.any Piece.isQuoted) hflag).trans hquoted

/-- Commands separated by an operator are looked at one by one. -/
theorem OptionsUnquoted.control {first second : List Token} {separator : Token}
    (hseparator : separator.isControl = true) (hfirst : OptionsUnquoted first)
    (hsecond : OptionsUnquoted second) : OptionsUnquoted (first ++ separator :: second) :=
  (quotedOptions_control hseparator).mpr ⟨hfirst, hsecond⟩

theorem semicolon_isControl : (operatorToken ";").isControl = true := by decide

theorem fi_optionsUnquoted : OptionsUnquoted [bare "fi"] :=
  (bare_cons "fi" nil).optionsUnquoted rfl

theorem alreadyCloned_optionsUnquoted (dir url : String) :
    OptionsUnquoted (bare "if" :: alreadyClonedTokens dir url) := by
  have hexists : OptionsUnquoted
      [bare "if", bare "[", bare "-f", literalWord (dir ++ "/.git/config"), bare "]"] :=
    (bare_cons _ (bare_cons _ (bare_cons _ (literalWord_cons _
      (bare_cons _ nil))))).optionsUnquoted rfl
  have hgit : Simple ([bare "git", bare "-C", literalWord dir] ++
      bareWords ["config", "--get", "remote.origin.url"]) :=
    (bare_cons _ (bare_cons _ (literalWord_cons _ nil))).append
      (.bareWords _)
  have horigin : OptionsUnquoted [bare "[",
      outputOf ([bare "git", bare "-C", literalWord dir] ++
        bareWords ["config", "--get", "remote.origin.url"]),
      bare "=", literalWord url, bare "]"] := by
    rw [OptionsUnquoted, quotedOptions_substitution _ _ hgit.flat]
    · rw [hgit.optionsUnquoted rfl]
      rfl
    · intro token htoken
      simp only [List.mem_cons, List.not_mem_nil, or_false] at htoken
      rcases htoken with rfl | rfl | rfl | rfl | rfl <;> rfl
    · simp only [innerTokens, inner_bare, inner_outputOf, inner_literalWord, hgit.flat]
      rfl
  exact OptionsUnquoted.control (by decide : (operatorToken "&&").isControl = true) hexists
    horigin

/-- So are those of a clone beside an earlier one. -/
theorem cloneRepo_optionsUnquoted (opts : StepCommandOptions) (url : String) (branch into : Option String)
    (conflictMode : CloneConflictMode)
    (hoperands : opts.remoteUrl = none → NoDash url ∧ ∀ dir, into = some dir → NoDash dir)
    (hdir : conflictMode = .replace → NoDash (cloneTargetDir url into)) :
    OptionsUnquoted (cloneRepoTokens opts url branch into conflictMode) := by
  have htest := alreadyCloned_optionsUnquoted (cloneTargetDir url into) url
  have helse : OptionsUnquoted ([bare "else"] ++ cloneTokens opts url branch into) :=
    clone_optionsUnquoted opts url branch into hoperands (bare_cons _ nil) fun _ => rfl
  have hecho (message : String) : OptionsUnquoted [bare "then", bare "echo", literalWord message] :=
    (bare_cons _ (bare_cons _ (literalWord_cons _ nil))).optionsUnquoted
      rfl
  unfold cloneRepoTokens
  cases conflictMode with
  | skip =>
    have hunquoted := htest.control semicolon_isControl ((hecho ("clone_repo: " ++
      cloneTargetDir url into ++ " already cloned from " ++ url ++ "; skipping")).control
      semicolon_isControl (helse.control semicolon_isControl fi_optionsUnquoted))
    simpa using hunquoted
  | replace =>
    have hremove : OptionsUnquoted [bare "rm", bare "-rf", literalWord (cloneTargetDir url into)] := by
      refine (bare_cons _ (bare_cons _ (literalWord_cons _
        nil))).optionsUnquoted ?_
      have hwords : optionWords {} (commandWords [bare "-rf", literalWord (cloneTargetDir url into)]) =
          "-rf".toList.map (Piece.char · false) ::
            optionWords {} (commandWords [literalWord (cloneTargetDir url into)]) := rfl
      rw [optionWords_literalWord {} (hdir rfl)] at hwords
      exact congrArg (List.filter fun word => word.any Piece.isQuoted) hwords
    have hclone : OptionsUnquoted ([] ++ cloneTokens opts url branch into) :=
      clone_optionsUnquoted opts url branch into hoperands nil fun _ => rfl
    have hunquoted := htest.control semicolon_isControl ((hecho ("clone_repo: " ++
      cloneTargetDir url into ++ " already cloned from " ++ url ++ "; replacing")).control
      semicolon_isControl (hremove.control semicolon_isControl
        (fi_optionsUnquoted.control semicolon_isControl hclone)))
    simpa using hunquoted
  | error =>
    have hrefuse (message : String) : OptionsUnquoted
        [bare "then", bare "echo", literalWord message, operatorToken ">&", bare "2"] :=
      (bare_cons _ (bare_cons _ (literalWord_cons _ ((bare_cons _
        nil).cons (by decide) rfl)))).optionsUnquoted rfl
    have hexit : OptionsUnquoted [bare "exit", bare "1"] :=
      (bare_cons _ (bare_cons _ nil)).optionsUnquoted rfl
    have hunquoted := htest.control semicolon_isControl ((hrefuse ("clone_repo: " ++
      cloneTargetDir url into ++ " already cloned from " ++ url ++
      " (conflict_mode = error)")).control semicolon_isControl
      (hexit.control semicolon_isControl (helse.control semicolon_isControl fi_optionsUnquoted)))
    simpa using hunquoted

theorem quietly_simple : Simple quietly :=
  ((bare_cons _ nil).cons (by decide) rfl).cons rfl rfl

/-- So are the branch and its base. -/
theorem checkoutCreateBranch_optionsUnquoted (branch : String) (base : Option String)
    (hbranch : NoDash branch) (hbase : ∀ name, base = some name → NoDash name) :
    OptionsUnquoted (checkoutCreateBranchTokens branch base) := by
  have hfetch : OptionsUnquoted (bareWords ["git", "fetch", "origin"] ++ quietly) :=
    ((Simple.bareWords _).append quietly_simple).optionsUnquoted rfl
  have hcheckout : OptionsUnquoted
      (bareWords ["git", "checkout"] ++ [literalWord branch] ++ quietly) := by
    refine (((Simple.bareWords _).append (literalWord_cons _ nil)).append
      quietly_simple).optionsUnquoted ?_
    have hwords := optionWords_literalWord gitOptions hbranch quietly
    exact congrArg (List.filter fun word => word.any Piece.isQuoted) hwords
  have hcreate : OptionsUnquoted (bareWords ["git", "checkout", "-b"] ++ [literalWord branch] ++
      clauseTokens [] base) := by
    refine (((Simple.bareWords _).append (literalWord_cons _ nil)).append
      (Simple.clauseTokens nil base)).optionsUnquoted ?_
    cases base with
    | none => rfl
    | some name =>
      have hwords := optionWords_literalWord gitOptions (hbase name rfl) []
      exact congrArg (fun words => List.filter (fun word => word.any Piece.isQuoted)
        ("-b".toList.map (Piece.char · false) :: words)) hwords
  have hunquoted := hfetch.control semicolon_isControl (hcheckout.control
    (by decide : (operatorToken "||").isControl = true) hcreate)
  unfold checkoutCreateBranchTokens
  simpa using hunquoted

/-- So are the remote and branch of a pull. -/
theorem pullBranch_optionsUnquoted (opts : StepCommandOptions) (remote branch : Option String)
    (hoperands : opts = default → ∀ first second, remote = some first → branch = some second →
      NoDash first ∧ NoDash second) :
    OptionsUnquoted (pullBranchTokens opts remote branch) := by
  have hplain : OptionsUnquoted (bareWords ["git", "pull"]) :=
    (Simple.bareWords _).optionsUnquoted rfl
  have hgit := Simple.transportTokens opts
  unfold pullBranchTokens
  split
  · rename_i hdefault
    cases remote with
    | none => exact hplain
    | some first =>
      cases branch with
      | none => exact hplain
      | some second =>
        obtain ⟨hfirst, hsecond⟩ := hoperands hdefault first second rfl rfl
        refine ((Simple.bareWords _).append (literalWord_cons _
          (literalWord_cons _ nil))).optionsUnquoted ?_
        have hwords := (optionWords_literalWord gitOptions hfirst [literalWord second]).trans
          (optionWords_literalWord gitOptions hsecond [])
        exact congrArg (List.filter fun word => word.any Piece.isQuoted) hwords
  · cases opts.remoteUrl.or remote with
    | none =>
      apply (hgit.append (bare_cons _ nil)).optionsUnquoted
      rw [transportOptions]
      rfl
    | some first =>
      cases branch with
      | none =>
        refine ((hgit.append (Simple.bareWords _)).append
          (literalWord_cons _ nil)).optionsUnquoted ?_
        rw [List.append_assoc, transportOptions]
        rfl
      | some second =>
        refine ((hgit.append (Simple.bareWords _)).append (literalWord_cons _
          (literalWord_cons _ nil))).optionsUnquoted ?_
        rw [List.append_assoc, transportOptions]
        rfl

/-- A script is given to a shell, which reads options with a plus as well. -/
theorem runScript_optionsUnquoted {path : String} (hpath : NoOption shOptions path) :
    OptionsUnquoted (runScriptTokens path) := by
  apply (bare_cons _ (literalWord_cons _ nil)).optionsUnquoted
  have hwords := optionWords_literalWord shOptions hpath []
  exact congrArg (List.filter fun word => word.any Piece.isQuoted) hwords

/-- A message cannot become an option. -/
theorem commitChanges_optionsUnquoted (message : String) (addAll : Bool) :
    OptionsUnquoted (commitChangesTokens message addAll) := by
  have hadd : OptionsUnquoted (bareWords ["git", "add", "-A", "--", "."]) :=
    (Simple.bareWords _).optionsUnquoted rfl
  have hdiff : OptionsUnquoted (bareWords ["if", "git", "diff", "--cached", "--quiet"]) :=
    (Simple.bareWords _).optionsUnquoted rfl
  have hecho : OptionsUnquoted
      [bare "then", bare "echo", literalWord "commit_changes: nothing to commit"] :=
    (bare_cons _ (bare_cons _ (literalWord_cons _ nil))).optionsUnquoted
      rfl
  have hcommit : OptionsUnquoted
      (bareWords ["else", "git", "commit", "-m"] ++ [literalWord message]) :=
    ((Simple.bareWords _).append (literalWord_cons _ nil)).optionsUnquoted rfl
  have hunquoted := hdiff.control semicolon_isControl (hecho.control semicolon_isControl
    (hcommit.control semicolon_isControl fi_optionsUnquoted))
  unfold commitChangesTokens
  cases addAll with
  | false => simpa using hunquoted
  | true =>
    simpa using hadd.control (by decide : (operatorToken "&&").isControl = true) hunquoted

/-- A push refuses what could become an option. -/
theorem pushBranch_optionsUnquoted (opts : StepCommandOptions) (remote branch : Option String) :
    OptionsUnquoted (pushBranchTokens opts remote branch) := by
  unfold pushBranchTokens
  split
  · have hprintf : OptionsUnquoted [bare "printf", literalWord "%s\\n",
        literalWord "push_branch requires a branch name, not options or a refspec",
        operatorToken ">&", bare "2"] :=
      (bare_cons _ (literalWord_cons _ (literalWord_cons _ ((bare_cons _
        nil).cons (by decide) rfl)))).optionsUnquoted rfl
    have hexit : OptionsUnquoted [bare "exit", bare "2"] :=
      (bare_cons _ (bare_cons _ nil)).optionsUnquoted rfl
    simpa using hprintf.control semicolon_isControl hexit
  · refine ((((Simple.transportTokens opts).append (Simple.bareWords _))).append
      (literalWord_cons _ (literalWord_cons _ nil))).optionsUnquoted ?_
    rw [List.append_assoc, transportOptions]
    rfl

/-- A title or body follows its own option. -/
theorem createPullRequest_optionsUnquoted (opts : StepCommandOptions) (title body base : Option String) :
    OptionsUnquoted (createPullRequestTokens opts title body base) := by
  have hcurrent : Simple (bareWords ["git", "symbolic-ref", "--short", "HEAD"]) := Simple.bareWords _
  have htexts : Simple (bareWords ["gh", "pr", "create", "--title"] ++
      [literalWord (title.getD "Automated PR")] ++ [bare "--body", literalWord (body.getD "")]) :=
    ((Simple.bareWords _).append (literalWord_cons _ nil)).append
      (bare_cons _ (literalWord_cons _ nil))
  have hbase : Simple (clauseTokens [bare "--base"] base) :=
    Simple.clauseTokens (bare_cons _ nil) base
  unfold createPullRequestTokens
  split
  · rw [OptionsUnquoted, quotedOptions_substitution _ _ hcurrent.flat]
    · rw [hcurrent.optionsUnquoted rfl]
      cases base with
      | none | some => rfl
    · intro token htoken
      rw [List.mem_append, List.mem_append] at htoken
      rcases htoken with (hleft | hmiddle) | hright
      · exact htexts.single token hleft
      · simp only [List.mem_cons, List.not_mem_nil, or_false] at hmiddle
        rcases hmiddle with rfl | rfl <;> rfl
      · exact hbase.single token hright
    · rw [innerTokens_append, innerTokens_append, htexts.flat, hbase.flat]
      simp only [innerTokens, inner_bare, inner_outputOf, hcurrent.flat]
      rfl
  · apply ((htexts.append nil).append hbase).optionsUnquoted
    cases base with
    | none | some => rfl

/-! ## The command git reaches a remote with -/

/-- A text behind bare characters, as one word. -/
def attachedWord (front text : String) : Token :=
  .word (front.toList.map (Piece.char · false) ++ literalPieces text.toList)

/-- The words of the command git reaches a remote over SSH with. -/
def sshTokens (opts : StepCommandOptions) : List Token :=
  if opts.pushAuth = .none ∧ opts.remoteUrl = none then
    bareWords ["ssh", "-o", "StrictHostKeyChecking=accept-new"]
  else
    match opts.pushAuth with
    | .ssh keyPath knownHosts =>
      bareWords ["ssh", "-F", "/dev/null", "-i"] ++ [literalWord keyPath] ++
        bareWords ["-o", "IdentitiesOnly=yes", "-o", "BatchMode=yes", "-o",
          "StrictHostKeyChecking=accept-new"] ++
        (match knownHosts with
         | some path => [bare "-o", attachedWord "UserKnownHostsFile=" path]
         | none => [])
    | _ => bareWords ["ssh", "-F", "/dev/null", "-o", "BatchMode=yes", "-o",
        "StrictHostKeyChecking=accept-new"]

theorem reads_sshCommand (opts : StepCommandOptions) :
    Reads (sshCommand opts).toList (sshTokens opts) := by
  have hplain : Reads "ssh -F /dev/null -o BatchMode=yes -o StrictHostKeyChecking=accept-new".toList
      (bareWords ["ssh", "-F", "/dev/null", "-o", "BatchMode=yes", "-o",
        "StrictHostKeyChecking=accept-new"]) := Reads.phrase (by repeat constructor) (by decide)
  unfold sshCommand sshTokens
  split
  · exact Reads.phrase (by repeat constructor) (by decide)
  · cases opts.pushAuth with
    | none | httpsToken => exact hplain
    | ssh keyPath knownHosts =>
      have hkey : Reads "ssh -F /dev/null -i".toList (bareWords ["ssh", "-F", "/dev/null", "-i"]) :=
        Reads.phrase (by repeat constructor) (by decide)
      have hsettings : Reads
          "-o IdentitiesOnly=yes -o BatchMode=yes -o StrictHostKeyChecking=accept-new".toList
          (bareWords ["-o", "IdentitiesOnly=yes", "-o", "BatchMode=yes", "-o",
            "StrictHostKeyChecking=accept-new"]) := Reads.phrase (by repeat constructor) (by decide)
      have hfront := hkey.blank ((reads_shQuote keyPath).blank hsettings)
      cases knownHosts with
      | none => simpa [clause] using hfront
      | some path =>
        have hoption : Reads "-o".toList [bare "-o"] := Reads.spelledWord (by decide)
        have hfile := Reads.bare_quoted
          (by decide : isBareWord "UserKnownHostsFile=" = true) path.toList
        simpa [clause, attachedWord] using hfront.blank (hoption.blank hfile)

theorem ssh_optionsUnquoted (opts : StepCommandOptions) : OptionsUnquoted (sshTokens opts) := by
  unfold sshTokens
  split
  · exact (Simple.bareWords _).optionsUnquoted rfl
  · cases opts.pushAuth with
    | none | httpsToken => exact (Simple.bareWords _).optionsUnquoted rfl
    | ssh keyPath knownHosts =>
      have hfront := ((Simple.bareWords ["ssh", "-F", "/dev/null", "-i"]).append
        (literalWord_cons keyPath nil)).append (Simple.bareWords
          ["-o", "IdentitiesOnly=yes", "-o", "BatchMode=yes", "-o",
            "StrictHostKeyChecking=accept-new"])
      cases knownHosts with
      | none => exact (hfront.append nil).optionsUnquoted rfl
      | some path =>
        have hinner : (attachedWord "UserKnownHostsFile=" path).inner = [] := by
          rw [attachedWord, Token.inner, innerPieces_append, innerPieces_char, literalPieces,
            innerPieces_char]
          rfl
        exact (hfront.append (bare_cons "-o" (nil.cons rfl hinner))).optionsUnquoted rfl

/-! ## Every step -/

/-- The fields a setup step gives to a program as operands without `--` in front of them, each with
how the program reads options. -/
def SetupStep.bareOperands (step : SetupStep) (opts : StepCommandOptions) :
    List (OptionSyntax × String) :=
  match step with
  | .cloneRepo url _ into conflictMode =>
    (if opts.remoteUrl.isSome then [] else (url :: into.toList).map (gitOptions, ·)) ++
      (if conflictMode = .replace then [({}, cloneTargetDir url into)] else [])
  | .checkoutCreateBranch branch base => (branch :: base.toList).map (gitOptions, ·)
  | .pullBranch (some remote) (some branch) =>
    if opts = default then [(gitOptions, remote), (gitOptions, branch)] else []
  | .runScript path _ => [(shOptions, path)]
  | _ => []

/-- The fields a teardown step gives to a program as operands without `--` in front of them, each
with how the program reads options. -/
def TeardownStep.bareOperands : TeardownStep → List (OptionSyntax × String)
  | .runScript path => [(shOptions, path)]
  | _ => []

/-- What is said of the command of a step: it reads as these words, and no field is an option unless
one of these operands starts as an option of its program does. -/
structure CommandReads (command : Option (String × StepEnv)) (tokens : List Token)
    (operands : List (OptionSyntax × String)) : Prop where
  words : ∃ text env, command = some (text, env) ∧ lex text.toList = some tokens
  options : (∀ operand ∈ operands, NoOption operand.1 operand.2) → OptionsUnquoted tokens

theorem setupStep_commandReads {step : SetupStep} {opts : StepCommandOptions}
    (htokens : setupStepTokens step opts = some tokens) :
    CommandReads (setupStepToShellWith step opts) tokens (step.bareOperands opts) := by
  cases step with
  | cloneRepo url branch into conflictMode =>
    cases htokens
    refine ⟨⟨_, _, rfl, (reads_cloneRepo opts url branch into conflictMode).lex⟩, fun hdash => ?_⟩
    apply cloneRepo_optionsUnquoted
    · intro hremote
      simp only [SetupStep.bareOperands, hremote, Option.isSome_none, Bool.false_eq_true, if_false,
        List.map_cons, List.cons_append, List.mem_cons, List.mem_append, List.mem_map,
        Option.mem_toList] at hdash
      exact ⟨hdash (gitOptions, url) (.inl rfl),
        fun dir hdir => hdash (gitOptions, dir) (.inr (.inl ⟨dir, hdir, rfl⟩))⟩
    · intro hreplace
      exact hdash ({}, cloneTargetDir url into) (List.mem_append_right _ (by simp [hreplace]))
  | checkoutCreateBranch branch base =>
    cases htokens
    refine ⟨⟨_, _, rfl, (reads_checkoutCreateBranch branch base).lex⟩, fun hdash => ?_⟩
    apply checkoutCreateBranch_optionsUnquoted
    · exact hdash (gitOptions, branch) List.mem_cons_self
    · intro name hname
      exact hdash (gitOptions, name) (List.mem_cons_of_mem _ (by simp [hname]))
  | pullBranch remote branch =>
    cases htokens
    refine ⟨⟨_, _, rfl, (reads_pullBranch opts remote branch).lex⟩, fun hdash => ?_⟩
    apply pullBranch_optionsUnquoted
    rintro hdefault first second rfl rfl
    simp only [SetupStep.bareOperands, hdefault, if_true, List.mem_cons, List.not_mem_nil,
      or_false] at hdash
    exact ⟨hdash (gitOptions, first) (.inl rfl), hdash (gitOptions, second) (.inr rfl)⟩
  | runShell | pollCi => cases htokens
  | runScript path env =>
    cases htokens
    refine ⟨⟨_, _, rfl, (reads_runScript path).lex⟩, fun hdash => ?_⟩
    exact runScript_optionsUnquoted (hdash (shOptions, path) List.mem_cons_self)

theorem teardownStep_commandReads {step : TeardownStep} {opts : StepCommandOptions}
    (htokens : teardownStepTokens step opts = some tokens) :
    CommandReads (teardownStepToShellWith step opts) tokens step.bareOperands := by
  cases step with
  | runShell | pollCi => cases htokens
  | runScript path =>
    cases htokens
    refine ⟨⟨_, _, rfl, (reads_runScript path).lex⟩, fun hdash => ?_⟩
    exact runScript_optionsUnquoted (hdash (shOptions, path) List.mem_cons_self)
  | commitChanges message addAll =>
    cases htokens
    exact ⟨⟨_, _, rfl, (reads_commitChanges message addAll).lex⟩,
      fun _ => commitChanges_optionsUnquoted message addAll⟩
  | createPullRequest title body base =>
    cases htokens
    exact ⟨⟨_, _, rfl, (reads_createPullRequest opts title body base).lex⟩,
      fun _ => createPullRequest_optionsUnquoted opts title body base⟩
  | pushBranch remote branch =>
    cases htokens
    have hlex := (reads_pushBranch opts remote branch).lex
    refine ⟨?_, fun _ => pushBranch_optionsUnquoted opts remote branch⟩
    by_cases hrefused : notABranch (branch.getD "HEAD") = true
    · rw [if_pos hrefused] at hlex
      exact ⟨pushBranchRefusal, none, if_pos hrefused, hlex⟩
    · rw [if_neg hrefused] at hlex
      exact ⟨pushBranchCommand opts remote branch, transportEnv opts, if_neg hrefused, hlex⟩

/-- What a step runs is read as the fixed words of its kind with its fields as literal words, also
inside the command git reaches a remote with and inside the credential helper; and no field is an
option of a program unless it is an operand without `--` in front of it that starts with a dash, or
for the path of a script with a plus. -/
theorem stepCommands_read (opts : StepCommandOptions) :
    (∀ step tokens, setupStepTokens step opts = some tokens →
      CommandReads (setupStepToShellWith step opts) tokens (step.bareOperands opts)) ∧
    (∀ step tokens, teardownStepTokens step opts = some tokens →
      CommandReads (teardownStepToShellWith step opts) tokens step.bareOperands) ∧
    (lex (sshCommand opts).toList = some (sshTokens opts) ∧ OptionsUnquoted (sshTokens opts)) ∧
    ∀ envVar, opts.pushAuth = .httpsToken envVar → isName envVar.toList = true →
      ∃ program, (credentialHelper envVar opts.remoteUrl).toList =
          "credential.helper=!".toList ++ program ∧
        lex program = some (credentialTokens
          (unescapeQuotes (httpsDestination opts.remoteUrl).1.toList)
          (unescapeQuotes (httpsDestination opts.remoteUrl).2.toList) envVar.toList) := by
  refine ⟨fun step tokens => setupStep_commandReads, fun step tokens => teardownStep_commandReads,
    ⟨(reads_sshCommand opts).lex, ssh_optionsUnquoted opts⟩, ?_⟩
  intro envVar _ henv
  exact ⟨_, credentialHelper_toList opts.remoteUrl henv, lex_credentialProgram _ _ henv⟩

/-- A push over HTTPS of a branch with a quote in its name. -/
theorem stepCommands_read_push :
    CommandReads
      (teardownStepToShellWith (.pushBranch (some "origin") (some "it's"))
        ⟨.httpsToken "AWMAN_GIT_TOKEN", some "https://github.com/org/it's.git"⟩)
      (pushBranchTokens ⟨.httpsToken "AWMAN_GIT_TOKEN", some "https://github.com/org/it's.git"⟩
        (some "origin") (some "it's")) [] ∧
    ∃ program, (credentialHelper "AWMAN_GIT_TOKEN" (some "https://github.com/org/it's.git")).toList =
        "credential.helper=!".toList ++ program ∧
      lex program = some (credentialTokens "github.com".toList "org/it's.git".toList
        "AWMAN_GIT_TOKEN".toList) := by
  obtain ⟨-, hteardown, -, hhelper⟩ := stepCommands_read
    ⟨.httpsToken "AWMAN_GIT_TOKEN", some "https://github.com/org/it's.git"⟩
  have hhost : unescapeQuotes (httpsDestination (some "https://github.com/org/it's.git")).1.toList =
      "github.com".toList := by decide
  have hpath : unescapeQuotes (httpsDestination (some "https://github.com/org/it's.git")).2.toList =
      "org/it's.git".toList := by decide
  have hprogram := hhelper "AWMAN_GIT_TOKEN" rfl (by decide)
  rw [hhost, hpath] at hprogram
  exact ⟨hteardown (.pushBranch (some "origin") (some "it's")) _ rfl, hprogram⟩

/-- The branch `-f` of a `checkout_create_branch` step stands twice in its command, and git reads
the first as an option. -/
theorem checkoutCreateBranch_dash :
    lex (checkoutCreateBranchCommand "-f" none).toList =
        some (checkoutCreateBranchTokens "-f" none) ∧
      ((commandWords (checkoutCreateBranchTokens "-f" none)).filter
        fun word => Word.text word == some "-f".toList).length = 2 ∧
      ¬ OptionsUnquoted (checkoutCreateBranchTokens "-f" none) := by
  refine ⟨(reads_checkoutCreateBranch "-f" none).lex, rfl, ?_⟩
  intro hunquoted
  cases hunquoted

/-- A shell reads a script path with a plus in front of it as an option. -/
example : ¬ OptionsUnquoted (runScriptTokens "+x") := by
  intro hunquoted
  cases hunquoted

end Awman.Engine
