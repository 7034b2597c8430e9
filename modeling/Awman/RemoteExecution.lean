import Awman.ForwardedFlags

/-!
# Executing on a remote host

`awman remote exec` sends the flags it was given to a server, and behind a separator the path of a
workflow or a prompt.  The server reads back every flag with its value, and the path or the prompt as it
was written, whatever it looks like.
-/

namespace Awman.Catalogue

open Awman.RawArgs

/-- The flags that configure the connection to the server. -/
def remoteTransportFlagNames : List Text := names ["remote-addr", "session", "api-key", "follow"]

/-- The flags an invocation forwards to the server. -/
def forwardedExecFlags (flags : ResolvedFlags) : List Text := flags.suppliedArgv remoteTransportFlagNames

/-- What is executed. -/
inductive ExecArg where
  /-- A workflow; its path may be left out where the server designs one. -/
  | workflow (path : Option Text)
  | prompt (text : Text)

/-- The body of the request. -/
structure StartCommandRequest where
  /-- The words of the command. -/
  subcommand : List Text
  args : List Text

namespace ExecArg

/-- What stands behind the separator. -/
def positional : ExecArg → Option Text
  | workflow path => path
  | prompt text => some text

/-- The last word of the command, which is the name of its argument too. -/
def word : ExecArg → Text
  | workflow _ => "workflow".toList
  | prompt _ => "prompt".toList

def intoRequest (arg : ExecArg) (flags : List Text) : StartCommandRequest where
  subcommand := ["exec".toList, arg.word]
  args := flags ++ arg.positional.elim [] fun text => ["--".toList, text]

/-- The command of the client. -/
def remoteNode : ExecArg → CommandNode
  | workflow _ => remoteExecWorkflow
  | prompt _ => remoteExecPrompt

/-- The command of the server. -/
def serverNode : ExecArg → CommandNode
  | workflow _ => execWorkflow
  | prompt _ => execPrompt

/-- The path or the prompt, as the argument of the command. -/
def arguments (arg : ExecArg) : NameMap Text (List Text) :=
  arg.positional.elim ∅ fun text => AList.insert arg.word [text] ∅

theorem assignPositionals_eq (arg : ExecArg) : ∃ paths,
    assignPositionals arg.serverNode.spec.arguments arg.positional.toList (∅, []) =
      ((arg.arguments, paths), []) := by
  rcases arg with (_ | path) | prompt
  all_goals exact ⟨_, rfl⟩

/-- Both commands are in the catalogue. -/
theorem lookup_nodes (arg : ExecArg) :
    lookupWithAliases ("remote".toList :: ["exec".toList, arg.word]) = some arg.remoteNode ∧
      lookupWithAliases ["exec".toList, arg.word] = some arg.serverNode := by
  cases arg with
  | workflow | prompt => exact ⟨rfl, rfl⟩

/-- The server has every flag that is forwarded, and may be asked to use it. -/
theorem serverNode_flags (arg : ExecArg) : ∀ flag ∈ arg.remoteNode.spec.flags,
    flag.long ∉ remoteTransportFlagNames →
      flag ∈ arg.serverNode.spec.flags ∧ flag.frontends.allows .api = true := by
  have hnodes : ∀ nodes ∈ [(remoteExecWorkflow, execWorkflow), (remoteExecPrompt, execPrompt)],
      ∀ flag ∈ nodes.1.spec.flags, flag.long ∉ remoteTransportFlagNames →
        flag ∈ nodes.2.spec.flags ∧ flag.frontends.allows .api = true := by decide +kernel
  cases arg with
  | workflow => exact hnodes _ List.mem_cons_self
  | prompt => exact hnodes _ (List.mem_cons_of_mem _ List.mem_cons_self)

end ExecArg

section

variable {spec : CommandSpec Text} {path : List Text} {given : List (FlagSpec Text × Option Text)}

/-- Flags written as tokens are held before what follows them is read. -/
theorem scanArgs_append (hspec : spec.Regular)
    (hgiven : ∀ entry ∈ given, entry.1 ∈ spec.flags ∧ (entry.1.kind.read entry.2).isSome = true)
    (rest : List Text) (flags : NameMap Text ParsedFlag) :
    scanArgs spec path ((given.map fun entry => flagToken entry.1.long entry.2) ++ rest)
        ⟨flags, [], false⟩ =
      scanArgs spec path rest ⟨given.foldl hold flags, [], false⟩ := by
  induction given generalizing flags with
  | nil => rfl
  | cons entry others ih =>
    obtain ⟨hflag, hread⟩ := hgiven entry List.mem_cons_self
    have hstep := fun next => @scanToken_flagToken entry.1 spec path hspec hflag entry.2 hread next flags
    rw [List.foldl_cons, ← ih fun other hother => hgiven other (List.mem_cons_of_mem entry hother)]
    rw [List.map_cons, List.cons_append]
    cases hrest : (others.map fun entry => flagToken entry.1.long entry.2) ++ rest with
    | nil =>
      simp only [scanArgs, hstep]
      rfl
    | cons second tokens =>
      rw [scanArgs, hstep]
      rfl

/-- Behind the separator a token is no flag. -/
theorem scanArgs_positional (positional : Option Text) (flags : NameMap Text ParsedFlag) :
    scanArgs spec path (positional.elim [] fun text => ["--".toList, text]) ⟨flags, [], false⟩ =
      .ok ⟨flags, positional.toList, positional.isSome⟩ := by
  cases positional <;> rfl

/-- A flag that is held was given. -/
theorem exists_given {name : Text} (hsome : ((given.foldl hold ∅).lookup name).isSome = true) :
    ∃ entry ∈ given, entry.1.key = name := by
  by_contra hnone
  rw [lookup_foldl_hold_none] at hsome
  · cases hsome
  · exact fun entry hentry hkey => hnone ⟨entry, hentry, hkey⟩

theorem given_of_held (hspec : spec.Regular) (hgiven : ∀ entry ∈ given, entry.1 ∈ spec.flags)
    {flag : FlagSpec Text} (hflag : flag ∈ spec.flags)
    (hsome : ((given.foldl hold ∅).lookup flag.key).isSome = true) : ∃ inline, (flag, inline) ∈ given := by
  obtain ⟨entry, hentry, hkey⟩ := exists_given hsome
  rw [← eq_of_key hspec (hgiven entry hentry) hflag hkey]
  exact ⟨entry.2, hentry⟩

/-- A front end is not refused flags that it may use. -/
theorem checkVisibility_given (hspec : spec.Regular) {frontend : FrontendKind} (hgiven : ∀ entry ∈ given,
    entry.1 ∈ spec.flags ∧ entry.1.frontends.allows frontend = true) :
    checkVisibility spec path frontend (given.foldl hold ∅) = .ok () := by
  have hnone : spec.flags.find? (fun flag =>
      ((given.foldl hold ∅).lookup flag.key).isSome && !flag.frontends.allows frontend &&
        !(frontendFlagDefaults frontend).any fun entry => entry.flag = flag.long ∧ entry.forced) =
      none := by
    rw [List.find?_eq_none]
    intro flag hflag hrefused
    rw [Bool.and_eq_true, Bool.and_eq_true] at hrefused
    obtain ⟨inline, hmem⟩ :=
      given_of_held hspec (fun entry hentry => (hgiven entry hentry).1) hflag hrefused.1.1
    simp [(hgiven _ hmem).2] at hrefused
  unfold checkVisibility
  simp only [hnone]

end

/-- What the server holds: each forwarded flag with the value the client read for it, no other flag, and
what was behind the separator. -/
structure Received (frontend : CommandFrontend) (arg : ExecArg) (parsed : ParsedArgs Text) : Prop where
  flags : ∀ flag ∈ arg.remoteNode.spec.flags, flag.long ∉ remoteTransportFlagNames →
    ∃ value, readFlag frontend flag = .ok value ∧ parsed.flags.lookup flag.long = value.parsed
  others : ∀ name, (parsed.flags.lookup name).isSome = true → name ∉ remoteTransportFlagNames ∧
    ∃ flag ∈ arg.remoteNode.spec.flags, flag.long = name
  arguments : parsed.arguments = arg.arguments

/-- The server accepts what the client sends, and holds each flag with the value the client read for it;
its own front end then adds what it gives every command. -/
theorem remoteExec_received (arg : ExecArg) {frontend : CommandFrontend} {commandPath : List Text}
    {resolved : ResolvedFlags} (hfrontend : frontend.Restricted arg.remoteNode.spec.flags)
    (hresolved : ResolvedFlags.resolve frontend commandPath arg.remoteNode.spec = .ok resolved) :
    let request := arg.intoRequest (forwardedExecFlags resolved)
    ∃ parsed, parseRawArgs request.subcommand request.args = .ok parsed ∧
      parseRawArgsWithProfile request.subcommand request.args .api = .ok { parsed with
        flags := (frontendFlagDefaults .api).foldl (applyFrontendDefault arg.serverNode.spec)
          parsed.flags } ∧
      Received frontend arg parsed := by
  intro request
  obtain ⟨hremote, hserver⟩ := arg.lookup_nodes
  have hclient := sound_of_lookup hremote
  have hregular := (sound_of_lookup hserver).regular
  have hforwarded : ∀ entry ∈ resolved.given arg.remoteNode.spec remoteTransportFlagNames,
      entry.1 ∈ arg.remoteNode.spec.flags ∧ entry.1.long ∉ remoteTransportFlagNames ∧
        (entry.1.kind.read entry.2).isSome = true := by
    intro entry hentry
    obtain ⟨hflag, _, hread⟩ := given_readable hclient hfrontend hresolved hentry
    obtain ⟨name, _, hkept, hfound, _⟩ := mem_given.mp hentry
    rw [← (findFlag_eq_some hfound).2] at hkept
    exact ⟨hflag, hkept, hread⟩
  have hargv := @suppliedArgv_eq arg.remoteNode.spec resolved remoteTransportFlagNames fun name hname => by
    obtain ⟨-, hnames, -⟩ := resolve_eq_ok hclient hresolved
    obtain ⟨flag, hflag, rfl⟩ := hnames name hname
    exact ⟨flag, hclient.find_eq hflag⟩
  have hagrees := @given_agrees arg.remoteNode.spec frontend resolved remoteTransportFlagNames hclient
    hfrontend _ hresolved
  have hlookup : ∀ flag ∈ arg.remoteNode.spec.flags, ∃ value, readFlag frontend flag = .ok value ∧
      ((resolved.given arg.remoteNode.spec remoteTransportFlagNames).foldl hold ∅).lookup flag.long =
        if flag.long ∈ remoteTransportFlagNames then none else value.parsed :=
    fun flag hflag => lookup_given hclient hfrontend hresolved hflag
  generalize resolved.given arg.remoteNode.spec remoteTransportFlagNames = given at *
  have hserves : ∀ entry ∈ given, entry.1 ∈ arg.serverNode.spec.flags ∧
      entry.1.frontends.allows .api = true := fun entry hentry =>
    arg.serverNode_flags entry.1 (hforwarded entry hentry).1 (hforwarded entry hentry).2.1
  -- The server reads the flags, and then what is behind the separator.
  have hscan : scanArgs arg.serverNode.spec (canonicalPath request.subcommand) request.args ⟨∅, [], false⟩ =
      .ok ⟨given.foldl hold ∅, arg.positional.toList, arg.positional.isSome⟩ := by
    rw [← scanArgs_positional, ← scanArgs_append hregular fun entry hentry =>
      ⟨(hserves entry hentry).1, (hforwarded entry hentry).2.2⟩, ← hargv]
    rfl
  -- The client refused flags that exclude each other.
  have hconflicts : arg.serverNode.spec.Agrees (given.foldl hold ∅) := by
    intro flag hflag hactive
    obtain ⟨inline, hmem⟩ := given_of_held hregular (fun entry hentry => (hserves entry hentry).1) hflag
      (isSome_of_active hactive)
    exact hagrees flag (hforwarded _ hmem).1 hactive
  obtain ⟨paths, hassigned⟩ := arg.assignPositionals_eq
  have hparsed : parseAgainstSpec arg.serverNode.spec (canonicalPath request.subcommand) request.args =
      .ok ⟨given.foldl hold ∅, arg.arguments, paths⟩ := by
    unfold parseAgainstSpec
    rw [hscan]
    simp only [bind, Except.bind, checkConflicts_eq_ok.mpr hconflicts, hassigned]
    rfl
  have hnode : lookupWithAliases request.subcommand = some arg.serverNode := hserver
  refine ⟨⟨given.foldl hold ∅, arg.arguments, paths⟩, ?_, ?_, ?_, ?_, rfl⟩
  · rw [parseRawArgs, hnode]
    exact hparsed
  · rw [parseRawArgsWithProfile, hnode]
    unfold RawArgs.parseRawArgsWithProfile
    simp only [hparsed, checkVisibility_given hregular hserves, bind, Except.bind]
    rfl
  · intro flag hflag hkept
    obtain ⟨value, hread, hvalue⟩ := hlookup flag hflag
    rw [if_neg hkept] at hvalue
    exact ⟨value, hread, hvalue⟩
  · intro name hsome
    obtain ⟨entry, hentry, hkey⟩ := exists_given hsome
    obtain ⟨hflag, hkept, _⟩ := hforwarded entry hentry
    rw [(hclient.1 entry.1 hflag).1] at hkey
    exact ⟨hkey ▸ hkept, entry.1, hflag, hkey⟩

/-- Somebody asks for a prompt, with a model and without permissions. -/
def askedPrompt : CommandFrontend where
  flagBool flag := .ok (if flag = "yolo".toList then some true else none)
  flagString flag := .ok (if flag = "model".toList then some "opus".toList else none)
  flagStrings _ := .ok []
  flagPath _ := .ok none
  flagEnum _ := .ok none
  flagU16 _ := .ok none
  flagUsize _ := .ok none
  inputAvailable := false

/-- The prompt looks like a flag. -/
theorem remoteExec_received_askedPrompt : ∃ parsed, parseRawArgs (names ["exec", "prompt"])
      (names ["--model=opus", "--yolo", "--", "--plan"]) = .ok parsed ∧
    Received askedPrompt (.prompt "--plan".toList) parsed := by
  have hargv : (ResolvedFlags.resolve askedPrompt (names ["remote", "exec", "prompt"])
      remoteExecPrompt.spec).toOption.map forwardedExecFlags = some (names ["--model=opus", "--yolo"]) := by
    decide +kernel
  cases hresolved : ResolvedFlags.resolve askedPrompt (names ["remote", "exec", "prompt"])
      remoteExecPrompt.spec with
  | error error =>
    rw [hresolved] at hargv
    cases hargv
  | ok resolved =>
    rw [hresolved] at hargv
    have hflags : forwardedExecFlags resolved = names ["--model=opus", "--yolo"] := Option.some.inj hargv
    have hfrontend : askedPrompt.Restricted remoteExecPrompt.spec.flags :=
      ⟨fun _ _ _ _ _ hanswer => (by cases hanswer), fun _ _ _ _ hanswer => (by cases hanswer)⟩
    obtain ⟨parsed, hparsed, -, hreceived⟩ :=
      remoteExec_received (.prompt "--plan".toList) hfrontend hresolved
    rw [hflags] at hparsed
    exact ⟨parsed, hparsed, hreceived⟩

end Awman.Catalogue
