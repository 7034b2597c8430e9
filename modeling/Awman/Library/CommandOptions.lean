import Awman.Library.ShellWords
import Mathlib.Tactic.Tauto

/-!
# Options of the programs a command invokes

The words of each simple command are read as programs read their arguments: a word that starts with
a dash is an option, some options take the next word, and `--` ends the options.  A word made of
unquoted characters comes from the command text itself, so what is asked of a command is that no
word with a quoted part is read as an option.
-/

namespace Awman.ShellWords

/-- The parts of a word. -/
abbrev Word := List Piece

/-- The text of a word without expansions. -/
def Word.text : Word → Option (List Char)
  | [] => some []
  | .char character _ :: rest => (Word.text rest).map (character :: ·)
  | .parameter .. :: _ => none
  | .substitution .. :: _ => none

/-- Whether a part stood between quotes. -/
def Piece.isQuoted : Piece → Bool
  | .char _ quoted => quoted
  | .parameter _ quoted => quoted
  | .substitution _ quoted => quoted

/-! ## Simple commands -/

/-- An operator that separates commands. -/
def Token.isControl : Token → Bool
  | .operator symbol =>
    ([";", "&&", "||", "&", "|", "\n", "(", ")", ";;"].map String.toList).contains symbol
  | _ => false

/-- The words of a simple command without its redirections. -/
def commandWords : List Token → List Word
  | .word pieces :: rest => pieces :: commandWords rest
  | .operator _ :: .word _ :: rest => commandWords rest
  | .operator _ :: rest => commandWords rest
  | .ioNumber _ :: rest => commandWords rest
  | [] => []

/-- A word the shell reads as a part of its own grammar. -/
def isReserved (word : Word) : Bool :=
  !word.any Piece.isQuoted &&
    (["if", "then", "else", "fi", "\x7b", "\x7d", "!"].map fun name => some name.toList).contains
      (Word.text word)

/-- The simple commands of a command text. -/
def simpleCommands (tokens : List Token) : List (List Word) :=
  (tokens.splitOnP Token.isControl).map fun command =>
    (commandWords command).dropWhile isReserved

mutual

/-- The command texts inside a part of a word. -/
def Piece.inner : Piece → List (List Token)
  | .char .. => []
  | .parameter .. => []
  | .substitution tokens _ => tokens :: innerTokens tokens

/-- The command texts inside a word. -/
def innerPieces : List Piece → List (List Token)
  | [] => []
  | piece :: rest => piece.inner ++ innerPieces rest

/-- The command texts inside a token. -/
def Token.inner : Token → List (List Token)
  | .word pieces => innerPieces pieces
  | .operator _ => []
  | .ioNumber _ => []

/-- The command texts inside a command text. -/
def innerTokens : List Token → List (List Token)
  | [] => []
  | token :: rest => token.inner ++ innerTokens rest

end

/-- The commands a command text runs, the ones inside its words included. -/
def invocations (tokens : List Token) : List (List Word) :=
  (tokens :: innerTokens tokens).flatMap simpleCommands

/-! ## Options -/

/-- How a program reads the options among its arguments. -/
structure OptionSyntax where
  /-- The characters an option starts with: a dash, for a shell also a plus. -/
  starts : List Char := ['-']
  /-- The options that take the next word. -/
  withArgument : List (List Char) := []

/-- A word that is read as an option where options are read.  A lone dash is an operand. -/
def isOptionLike (starts : List Char) : Word → Bool
  | [.char '-' _] => false
  | .char first _ :: _ => starts.contains first
  | _ => false

/-- The words a program reads as options among its arguments. -/
def optionWords (options : OptionSyntax) : List Word → List Word
  | [] => []
  | word :: rest =>
    if isOptionLike options.starts word then
      if Word.text word = some ['-', '-'] then [word]
      else if (Word.text word).any options.withArgument.contains then
        match rest with
        | [] => [word]
        | _ :: rest => word :: optionWords options rest
      else word :: optionWords options rest
    else optionWords options rest

/-- The words a command reads as options; `syntaxOf` tells how the programs that read options do. -/
def commandOptions (syntaxOf : List Char → Option OptionSyntax) : List Word → List Word
  | [] => []
  | program :: arguments =>
    match (Word.text program).bind syntaxOf with
    | some options => optionWords options arguments
    | none => []

/-- The words with a quoted part that some command reads as an option. -/
def quotedOptions (syntaxOf : List Char → Option OptionSyntax) (tokens : List Token) :
    List Word :=
  (invocations tokens).flatMap fun command =>
    (commandOptions syntaxOf command).filter fun word => word.any Piece.isQuoted

/-! ## Commands one by one -/

variable {syntaxOf : List Char → Option OptionSyntax}

theorem innerTokens_append (first second : List Token) :
    innerTokens (first ++ second) = innerTokens first ++ innerTokens second := by
  induction first with
  | nil => rfl
  | cons token rest ih => simp [innerTokens, ih]

/-- The words of commands separated by an operator are looked at on each side of it. -/
theorem quotedOptions_control {first second : List Token} {separator : Token}
    (hseparator : separator.isControl = true) :
    quotedOptions syntaxOf (first ++ separator :: second) = [] ↔
      quotedOptions syntaxOf first = [] ∧ quotedOptions syntaxOf second = [] := by
  have hinner : separator.inner = [] := by
    cases separator with
    | word pieces => simp [Token.isControl] at hseparator
    | operator | ioNumber => rfl
  simp only [quotedOptions, invocations, simpleCommands, innerTokens_append, innerTokens, hinner,
    List.nil_append, List.flatMap_cons, List.flatMap_append,
    List.splitOnP_append_cons first second hseparator, List.map_append, List.append_eq_nil_iff]
  tauto

/-- One command, with the commands inside its words. -/
theorem quotedOptions_command {tokens : List Token}
    (hsingle : ∀ token ∈ tokens, token.isControl = false) :
    quotedOptions syntaxOf tokens =
      (commandOptions syntaxOf ((commandWords tokens).dropWhile isReserved)).filter
        (fun word => word.any Piece.isQuoted) ++
      ((innerTokens tokens).flatMap simpleCommands).flatMap fun command =>
        (commandOptions syntaxOf command).filter fun word => word.any Piece.isQuoted := by
  simp [quotedOptions, invocations, simpleCommands, List.splitOnP_eq_singleton hsingle]

/-- One command with one command inside its words. -/
theorem quotedOptions_substitution {tokens inner : List Token}
    (hsingle : ∀ token ∈ tokens, token.isControl = false) (hinner : innerTokens tokens = [inner])
    (hnone : innerTokens inner = []) :
    quotedOptions syntaxOf tokens =
      (commandOptions syntaxOf ((commandWords tokens).dropWhile isReserved)).filter
        (fun word => word.any Piece.isQuoted) ++ quotedOptions syntaxOf inner := by
  rw [quotedOptions_command hsingle, hinner]
  simp [quotedOptions, invocations, hnone]

theorem innerPieces_char (text : List Char) (quoted : Bool) :
    innerPieces (text.map (Piece.char · quoted)) = [] := by
  induction text with
  | nil => rfl
  | cons character rest ih => simpa [innerPieces, Piece.inner] using ih

theorem innerPieces_append (first second : List Piece) :
    innerPieces (first ++ second) = innerPieces first ++ innerPieces second := by
  induction first with
  | nil => rfl
  | cons piece rest ih => simp [innerPieces, ih]

@[simp] theorem inner_bare (text : String) : (bare text).inner = [] :=
  innerPieces_char text.toList false

@[simp] theorem inner_literal (text : List Char) : (literal text).inner = [] :=
  innerPieces_char text true

/-- A text that starts with none of these characters is not read as an option. -/
theorem isOptionLike_literal {starts text : List Char}
    (htext : ∀ first ∈ starts, text.head? ≠ some first) :
    isOptionLike starts (literalPieces text) = false := by
  cases text with
  | nil => rfl
  | cons first others =>
    have hfirst : starts.contains first = false := by
      cases hstarts : starts.contains first with
      | false => rfl
      | true => exact absurd rfl (htext first (List.contains_iff_mem.mp hstarts))
    unfold isOptionLike
    split
    · rfl
    · rename_i heq
      obtain ⟨hpiece, -⟩ := List.cons.inj heq
      exact (Piece.char.inj hpiece).1 ▸ hfirst
    · rfl

/-- A word that is not read as an option is passed over. -/
theorem optionWords_operand {options : OptionSyntax} {word : Word} {rest : List Word}
    (hword : isOptionLike options.starts word = false) :
    optionWords options (word :: rest) = optionWords options rest := by
  rw [optionWords.eq_def]
  simp [hword]

end Awman.ShellWords
