import Mathlib.Init

/-!
# Words of a shell command

A command text is cut into words and operators as a POSIX shell cuts it.  A word keeps for each of
its characters whether it was quoted, and its expansions as parts of their own, so a word whose
parts are all quoted characters is that text and nothing else to the shell.  Texts with backquotes,
braces after a dollar sign, here-documents, comments or line continuations are refused.
-/

namespace Awman.ShellWords

mutual

/-- A part of a word. -/
inductive Piece where
  /-- A character that stands for itself. -/
  | char (character : Char) (quoted : Bool)
  | parameter (name : List Char) (quoted : Bool)
  /-- The output of a command. -/
  | substitution (tokens : List Token) (quoted : Bool)

/-- A word, an operator, or the number in front of a redirection. -/
inductive Token where
  | word (pieces : List Piece)
  | operator (symbol : List Char)
  | ioNumber (digits : List Char)

end

/-- What the lexer is inside of. -/
inductive Mode where
  /-- Unquoted text. -/
  | plain
  | single
  | double
  /-- After a backslash. -/
  | escape (inDouble : Bool)
  | dollar (inDouble : Bool)
  /-- Inside the name of a parameter. -/
  | name (characters : List Char) (inDouble : Bool)
  | operator (first : Char)
  /-- The text is refused. -/
  | failed
deriving DecidableEq, Repr

/-- The tokens of one command text read so far, the latest first, and the open word. -/
structure Frame where
  /-- The tokens, the latest first. -/
  tokens : List Token
  /-- The parts of the open word. -/
  word : Option (List Piece)

/-- The state of the lexer. -/
structure State where
  /-- The innermost command text. -/
  frame : Frame
  /-- What the lexer is inside of. -/
  mode : Mode
  /-- The command texts around it, each with whether it continues in double quotes. -/
  outer : List (Frame × Bool)

namespace Frame

/-- Add a part to the open word. -/
def add (frame : Frame) (piece : Piece) : Frame :=
  { frame with word := some (frame.word.getD [] ++ [piece]) }

/-- Open a word. -/
def openWord (frame : Frame) : Frame :=
  { frame with word := some (frame.word.getD []) }

/-- Close the open word. -/
def endWord (frame : Frame) : Frame :=
  match frame.word with
  | some pieces => ⟨.word pieces :: frame.tokens, none⟩
  | none => frame

/-- Add an operator. -/
def operator (frame : Frame) (symbol : List Char) : Frame :=
  { frame with tokens := .operator symbol :: frame.tokens }

end Frame

/-- The text of a word that is a number in front of a redirection. -/
def ioDigits : List Piece → Option (List Char)
  | [] => some []
  | .char character false :: rest =>
    if character.isDigit then (ioDigits rest).map (character :: ·) else none
  | _ :: _ => none

/-- Close the word in front of a redirection. -/
def Frame.endRedirected (frame : Frame) : Frame :=
  match frame.word with
  | none => frame
  | some pieces =>
    match ioDigits pieces with
    | some (digit :: digits) => ⟨.ioNumber (digit :: digits) :: frame.tokens, none⟩
    | _ => frame.endWord

/-- A character a parameter name starts with. -/
def isNameStart (character : Char) : Bool := character.isAlpha || character == '_'

/-- A character of a parameter name. -/
def isNameChar (character : Char) : Bool := character.isAlphanum || character == '_'

/-- A name of a variable. -/
def isName : List Char → Bool
  | [] => false
  | first :: rest => isNameStart first && rest.all isNameChar

/-- A parameter named by one character. -/
def isSpecialParameter (character : Char) : Bool :=
  character.isDigit || "@*#?-$!".toList.contains character

/-- The operators of two characters. -/
def isOperatorPair (first second : Char) : Bool :=
  [('&', '&'), ('|', '|'), (';', ';'), ('>', '>'), ('>', '&'), ('<', '&'), ('<', '>'),
    ('>', '|')].contains (first, second)

namespace State

/-- The mode the text continues in after an expansion. -/
def resume (inDouble : Bool) : Mode := if inDouble then .double else .plain

/-- Refuse the text. -/
def fail (state : State) : State := { state with mode := .failed }

/-- One unquoted character. -/
def plainStep (state : State) (character : Char) : State :=
  let frame := state.frame
  match character with
  | ' ' | '\t' => { state with frame := frame.endWord, mode := .plain }
  | '\n' => { state with frame := frame.endWord.operator ['\n'], mode := .plain }
  | '\'' => { state with frame := frame.openWord, mode := .single }
  | '"' => { state with frame := frame.openWord, mode := .double }
  | '\\' => { state with frame := frame.openWord, mode := .escape false }
  | '$' => { state with frame := frame.openWord, mode := .dollar false }
  | ';' | '&' | '|' => { state with frame := frame.endWord, mode := .operator character }
  | '<' | '>' => { state with frame := frame.endRedirected, mode := .operator character }
  | '(' =>
    match state.outer with
    | [] => { state with frame := frame.endWord.operator ['('], mode := .plain }
    | _ :: _ => state.fail
  | ')' =>
    match state.outer with
    | [] => { state with frame := frame.endWord.operator [')'], mode := .plain }
    | (enclosing, inDouble) :: outer =>
      ⟨enclosing.add (.substitution frame.endWord.tokens.reverse inDouble), resume inDouble, outer⟩
  | '`' => state.fail
  | '#' =>
    if frame.word.isNone then state.fail
    else { state with frame := frame.add (.char '#' false), mode := .plain }
  | other => { state with frame := frame.add (.char other false), mode := .plain }

/-- One character inside double quotes. -/
def doubleStep (state : State) (character : Char) : State :=
  match character with
  | '"' => { state with mode := .plain }
  | '\\' => { state with mode := .escape true }
  | '$' => { state with mode := .dollar true }
  | '`' => state.fail
  | other => { state with frame := state.frame.add (.char other true), mode := .double }

/-- One character of the text the expansion stands in. -/
def baseStep (state : State) (inDouble : Bool) (character : Char) : State :=
  if inDouble then state.doubleStep character else state.plainStep character

/-- One character. -/
def step (state : State) (character : Char) : State :=
  let frame := state.frame
  match state.mode with
  | .plain => state.plainStep character
  | .single =>
    if character = '\'' then { state with mode := .plain }
    else { state with frame := frame.add (.char character true) }
  | .double => state.doubleStep character
  | .escape false =>
    if character = '\n' then state.fail
    else { state with frame := frame.add (.char character true), mode := .plain }
  | .escape true =>
    if character = '\n' then state.fail
    else if "$`\"\\".toList.contains character then
      { state with frame := frame.add (.char character true), mode := .double }
    else
      { state with frame := (frame.add (.char '\\' true)).add (.char character true), mode := .double }
  | .dollar inDouble =>
    if character = '(' then ⟨⟨[], none⟩, .plain, (frame, inDouble) :: state.outer⟩
    else if character = '{' then state.fail
    else if isNameStart character then { state with mode := .name [character] inDouble }
    else if isSpecialParameter character then
      { state with frame := frame.add (.parameter [character] inDouble), mode := resume inDouble }
    else baseStep { state with frame := frame.add (.char '$' inDouble) } inDouble character
  | .name characters inDouble =>
    if isNameChar character then { state with mode := .name (characters ++ [character]) inDouble }
    else baseStep { state with frame := frame.add (.parameter characters inDouble) } inDouble character
  | .operator first =>
    if isOperatorPair first character then
      { state with frame := frame.operator [first, character], mode := .plain }
    else if first = '<' ∧ character = '<' then state.fail
    else plainStep { state with frame := frame.operator [first] } character
  | .failed => state

/-- The state before the first character. -/
def start : State := ⟨⟨[], none⟩, .plain, []⟩

/-- The state after a text. -/
def read (state : State) (text : List Char) : State := text.foldl step state

/-- The tokens of a text that may end in this state. -/
def finish (state : State) : Option (List Token) :=
  match state.outer with
  | _ :: _ => none
  | [] =>
    match state.mode with
    | .plain => some state.frame.endWord.tokens.reverse
    | .operator first => some (state.frame.operator [first]).tokens.reverse
    | .dollar false => some (state.frame.add (.char '$' false)).endWord.tokens.reverse
    | .name characters false =>
      some (state.frame.add (.parameter characters false)).endWord.tokens.reverse
    | _ => none

end State

/-- The tokens of a command text. -/
def lex (text : List Char) : Option (List Token) := (State.start.read text).finish

/-- A word without quotes and expansions. -/
def bare (text : String) : Token := .word (text.toList.map (Piece.char · false))

/-- The parts of a text quoted as a whole. -/
def literalPieces (text : List Char) : List Piece := text.map (Piece.char · true)

/-- A word that stands for exactly this text. -/
def literal (text : List Char) : Token := .word (literalPieces text)

theorem State.read_append (state : State) (first second : List Char) :
    state.read (first ++ second) = (state.read first).read second := List.foldl_append

theorem State.read_cons (state : State) (character : Char) (rest : List Char) :
    state.read (character :: rest) = (state.step character).read rest := rfl

/-! ## Single quotes -/

/-- One character inside single quotes; a single quote is put outside of them. -/
def quotedChar (character : Char) : List Char :=
  if character = '\'' then ['\'', '\\', '\'', '\''] else [character]

/-- A text between single quotes. -/
def quoted (text : List Char) : List Char := '\'' :: (text.flatMap quotedChar ++ ['\''])

/-- A character written inside single quotes is read as itself. -/
theorem State.read_quotedChar (tokens : List Token) (pieces : List Piece) (outer : List (Frame × Bool))
    (character : Char) :
    State.read ⟨⟨tokens, some pieces⟩, .single, outer⟩ (quotedChar character) =
      ⟨⟨tokens, some (pieces ++ [.char character true])⟩, .single, outer⟩ := by
  by_cases hquote : character = '\''
  · subst hquote
    rfl
  · rw [quotedChar, if_neg hquote, State.read_cons]
    simp [State.step, hquote, Frame.add, State.read]

/-- What is written inside single quotes is read as it is. -/
theorem State.read_flatMap_quotedChar (tokens : List Token) (pieces : List Piece)
    (outer : List (Frame × Bool)) (text : List Char) :
    State.read ⟨⟨tokens, some pieces⟩, .single, outer⟩ (text.flatMap quotedChar) =
      ⟨⟨tokens, some (pieces ++ literalPieces text)⟩, .single, outer⟩ := by
  induction text generalizing pieces with
  | nil => simp [State.read, literalPieces]
  | cons character rest ih =>
    rw [List.flatMap_cons, State.read_append, State.read_quotedChar, ih]
    simp [literalPieces]

/-- A quoted text adds exactly that text to the open word, whatever its characters are. -/
theorem State.read_quoted {state : State} (hplain : state.mode = .plain) (text : List Char) :
    state.read (quoted text) =
      { state with
        frame := ⟨state.frame.tokens, some (state.frame.word.getD [] ++ literalPieces text)⟩ } := by
  obtain ⟨frame, mode, outer⟩ := state
  cases hplain
  have hopen : State.step ⟨frame, .plain, outer⟩ '\'' =
      ⟨⟨frame.tokens, some (frame.word.getD [])⟩, .single, outer⟩ := rfl
  rw [quoted, State.read_cons, hopen, State.read_append, State.read_flatMap_quotedChar]
  rfl

/-! ## Bare words -/

/-- The characters that are not read as themselves wherever they stand unquoted. -/
def specialChars : List Char :=
  [' ', '\t', '\n', '\'', '"', '\\', '$', ';', '&', '|', '<', '>', '(', ')', '`', '#']

/-- A character that is read as itself wherever it stands unquoted. -/
def isOrdinary (character : Char) : Bool := !specialChars.contains character

/-- A word of ordinary characters. -/
def isBareWord (word : String) : Bool := !word.toList.isEmpty && word.toList.all isOrdinary

/-- Words between blanks. -/
def phraseText (word : String) (words : List String) : List Char :=
  word.toList ++ words.flatMap fun next => ' ' :: next.toList

/-- A word of ordinary characters, given by its characters. -/
def isBareText (word : List Char) : Bool := !word.isEmpty && word.all isOrdinary

/-- Whether a text is made of these ordinary words, all given by their characters. -/
def isPhrase (text word : List Char) (words : List (List Char)) : Bool :=
  isBareText word && words.all isBareText &&
    text == word ++ words.flatMap fun next => ' ' :: next

/-- The words are spelled with these characters. -/
inductive Spelled : List String → List (List Char) → Prop where
  | nil : Spelled [] []
  | cons {words : List String} {spellings : List (List Char)} (word : List Char)
      (rest : Spelled words spellings) : Spelled (String.ofList word :: words) (word :: spellings)

theorem isBareWord_ofList {word : List Char} (hword : isBareText word = true) :
    isBareWord (String.ofList word) = true := by
  rw [isBareWord, String.toList_ofList]
  exact hword

namespace Spelled

variable {words : List String} {spellings : List (List Char)}

/-- Words are ordinary when their characters are. -/
theorem all_isBareWord (hspelled : Spelled words spellings) :
    words.all isBareWord = spellings.all isBareText := by
  induction hspelled with
  | nil => rfl
  | cons word rest ih =>
    have hword : isBareWord (String.ofList word) = isBareText word := by
      rw [isBareWord, String.toList_ofList, isBareText]
    rw [List.all_cons, List.all_cons, hword, ih]

/-- The text of words behind blanks is made of their characters. -/
theorem flatMap_toList (hspelled : Spelled words spellings) :
    (words.flatMap fun next => ' ' :: next.toList) = spellings.flatMap fun next => ' ' :: next := by
  induction hspelled with
  | nil => rfl
  | cons word rest ih => rw [List.flatMap_cons, List.flatMap_cons, String.toList_ofList, ih]

end Spelled

/-- An ordinary character is added to the word as it is. -/
theorem State.plainStep_ordinary {character : Char} (hordinary : isOrdinary character = true)
    (state : State) :
    state.plainStep character =
      ⟨state.frame.add (.char character false), .plain, state.outer⟩ := by
  have hnotSpecial : character ∉ specialChars := by simpa [isOrdinary] using hordinary
  simp only [specialChars, List.mem_cons, not_or] at hnotSpecial
  unfold State.plainStep
  split <;> simp_all

variable {text : List Char}

/-- Ordinary characters are added to the open word as they are. -/
theorem State.read_ordinary (hordinary : text.all isOrdinary = true) (tokens : List Token)
    (pieces : List Piece) (outer : List (Frame × Bool)) :
    State.read ⟨⟨tokens, some pieces⟩, .plain, outer⟩ text =
      ⟨⟨tokens, some (pieces ++ text.map (Piece.char · false))⟩, .plain, outer⟩ := by
  induction text generalizing pieces with
  | nil => simp [State.read]
  | cons character rest ih =>
    rw [List.all_cons, Bool.and_eq_true] at hordinary
    rw [State.read_cons, State.step, State.plainStep_ordinary hordinary.1]
    simp only [Frame.add, Option.getD_some]
    rw [ih hordinary.2]
    simp

/-- A word of ordinary characters, read from its start. -/
theorem State.read_bareWord {word : String} (hword : isBareWord word = true) (before : List Token)
    (outer : List (Frame × Bool)) :
    State.read ⟨⟨before, none⟩, .plain, outer⟩ word.toList =
      ⟨⟨before, some (word.toList.map (Piece.char · false))⟩, .plain, outer⟩ := by
  unfold isBareWord at hword
  cases hchars : word.toList with
  | nil => simp [hchars] at hword
  | cons first rest =>
    rw [hchars, Bool.and_eq_true, List.all_cons, Bool.and_eq_true] at hword
    rw [State.read_cons, State.step, State.plainStep_ordinary hword.2.1]
    exact State.read_ordinary hword.2.2 before [.char first false] outer

/-! ## Texts read up to a delimiter -/

/-- Where a word may start inside these command texts, the text reads as these tokens once a
delimiter closes its last word. -/
def ReadsUnder (outer : List (Frame × Bool)) (text : List Char) (tokens : List Token) : Prop :=
  ∀ before, ∃ after word,
    State.read ⟨⟨before, none⟩, .plain, outer⟩ text = ⟨⟨after, word⟩, .plain, outer⟩ ∧
    (Frame.endWord ⟨after, word⟩).tokens = tokens.reverse ++ before

/-- The text reads as these tokens inside any command texts. -/
def Reads (text : List Char) (tokens : List Token) : Prop :=
  ∀ outer, ReadsUnder outer text tokens

namespace ReadsUnder

variable {outer : List (Frame × Bool)}

/-- A whole command text reads as its tokens. -/
theorem lex {tokens : List Token} (hreads : ReadsUnder [] text tokens) : lex text = some tokens := by
  obtain ⟨after, word, hread, htokens⟩ := hreads []
  rw [ShellWords.lex, State.start, hread, State.finish]
  simp [htokens]

/-- A blank closes the last word, and the rest is read from there. -/
theorem blank {first second : List Char} {left right : List Token} (hfirst : ReadsUnder outer first left)
    (hsecond : ReadsUnder outer second right) :
    ReadsUnder outer (first ++ ' ' :: second) (left ++ right) := by
  intro before
  obtain ⟨middle, word, hread, htokens⟩ := hfirst before
  obtain ⟨after, last, hrest, hall⟩ := hsecond (left.reverse ++ before)
  have hblank : State.step ⟨⟨middle, word⟩, .plain, outer⟩ ' ' =
      ⟨⟨left.reverse ++ before, none⟩, .plain, outer⟩ := by
    cases word with
    | none | some =>
      rw [← htokens]
      rfl
  refine ⟨after, last, ?_, ?_⟩
  · rw [State.read_append, hread, State.read_cons, hblank, hrest]
  · rw [hall]
    simp

/-- A semicolon and a blank separate two command texts. -/
theorem semicolon {first second : List Char} {left right : List Token}
    (hfirst : ReadsUnder outer first left) (hsecond : ReadsUnder outer second right) :
    ReadsUnder outer (first ++ ';' :: ' ' :: second) (left ++ .operator [';'] :: right) := by
  intro before
  obtain ⟨middle, word, hread, htokens⟩ := hfirst before
  obtain ⟨after, last, hrest, hall⟩ := hsecond (.operator [';'] :: (left.reverse ++ before))
  have hseparator : State.read ⟨⟨middle, word⟩, .plain, outer⟩ (';' :: ' ' :: second) =
      State.read ⟨⟨.operator [';'] :: (left.reverse ++ before), none⟩, .plain, outer⟩ second := by
    cases word with
    | none | some =>
      rw [← htokens]
      rfl
  refine ⟨after, last, ?_, ?_⟩
  · rw [State.read_append, hread, hseparator, hrest]
  · rw [hall]
    simp

/-- A word behind which a branch of a `case` starts. -/
theorem branch {word : String} (hword : isBareWord word = true) :
    ReadsUnder [] (word.toList ++ [')']) [bare word, .operator [')']] := by
  intro before
  refine ⟨.operator [')'] :: bare word :: before, none, ?_, rfl⟩
  rw [State.read_append, State.read_bareWord hword]
  rfl

end ReadsUnder

namespace Reads

/-- A whole command text reads as its tokens. -/
theorem lex {tokens : List Token} (hreads : Reads text tokens) :
    ShellWords.lex text = some tokens := (hreads []).lex

/-- A quoted text reads as one word that is exactly that text. -/
theorem quoted (text : List Char) : Reads (quoted text) [literal text] := by
  intro outer before
  exact ⟨before, some (literalPieces text), State.read_quoted rfl text, rfl⟩

section

variable {word : String} (hword : isBareWord word = true)
include hword

/-- A word of ordinary characters reads as itself. -/
theorem bareWord :
    Reads word.toList [bare word] := by
  intro outer before
  exact ⟨before, some (word.toList.map (Piece.char · false)), State.read_bareWord hword before outer, rfl⟩

/-- A redirection of the errors to a file. -/
theorem redirectErrors :
    Reads ('2' :: '>' :: word.toList) [.ioNumber ['2'], .operator ['>'], bare word] := by
  intro outer before
  refine ⟨.operator ['>'] :: .ioNumber ['2'] :: before,
    some (word.toList.map (Piece.char · false)), ?_, rfl⟩
  rw [← State.read_bareWord hword]
  have hopen : State.read ⟨⟨before, none⟩, .plain, outer⟩ ['2', '>'] =
      ⟨⟨.ioNumber ['2'] :: before, none⟩, .operator '>', outer⟩ := rfl
  cases hchars : word.toList with
  | nil => simp [isBareWord, hchars] at hword
  | cons first rest =>
    have hordinary : isOrdinary first = true := by
      rw [isBareWord, hchars, Bool.and_eq_true, List.all_cons, Bool.and_eq_true] at hword
      exact hword.2.1
    have hsingle : isOperatorPair '>' first = false := by
      have hnotSpecial : first ∉ specialChars := by simpa [isOrdinary] using hordinary
      simp only [specialChars, List.mem_cons, not_or] at hnotSpecial
      simp [isOperatorPair, hnotSpecial]
    have hstep : State.step ⟨⟨.ioNumber ['2'] :: before, none⟩, .operator '>', outer⟩ first =
        State.step ⟨⟨.operator ['>'] :: .ioNumber ['2'] :: before, none⟩, .plain, outer⟩ first := by
      simp [State.step, hsingle, Frame.operator, State.plainStep_ordinary hordinary]
    calc
      State.read ⟨⟨before, none⟩, .plain, outer⟩ ('2' :: '>' :: first :: rest)
          = ((State.read ⟨⟨before, none⟩, .plain, outer⟩ ['2', '>']).step first).read rest := rfl
      _ = (State.step ⟨⟨.operator ['>'] :: .ioNumber ['2'] :: before, none⟩, .plain, outer⟩
            first).read rest := by rw [hopen, hstep]

/-- A quoted text behind ordinary characters is a part of one word. -/
theorem bare_quoted (text : List Char) :
    Reads (word.toList ++ ShellWords.quoted text)
      [.word (word.toList.map (Piece.char · false) ++ literalPieces text)] := by
  intro outer before
  refine ⟨before, some (word.toList.map (Piece.char · false) ++ literalPieces text), ?_, rfl⟩
  rw [State.read_append, State.read_bareWord hword, State.read_quoted rfl]
  rfl

end

/-- Ordinary characters between double quotes are read as they are. -/
theorem read_ordinary_double (hordinary : text.all isOrdinary = true) (before : List Token)
    (pieces : List Piece) (outer : List (Frame × Bool)) :
    State.read ⟨⟨before, some pieces⟩, .double, outer⟩ text =
      ⟨⟨before, some (pieces ++ literalPieces text)⟩, .double, outer⟩ := by
  induction text generalizing pieces with
  | nil => simp [State.read, literalPieces]
  | cons character rest ih =>
    rw [List.all_cons, Bool.and_eq_true] at hordinary
    have hstep : State.step ⟨⟨before, some pieces⟩, .double, outer⟩ character =
        ⟨⟨before, some (pieces ++ [.char character true])⟩, .double, outer⟩ := by
      have hnotSpecial : character ∉ specialChars := by simpa [isOrdinary] using hordinary.1
      simp only [specialChars, List.mem_cons, not_or] at hnotSpecial
      unfold State.step State.doubleStep
      split <;> simp_all [Frame.add]
    rw [State.read_cons, hstep, ih hordinary.2]
    simp [literalPieces]

/-- The characters of a parameter name are collected. -/
theorem read_nameChars (hname : text.all isNameChar = true) (frame : Frame) (characters : List Char)
    (inDouble : Bool) (outer : List (Frame × Bool)) :
    State.read ⟨frame, .name characters inDouble, outer⟩ text =
      ⟨frame, .name (characters ++ text) inDouble, outer⟩ := by
  induction text generalizing characters with
  | nil => simp [State.read]
  | cons character rest ih =>
    rw [List.all_cons, Bool.and_eq_true] at hname
    have hstep : State.step ⟨frame, .name characters inDouble, outer⟩ character =
        ⟨frame, .name (characters ++ [character]) inDouble, outer⟩ := by
      simp [State.step, hname.1]
    rw [State.read_cons, hstep, ih hname.2]
    simp

/-- The name of a variable behind its dollar sign. -/
theorem read_variable {name : List Char} (hname : isName name = true) (frame : Frame) (inDouble : Bool)
    (outer : List (Frame × Bool)) :
    State.read ⟨frame, .dollar inDouble, outer⟩ name = ⟨frame, .name name inDouble, outer⟩ := by
  cases name with
  | nil => simp [isName] at hname
  | cons first rest =>
    rw [isName, Bool.and_eq_true] at hname
    have hnotOpen : first ≠ '(' ∧ first ≠ '{' := by
      constructor
      · rintro rfl
        exact absurd hname.1 (by decide)
      · rintro rfl
        exact absurd hname.1 (by decide)
    have hfirst : State.step ⟨frame, .dollar inDouble, outer⟩ first =
        ⟨frame, .name [first] inDouble, outer⟩ := by
      simp [State.step, hname.1, hnotOpen]
    rw [State.read_cons, hfirst, read_nameChars hname.2]
    rfl

/-- The value of a variable behind ordinary characters, between double quotes, is one word. -/
theorem quotedVariable (front : List Char) {name : List Char} (hfront : front.all isOrdinary = true)
    (hname : isName name = true) :
    Reads ('"' :: (front ++ '$' :: (name ++ ['"'])))
      [.word (literalPieces front ++ [.parameter name true])] := by
  intro outer before
  refine ⟨before, some (literalPieces front ++ [.parameter name true]), ?_, rfl⟩
  have hopen : State.step ⟨⟨before, none⟩, .plain, outer⟩ '"' =
      ⟨⟨before, some []⟩, .double, outer⟩ := rfl
  have hdollar (pieces : List Piece) : State.step ⟨⟨before, some pieces⟩, .double, outer⟩ '$' =
      ⟨⟨before, some pieces⟩, .dollar true, outer⟩ := rfl
  have hclose (frame : Frame) (characters : List Char) :
      State.read ⟨frame, .name characters true, outer⟩ ['"'] =
        ⟨frame.add (.parameter characters true), .plain, outer⟩ := rfl
  rw [State.read_cons, hopen, State.read_append, read_ordinary_double hfront, State.read_cons,
    hdollar, State.read_append, read_variable hname, hclose]
  simp [Frame.add]

/-- An assignment of a variable at the end of a branch of a `case`. -/
theorem assignment {word : String} (name : List Char) (hword : isBareWord word = true)
    (hname : isName name = true) :
    Reads (word.toList ++ '$' :: (name ++ [';', ';']))
      [.word (word.toList.map (Piece.char · false) ++ [.parameter name false]),
        .operator [';', ';']] := by
  intro outer before
  refine ⟨.operator [';', ';'] ::
    .word (word.toList.map (Piece.char · false) ++ [.parameter name false]) :: before, none, ?_, rfl⟩
  have hdollar (pieces : List Piece) : State.step ⟨⟨before, some pieces⟩, .plain, outer⟩ '$' =
      ⟨⟨before, some pieces⟩, .dollar false, outer⟩ := rfl
  have hclose (pieces : List Piece) (characters : List Char) :
      State.read ⟨⟨before, some pieces⟩, .name characters false, outer⟩ [';', ';'] =
        ⟨⟨.operator [';', ';'] :: .word (pieces ++ [.parameter characters false]) :: before, none⟩,
          .plain, outer⟩ := rfl
  rw [State.read_append, State.read_bareWord hword, State.read_cons, hdollar, State.read_append,
    read_variable hname, hclose]

/-- A blank closes the last word, and the rest is read from there. -/
theorem blank {first second : List Char} {left right : List Token} (hfirst : Reads first left)
    (hsecond : Reads second right) : Reads (first ++ ' ' :: second) (left ++ right) :=
  fun outer => (hfirst outer).blank (hsecond outer)

/-- Ordinary words between blanks read as themselves. -/
theorem bareWords (word : String) (words : List String) (hword : isBareWord word = true)
    (hwords : words.all isBareWord = true) :
    Reads (phraseText word words) (bare word :: words.map bare) := by
  induction words generalizing word with
  | nil => simpa [phraseText] using bareWord hword
  | cons next rest ih =>
    rw [List.all_cons, Bool.and_eq_true] at hwords
    simpa [phraseText] using (bareWord hword).blank (ih next hwords.1 hwords.2)

/-- A word spelled with ordinary characters reads as itself. -/
theorem spelledWord {word : List Char} (hword : isBareText word = true) :
    Reads (String.ofList word).toList [bare (String.ofList word)] :=
  bareWord (isBareWord_ofList hword)

/-- A text made of ordinary words between blanks reads as these words. -/
theorem phrase {word : List Char} {words : List String} {spellings : List (List Char)}
    (hspelled : Spelled words spellings) (hphrase : isPhrase text word spellings = true) :
    Reads (String.ofList text).toList (bare (String.ofList word) :: words.map bare) := by
  simp only [isPhrase, Bool.and_eq_true, beq_iff_eq] at hphrase
  have hwords : words.all isBareWord = true := by
    rw [hspelled.all_isBareWord]
    exact hphrase.1.2
  have htext : phraseText (String.ofList word) words = text := by
    rw [phraseText, String.toList_ofList, hspelled.flatMap_toList]
    exact hphrase.2.symm
  rw [String.toList_ofList, ← htext]
  exact bareWords (String.ofList word) words (isBareWord_ofList hphrase.1.1) hwords

/-- A semicolon and a blank separate two command texts. -/
theorem semicolon {first second : List Char} {left right : List Token} (hfirst : Reads first left)
    (hsecond : Reads second right) :
    Reads (first ++ ';' :: ' ' :: second) (left ++ .operator [';'] :: right) :=
  fun outer => (hfirst outer).semicolon (hsecond outer)

/-- The output of a command between double quotes is one word. -/
theorem substitution {tokens : List Token} (hreads : Reads text tokens) :
    Reads ('"' :: '$' :: '(' :: (text ++ [')', '"'])) [.word [.substitution tokens true]] := by
  intro outer before
  obtain ⟨after, word, hread, htokens⟩ := hreads ((⟨before, some []⟩, true) :: outer) []
  refine ⟨before, some [.substitution tokens true], ?_, rfl⟩
  have hopen : State.read ⟨⟨before, none⟩, .plain, outer⟩ ['"', '$', '('] =
      ⟨⟨[], none⟩, .plain, (⟨before, some []⟩, true) :: outer⟩ := rfl
  have hclose : State.read ⟨⟨after, word⟩, .plain, (⟨before, some []⟩, true) :: outer⟩ [')', '"'] =
      ⟨⟨before, some [.substitution (Frame.endWord ⟨after, word⟩).tokens.reverse true]⟩, .plain,
        outer⟩ := rfl
  calc
    State.read ⟨⟨before, none⟩, .plain, outer⟩ ('"' :: '$' :: '(' :: (text ++ [')', '"']))
        = (State.read ⟨⟨before, none⟩, .plain, outer⟩ ['"', '$', '(']).read (text ++ [')', '"']) :=
      rfl
    _ = ⟨⟨before, some [.substitution (Frame.endWord ⟨after, word⟩).tokens.reverse true]⟩, .plain,
          outer⟩ := by rw [hopen, State.read_append, hread, hclose]
    _ = ⟨⟨before, some [.substitution tokens true]⟩, .plain, outer⟩ := by
      rw [htokens]
      simp

end Reads

end Awman.ShellWords
