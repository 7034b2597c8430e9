import Awman.PhaseStepWords

/-!
# The credential helper

With a token, git is configured with a helper that is itself a shell program, written inside a
quoted word of the step's command.  The host and the path of the approved destination are quoted
inside that program, so they pass two levels of quoting.
-/

namespace Awman.Engine

open Awman.ShellWords

/-! ## Rewriting the helper -/

/-- A text behind another one is rewritten on its own unless it starts with a double quote. -/
theorem unescapeQuotes_append {second : List Char} (hsecond : second.head? ≠ some '"')
    (first : List Char) :
    unescapeQuotes (first ++ second) = unescapeQuotes first ++ unescapeQuotes second := by
  induction first using unescapeQuotes.induct with
  | case1 rest ih => simp [unescapeQuotes, ih]
  | case2 character rest hother ih =>
    have hwhole : ∀ tail, character = '\\' → rest ++ second = '"' :: tail → False := by
      intro tail hcharacter htail
      cases rest with
      | nil => exact hsecond (by rw [List.nil_append] at htail; rw [htail]; rfl)
      | cons next others =>
        rw [List.cons_append, List.cons.injEq] at htail
        exact hother others hcharacter (by rw [htail.1])
    rw [List.cons_append, unescapeQuotes.eq_2 character (rest ++ second) hwhole, ih,
      unescapeQuotes.eq_2 character rest hother, List.cons_append]
  | case3 => simp [unescapeQuotes]

/-- A quoted text stays one, with its own text rewritten. -/
theorem unescapeQuotes_quoted (text : List Char) :
    unescapeQuotes (quoted text) = quoted (unescapeQuotes text) := by
  have hbody : unescapeQuotes (text.flatMap quotedChar) =
      (unescapeQuotes text).flatMap quotedChar := by
    induction text using unescapeQuotes.induct with
    | case1 rest ih => simp [unescapeQuotes, quotedChar, ih]
    | case2 character rest hother ih =>
      rw [unescapeQuotes.eq_2 character rest hother, List.flatMap_cons, List.flatMap_cons, ← ih]
      have hhead : character = '\\' → (rest.flatMap quotedChar).head? ≠ some '"' := by
        intro hcharacter
        cases rest with
        | nil => simp
        | cons next others =>
          have hnext : next ≠ '"' := fun hnext => hother others hcharacter (by rw [hnext])
          by_cases hquote : next = '\''
          · simp [quotedChar, hquote]
          · simpa [quotedChar, hquote] using hnext
      by_cases hquote : character = '\''
      · simp [quotedChar, hquote, unescapeQuotes]
      · rw [quotedChar, if_neg hquote, List.singleton_append, List.singleton_append,
          unescapeQuotes.eq_2]
        intro tail hcharacter htail
        exact hhead hcharacter (by rw [htail]; rfl)
    | case3 => rfl
  have hclosed : unescapeQuotes (text.flatMap quotedChar ++ ['\'']) =
      unescapeQuotes (text.flatMap quotedChar) ++ ['\''] :=
    unescapeQuotes_append (by simp) _
  have hopen : unescapeQuotes (quoted text) =
      '\'' :: unescapeQuotes (text.flatMap quotedChar ++ ['\'']) :=
    unescapeQuotes.eq_2 '\'' _ (fun _ hquote => absurd hquote (by decide))
  rw [hopen, hclosed, hbody, quoted]

/-! ## The words of the helper -/

/-- A test that a variable is a text. -/
def testTokens (parameter : String) (expected : Token) : List Token :=
  [bare "[", .word [.parameter parameter.toList true], bare "=", expected, bare "]"]

/-- A branch that keeps the value of a key. -/
def keepTokens (key : String) : List Token :=
  [bare key, operatorToken ")",
    .word ((key ++ "=").toList.map (Piece.char · false) ++ [.parameter ['v'] false]),
    operatorToken ";;"]

/-- The program git runs for the credentials of a destination. -/
def credentialTokens (host path envVar : List Char) : List Token :=
  [bare "f", operatorToken "(", operatorToken ")", bare "\x7b", bare "protocol=", operatorToken ";",
    bare "host=", operatorToken ";", bare "path=", operatorToken ";", bare "while",
    .word ("IFS=".toList.map (Piece.char · false) ++ literalPieces ['='])] ++
  bareWords ["read", "-r", "k", "v"] ++
  [operatorToken ";", bare "do", bare "case", .word [.parameter ['k'] true], bare "in"] ++
  keepTokens "protocol" ++ keepTokens "host" ++ keepTokens "path" ++
  [bare "esac", operatorToken ";", bare "done", operatorToken ";", bare "if"] ++
  testTokens "1" (bare "get") ++ [operatorToken "&&"] ++
  testTokens "protocol" (bare "https") ++ [operatorToken "&&"] ++
  testTokens "host" (literal host) ++ [operatorToken "&&"] ++
  testTokens "path" (literal path) ++
  [operatorToken ";", bare "then", bare "printf", literalWord "%s\\n",
    literalWord "username=x-access-token",
    .word (literalPieces "password=".toList ++ [.parameter envVar true]), operatorToken ";",
    bare "fi", operatorToken ";", bare "\x7d", operatorToken ";", bare "f"]

/-- A test of a word against a text that reads as one word. -/
theorem reads_test {tested text : List Char} {parameter : String} {expected : Token}
    (htested : Reads tested [.word [.parameter parameter.toList true]]) (htext : Reads text [expected]) :
    Reads ('[' :: ' ' :: (tested ++ ' ' :: '=' :: ' ' :: (text ++ [' ', ']'])))
      (testTokens parameter expected) := by
  have hopen : Reads "[".toList [bare "["] := Reads.spelledWord (by decide)
  have hequal : Reads "=".toList [bare "="] := Reads.spelledWord (by decide)
  have hclose : Reads "]".toList [bare "]"] := Reads.spelledWord (by decide)
  have hreads := hopen.blank (htested.blank (hequal.blank (htext.blank hclose)))
  simpa [testTokens] using hreads

/-- A variable between double quotes. -/
theorem reads_variable {name : String} (hname : isName name.toList = true) :
    Reads ('"' :: '$' :: (name.toList ++ ['"'])) [.word [.parameter name.toList true]] :=
  Reads.quotedVariable [] rfl hname

/-- A branch that keeps the value of a key reads as such. -/
theorem reads_keep (key : String) (hkey : isBareWord key = true)
    (hassigned : isBareWord (key ++ "=") = true) :
    ReadsUnder [] ((key.toList ++ [')']) ++ ' ' :: ((key ++ "=").toList ++ ['$', 'v', ';', ';']))
      (keepTokens key) := by
  have hassignment := Reads.assignment ['v'] hassigned (by decide)
  have hreads := (ReadsUnder.branch hkey).blank (hassignment [])
  simpa [keepTokens, operatorToken] using hreads

/-- The text of the program up to the test of the destination. -/
def credentialReader : String :=
  "f() \x7b protocol=; host=; path=; while IFS='=' read -r k v; do case \"$k\" " ++
    "in protocol) protocol=$v;; host) host=$v;; path) path=$v;; esac; done"

theorem credentialReader_toList :
    credentialReader.toList =
      "f() \x7b protocol=; host=; path=; while IFS='=' read -r k v; do case \"$k\" ".toList ++
        "in protocol) protocol=$v;; host) host=$v;; path) path=$v;; esac; done".toList :=
  String.toList_append

theorem reads_credentialReader :
    ReadsUnder [] credentialReader.toList
      ([bare "f", operatorToken "(", operatorToken ")", bare "\x7b", bare "protocol=", operatorToken ";",
        bare "host=", operatorToken ";", bare "path=", operatorToken ";", bare "while",
        .word ("IFS=".toList.map (Piece.char · false) ++ literalPieces ['='])] ++
      bareWords ["read", "-r", "k", "v"] ++
      [operatorToken ";", bare "do", bare "case", .word [.parameter ['k'] true], bare "in"] ++
      keepTokens "protocol" ++ keepTokens "host" ++ keepTokens "path" ++
      [bare "esac", operatorToken ";", bare "done"]) := by
  have hname : ReadsUnder [] "f()".toList [bare "f", operatorToken "(", operatorToken ")"] := by
    intro before
    exact ⟨[operatorToken ")", operatorToken "(", bare "f"] ++ before, none, rfl, rfl⟩
  have hprotocol : Reads "\x7b protocol=".toList (bareWords ["\x7b", "protocol="]) :=
    Reads.phrase (by repeat constructor) (by decide)
  have hhost : Reads "host=".toList [bare "host="] := Reads.spelledWord (by decide)
  have hpath : Reads "path=".toList [bare "path="] := Reads.spelledWord (by decide)
  have hwhile : Reads "while".toList [bare "while"] := Reads.spelledWord (by decide)
  have hsplit := Reads.bare_quoted (by decide : isBareWord "IFS=" = true) ['=']
  have hread : Reads "read -r k v".toList (bareWords ["read", "-r", "k", "v"]) :=
    Reads.phrase (by repeat constructor) (by decide)
  have hcase : Reads "do case".toList (bareWords ["do", "case"]) :=
    Reads.phrase (by repeat constructor) (by decide)
  have hkey := reads_variable (by decide : isName "k".toList = true)
  have hin : Reads "in".toList [bare "in"] := Reads.spelledWord (by decide)
  have hesac : Reads "esac".toList [bare "esac"] := Reads.spelledWord (by decide)
  have hdone : Reads "done".toList [bare "done"] := Reads.spelledWord (by decide)
  have hkeeps := (reads_keep "protocol" (by decide) (by decide)).blank
    ((reads_keep "host" (by decide) (by decide)).blank
      ((reads_keep "path" (by decide) (by decide)).blank (hesac [])))
  have hloop := ((hcase.blank (hkey.blank hin)) []).blank hkeeps
  have hcondition := (hwhile.blank (hsplit.blank hread)) []
  have hreads := (hname.blank (hprotocol [])).semicolon ((hhost []).semicolon
    ((hpath []).semicolon (hcondition.semicolon (hloop.semicolon (hdone [])))))
  unfold credentialReader
  simpa [operatorToken, bareWords, quoted, quotedChar] using hreads

/-- The program with its rewritten host and path. -/
def credentialProgram (host path envVar : List Char) : List Char :=
  credentialReader.toList ++ "; if [ \"$1\" = get ] && [ \"$protocol\" = https ]".toList ++
    " && [ \"$host\" = ".toList ++ quoted host ++ " ] && [ \"$path\" = ".toList ++ quoted path ++
    " ]; then printf '%s\\n' 'username=x-access-token' \"password=$".toList ++ envVar ++
    "\"; fi; \x7d; f".toList

/-- The program reads as its fixed words with the host, the path and the variable at their
places. -/
theorem lex_credentialProgram (host path : List Char) {envVar : List Char} (henv : isName envVar = true) :
    lex (credentialProgram host path envVar) = some (credentialTokens host path envVar) := by
  have hif : Reads "if".toList [bare "if"] := Reads.spelledWord (by decide)
  have hand : Reads "&&".toList [operatorToken "&&"] := fun _ _ => ⟨_, _, rfl, rfl⟩
  have hfirst : Reads "\"$1\"".toList [.word [.parameter "1".toList true]] := by
    intro outer before
    exact ⟨before, some [.parameter ['1'] true], rfl, rfl⟩
  have hget : Reads "get".toList [bare "get"] := Reads.spelledWord (by decide)
  have hhttps : Reads "https".toList [bare "https"] := Reads.spelledWord (by decide)
  have hthen : Reads "then printf".toList (bareWords ["then", "printf"]) :=
    Reads.phrase (by repeat constructor) (by decide)
  have hformat := Reads.quoted "%s\\n".toList
  have husername := Reads.quoted "username=x-access-token".toList
  have hpassword := Reads.quotedVariable "password=".toList (by decide) henv
  have hfi : Reads "fi".toList [bare "fi"] := Reads.spelledWord (by decide)
  have hclose : Reads "\x7d".toList [bare "\x7d"] := Reads.spelledWord (by decide)
  have hcall : Reads "f".toList [bare "f"] := Reads.spelledWord (by decide)
  have htests := (reads_test hfirst hget).blank (hand.blank
    ((reads_test (reads_variable (by decide : isName "protocol".toList = true)) hhttps).blank
      (hand.blank ((reads_test (reads_variable (by decide : isName "host".toList = true))
        (Reads.quoted host)).blank (hand.blank
          (reads_test (reads_variable (by decide : isName "path".toList = true))
            (Reads.quoted path)))))))
  have hanswer := hthen.blank (hformat.blank (husername.blank hpassword))
  have hreads := reads_credentialReader.semicolon
    (((hif.blank htests).semicolon (hanswer.semicolon (hfi.semicolon (hclose.semicolon hcall)))) [])
  have hlex := hreads.lex
  unfold credentialProgram credentialTokens
  simpa [operatorToken, bareWords, literalWord, quoted, quotedChar] using hlex

/-- A name holds nothing to rewrite. -/
theorem unescapeQuotes_name {text : List Char} (hname : text.all isNameChar = true) :
    unescapeQuotes text = text := by
  induction text with
  | nil => rfl
  | cons character rest ih =>
    rw [List.all_cons, Bool.and_eq_true] at hname
    have hcharacter : character ≠ '\\' := by
      rintro rfl
      exact absurd hname.1 (by decide)
    rw [unescapeQuotes.eq_2 character rest fun _ hbackslash => absurd hbackslash hcharacter,
      ih hname.2]

/-- What git is configured with is the program, its host and path rewritten. -/
theorem credentialHelper_toList (remoteUrl : Option String) {envVar : String}
    (henv : isName envVar.toList = true) :
    (credentialHelper envVar remoteUrl).toList =
      "credential.helper=!".toList ++
        credentialProgram (unescapeQuotes (httpsDestination remoteUrl).1.toList)
          (unescapeQuotes (httpsDestination remoteUrl).2.toList) envVar.toList := by
  have hchars : envVar.toList.all isNameChar = true := by
    cases hname : envVar.toList with
    | nil => rfl
    | cons first rest =>
      rw [hname, isName, Bool.and_eq_true] at henv
      rw [List.all_cons, henv.2, Bool.and_true]
      simp only [isNameStart, isNameChar, Bool.or_eq_true] at henv ⊢
      exact henv.1.imp_left fun halpha => by rw [Char.isAlphanum, halpha, Bool.true_or]
  have henvHead : envVar.toList.head? ≠ some '"' := by
    intro hhead
    obtain ⟨rest, hrest⟩ : ∃ rest, envVar.toList = '"' :: rest := by
      cases hname : envVar.toList with
      | nil => simp [hname] at hhead
      | cons first rest => exact ⟨rest, by simpa [hname] using hhead⟩
    rw [hrest, List.all_cons, Bool.and_eq_true] at hchars
    exact absurd hchars.1 (by decide)
  have hpassword : (envVar.toList ++ "\\\"; fi; \x7d; f".toList).head? ≠ some '"' := by
    cases hname : envVar.toList with
    | nil => simp
    | cons first others => simpa [hname] using henvHead
  have hreader : unescapeQuotes
      "credential.helper=!f() \x7b protocol=; host=; path=; while IFS='=' read -r k v; do case \\\"$k\\\" ".toList =
      "credential.helper=!f() \x7b protocol=; host=; path=; while IFS='=' read -r k v; do case \"$k\" ".toList := by
    rw [String.toList_ofList, String.toList_ofList]
    decide
  have hkeeps : unescapeQuotes
      "in protocol) protocol=$v;; host) host=$v;; path) path=$v;; esac; done; if [ \\\"$1\\\" = get ] ".toList =
      "in protocol) protocol=$v;; host) host=$v;; path) path=$v;; esac; done; if [ \"$1\" = get ] ".toList := by
    rw [String.toList_ofList, String.toList_ofList]
    decide
  have hhost : unescapeQuotes "&& [ \\\"$protocol\\\" = https ] && [ \\\"$host\\\" = ".toList =
      "&& [ \"$protocol\" = https ] && [ \"$host\" = ".toList := by
    rw [String.toList_ofList, String.toList_ofList]
    decide
  have hpath : unescapeQuotes " ] && [ \\\"$path\\\" = ".toList =
      " ] && [ \"$path\" = ".toList := by
    rw [String.toList_ofList, String.toList_ofList]
    decide
  have hanswer : unescapeQuotes
      " ]; then printf '%s\\n' 'username=x-access-token' \\\"password=$".toList =
      " ]; then printf '%s\\n' 'username=x-access-token' \"password=$".toList := by
    rw [String.toList_ofList, String.toList_ofList]
    decide
  have hend : unescapeQuotes "\\\"; fi; \x7d; f".toList = "\"; fi; \x7d; f".toList := by
    rw [String.toList_ofList, String.toList_ofList]
    decide
  unfold credentialHelper
  rw [String.toList_ofList]
  simp only [String.toList_append, shQuote_toList, List.append_assoc]
  rw [unescapeQuotes_append (by simp), unescapeQuotes_append (by simp),
    unescapeQuotes_append (by simp [quoted]), unescapeQuotes_append (by simp),
    unescapeQuotes_append (by simp [quoted]), unescapeQuotes_append (by simp),
    unescapeQuotes_append hpassword, unescapeQuotes_append (by simp),
    unescapeQuotes_quoted, unescapeQuotes_quoted, unescapeQuotes_name hchars, hreader, hkeeps, hhost,
    hpath, hanswer, hend]
  have hfront :
      "credential.helper=!f() \x7b protocol=; host=; path=; while IFS='=' read -r k v; do case \"$k\" ".toList ++
        "in protocol) protocol=$v;; host) host=$v;; path) path=$v;; esac; done; if [ \"$1\" = get ] ".toList ++
        "&& [ \"$protocol\" = https ] && [ \"$host\" = ".toList =
      "credential.helper=!".toList ++ credentialReader.toList ++
        "; if [ \"$1\" = get ] && [ \"$protocol\" = https ]".toList ++
        " && [ \"$host\" = ".toList := by
    rewrite [credentialReader_toList]
    repeat rewrite [String.toList_ofList]
    rfl
  unfold credentialProgram
  simp only [← List.append_assoc]
  rw [hfront]

end Awman.Engine
