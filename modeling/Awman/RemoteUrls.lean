import Awman.Blanks
import Awman.Library.PatternSearch
import Awman.Library.TextCuts

/-!
# Remote URLs without credentials

The URL of a remote is kept without the credentials in it: a URL with a scheme loses its userinfo, query
and fragment, and an `scp`-like one its user.  Keeping what is kept once more only trims it.
-/

namespace Awman.Remotes

open Awman.Network (trim isWhiteSpace Trimmed isAlpha_eq isUpper_eq isLower_eq)
open Awman.TextCuts (splitOnce rsplitOnce byteLength)
open Awman.PatternSearch (find Leads)

/-- A text. -/
abbrev Text := List Char

/-- What a remote URL leads to. -/
inductive GitRemoteKind where
  | ssh (host : Text)
  | https (host : Text)
  | file
  | other
  deriving DecidableEq

/-- A remote URL with any embedded credentials removed. -/
structure GitRemoteUrl where
  /-- The URL without credentials. -/
  redacted : Text
  kind : GitRemoteKind
  /-- The owner and the repository of a path with two parts. -/
  ownerRepo : Option (Text × Text)
  deriving DecidableEq

/-- The mark behind a scheme. -/
def schemeMark : Text := "://".toList

/-- The parts of a URL around its first scheme mark. -/
def splitScheme (url : Text) : Option (Text × Text) :=
  (find schemeMark url).map fun position => (url.take position, url.drop (position + 3))

/-- A character that does not end the authority of a URL. -/
def inAuthority (character : Char) : Bool :=
  character != '/' && character != '?' && character != '#'

/-- A character that begins neither a query nor a fragment. -/
def inPath (character : Char) : Bool := character != '?' && character != '#'

/-- What stands behind the last `@`. -/
def withoutUserinfo (authority : Text) : Text :=
  match rsplitOnce '@' authority with
  | some (_, host) => host
  | none => authority

/-- The text in lower case, as far as it is ASCII. -/
def toAsciiLowercase (text : Text) : Text := text.map Char.toLower

/-- The host of an authority, without a port. -/
def hostOf (authority : Text) : Text :=
  toAsciiLowercase (match authority with
    | '[' :: ipv6 => ipv6.takeWhile (· != ']')
    | authority => authority.takeWhile (· != ':'))

/-- A reversed text without the reversed endings `.git` it begins with. -/
def dropGit : Text → Text
  | 't' :: 'i' :: 'g' :: '.' :: rest => dropGit rest
  | text => text

/-- The owner and the repository in a path. -/
def ownerRepo (path : Text) : Option (Text × Text) :=
  let trimmed := (path.dropWhile (· == '/')).rdropWhile (· == '/')
  match trimmed.splitOn '/' with
  | [owner, repo] =>
    if owner ≠ [] ∧ repo ≠ [] then some (owner, (dropGit repo.reverse).reverse) else none
  | _ => none

/-- A URL with a scheme. -/
def parseScheme (scheme rest : Text) : GitRemoteUrl :=
  let authority := withoutUserinfo (rest.takeWhile inAuthority)
  let host := hostOf authority
  let path := (rest.dropWhile inAuthority).takeWhile inPath
  let kind :=
    if toAsciiLowercase scheme = "ssh".toList then .ssh host
    else if toAsciiLowercase scheme = "https".toList then .https host
    else if toAsciiLowercase scheme = "file".toList then .file
    else .other
  ⟨scheme ++ schemeMark ++ (authority ++ path), kind, ownerRepo path⟩

/-- An authority that is no path and no drive. -/
def isScpAuthority (authority : Text) : Bool :=
  !authority.contains '/' && !authority.contains '\\' && decide (1 < byteLength authority)

/-- An `scp`-like URL. -/
def parseScp (authority path : Text) : GitRemoteUrl :=
  let host := toAsciiLowercase (withoutUserinfo authority)
  ⟨host ++ ':' :: path, .ssh host, ownerRepo path⟩

/-- A local path. -/
def parseLocal (url : Text) : GitRemoteUrl := ⟨url, .file, ownerRepo []⟩

/-- Parses and redacts a remote URL without blanks around it. -/
def parseTrimmed (url : Text) : GitRemoteUrl :=
  match splitScheme url with
  | some (scheme, rest) => parseScheme scheme rest
  | none =>
    match splitOnce ':' url with
    | some (authority, path) =>
      if isScpAuthority authority then parseScp authority path else parseLocal url
    | none => parseLocal url

/-- Parses and redacts a remote URL. -/
def parse (url : Text) : GitRemoteUrl := parseTrimmed (trim url)

/-- The host of a remote. -/
def GitRemoteUrl.host (remote : GitRemoteUrl) : Option Text :=
  match remote.kind with
  | .ssh host => some host
  | .https host => some host
  | _ => none

variable {url scheme rest authority path host text : Text}

/-! ## Where the parts stand -/

theorem splitScheme_eq_some (h : splitScheme url = some (scheme, rest)) :
    url = scheme ++ schemeMark ++ rest ∧ Leads schemeMark scheme := by
  obtain ⟨position, hposition, hparts⟩ := Option.map_eq_some_iff.mp h
  obtain ⟨front, back, rfl, rfl, hleads⟩ := PatternSearch.find_eq_some hposition
  cases hparts
  have hlength : front.length + 3 = (front ++ schemeMark).length := by
    rw [List.length_append]
    rfl
  rw [List.take_left, hlength, ← List.append_assoc, List.drop_left]
  exact ⟨rfl, hleads⟩

theorem splitScheme_append (hleads : Leads schemeMark scheme) (rest : Text) :
    splitScheme (scheme ++ schemeMark ++ rest) = some (scheme, rest) := by
  have hlength : scheme.length + 3 = (scheme ++ schemeMark).length := by
    rw [List.length_append]
    rfl
  rw [splitScheme, List.append_assoc, PatternSearch.find_of_leads hleads, Option.map_some,
    List.take_left, hlength, ← List.append_assoc, List.drop_left]

theorem splitScheme_eq_none : splitScheme url = none ↔ ¬ schemeMark <:+: url := by
  rw [splitScheme, Option.map_eq_none_iff, PatternSearch.find_eq_none]

/-- A mark behind a text without colons is not begun in that text. -/
theorem schemeMark_infix_append (hcolon : ':' ∉ host) :
    schemeMark <:+: host ++ text ↔ schemeMark <:+: text := by
  constructor
  · rintro ⟨before, after, heq⟩
    rw [List.append_assoc] at heq
    rcases List.append_eq_append_iff.mp heq with ⟨middle, hhost, hrest⟩ | ⟨middle, hbefore, htext⟩
    · cases middle with
      | nil => exact ⟨[], after, by simpa using hrest⟩
      | cons first middle =>
        have hfirst : first = ':' := (List.cons.inj hrest).1.symm
        rw [hhost, hfirst] at hcolon
        exact absurd (by simp) hcolon
    · exact ⟨middle, after, by rw [htext, List.append_assoc]⟩
  · intro h
    exact h.trans (List.infix_append' host text [] |>.trans (by simp))

theorem withoutUserinfo_of_notMem (h : '@' ∉ authority) : withoutUserinfo authority = authority := by
  rw [withoutUserinfo, TextCuts.rsplitOnce_eq_none.mpr h]

theorem at_notMem_withoutUserinfo (authority : Text) : '@' ∉ withoutUserinfo authority := by
  unfold withoutUserinfo
  split
  · rename_i user host h
    exact (TextCuts.rsplitOnce_eq_some.mp h).2
  · rename_i h
    exact TextCuts.rsplitOnce_eq_none.mp h

theorem withoutUserinfo_subset (authority : Text) : withoutUserinfo authority ⊆ authority := by
  unfold withoutUserinfo
  split
  · rename_i user host h
    rw [(TextCuts.rsplitOnce_eq_some.mp h).1]
    intro character hmem
    exact List.mem_append_right _ (List.mem_cons_of_mem _ hmem)
  · exact fun _ hmem => hmem

/-! ## Blanks around a URL -/

variable {front : Text} {character : Char}

theorem dropWhile_append_of_visible {back : Text} {first : Char} (hfirst : back.head? = some first)
    (hvisible : isWhiteSpace first = false) :
    (front ++ back).dropWhile isWhiteSpace = front.dropWhile isWhiteSpace ++ back := by
  have hback : back.dropWhile isWhiteSpace = back := by
    cases back with
    | nil => cases hfirst
    | cons head rest =>
      cases hfirst
      rw [List.dropWhile_cons_of_neg (by simp [hvisible])]
  rw [List.dropWhile_append]
  split
  · rename_i hempty
    rw [List.isEmpty_iff.mp hempty, hback, List.nil_append]
  · rfl

theorem rdropWhile_append_of_visible {back : Text} {last : Char} (hlast : front.getLast? = some last)
    (hvisible : isWhiteSpace last = false) :
    (front ++ back).rdropWhile isWhiteSpace = front ++ back.rdropWhile isWhiteSpace := by
  have hfirst : front.reverse.head? = some last := by rw [List.head?_reverse, hlast]
  rw [List.rdropWhile, List.reverse_append, dropWhile_append_of_visible hfirst hvisible,
    List.reverse_append, List.reverse_reverse, List.rdropWhile]

/-- A text with something visible in front loses blanks at its end only. -/
theorem trim_append_of_visible {back : Text} {first last : Char} (hfirst : front.head? = some first)
    (hvisible : isWhiteSpace first = false) (hlast : front.getLast? = some last)
    (hend : isWhiteSpace last = false) :
    trim (front ++ back) = front ++ back.rdropWhile isWhiteSpace := by
  have hfront : (front ++ back).dropWhile isWhiteSpace = front ++ back := by
    cases front with
    | nil => cases hfirst
    | cons head rest =>
      cases hfirst
      rw [List.cons_append, List.dropWhile_cons_of_neg (by simp [hvisible])]
  rw [trim, hfront, rdropWhile_append_of_visible hlast hend]

/-- A text with something visible behind loses blanks at its beginning only. -/
theorem trim_append_of_visible_end {back : Text} {first last : Char} (hfirst : back.head? = some first)
    (hvisible : isWhiteSpace first = false) (hlast : back.getLast? = some last)
    (hend : isWhiteSpace last = false) :
    trim (front ++ back) = front.dropWhile isWhiteSpace ++ back := by
  have hback : back.rdropWhile isWhiteSpace = back := by
    rw [List.rdropWhile_eq_self_iff]
    intro hne
    rw [List.getLast?_eq_getLast_of_ne_nil hne, Option.some.injEq] at hlast
    simp [hlast, hend]
  rw [trim, dropWhile_append_of_visible hfirst hvisible]
  have hnonempty : back ≠ [] := fun hnil => by rw [hnil] at hfirst; cases hfirst
  rw [List.rdropWhile_eq_self_iff]
  intro hne
  rw [List.getLast_append_of_ne_nil _ hnonempty]
  rw [List.getLast?_eq_getLast_of_ne_nil hnonempty, Option.some.injEq] at hlast
  simp [hlast, hend]

/-! ## Keeping what is kept -/

/-- What follows the scheme has no userinfo, query or fragment. -/
def Clean (rest : Text) : Prop :=
  '@' ∉ rest.takeWhile inAuthority ∧ ∀ character ∈ rest, inPath character = true

theorem Clean.parseScheme_redacted (h : Clean rest) (scheme : Text) :
    (parseScheme scheme rest).redacted = scheme ++ schemeMark ++ rest := by
  have hpath : (rest.dropWhile inAuthority).takeWhile inPath = rest.dropWhile inAuthority := by
    rw [List.takeWhile_eq_self_iff]
    exact fun character hmem => h.2 character ((List.dropWhile_sublist _).subset hmem)
  rw [parseScheme]
  dsimp only
  rw [withoutUserinfo_of_notMem h.1, hpath, List.takeWhile_append_dropWhile]

theorem takeWhile_prefix_append (front back : Text) :
    front.takeWhile inAuthority <+: (front ++ back).takeWhile inAuthority := by
  rw [List.takeWhile_append]
  split
  · rename_i hlength
    have hall : front.takeWhile inAuthority = front :=
      (List.takeWhile_sublist inAuthority).eq_of_length hlength
    rw [hall]
    exact List.prefix_append _ _
  · exact List.prefix_rfl

theorem Clean.of_beginning (h : Clean rest) (hbeginning : front <+: rest) : Clean front := by
  obtain ⟨back, rfl⟩ := hbeginning
  constructor
  · exact fun hmem => h.1 ((takeWhile_prefix_append front back).subset hmem)
  · exact fun character hmem => h.2 character (List.mem_append_left _ hmem)

/-- The path behind an authority begins with a slash, if there is one. -/
theorem path_cases (rest : Text) :
    (rest.dropWhile inAuthority).takeWhile inPath = [] ∨
      ∃ tail, (rest.dropWhile inAuthority).takeWhile inPath = '/' :: tail := by
  cases hdrop : rest.dropWhile inAuthority with
  | nil => exact Or.inl rfl
  | cons first tail =>
    have hfirst := List.head?_dropWhile_not inAuthority rest
    rw [hdrop] at hfirst
    by_cases hpath : inPath first = true
    · have hslash : first = '/' := by
        simp [inAuthority] at hfirst
        simp [inPath] at hpath
        tauto
      rw [List.takeWhile_cons_of_pos hpath, hslash]
      exact Or.inr ⟨_, rfl⟩
    · rw [List.takeWhile_cons_of_neg hpath]
      exact Or.inl rfl

theorem inAuthority_of_mem_withoutUserinfo
    (hmem : character ∈ withoutUserinfo (rest.takeWhile inAuthority)) : inAuthority character = true :=
  List.mem_takeWhile_imp (withoutUserinfo_subset _ hmem)

theorem inPath_of_inAuthority (h : inAuthority character = true) : inPath character = true := by
  simp [inAuthority] at h
  simp [inPath, h]

/-- The authority and the path that are kept are read again as they are. -/
theorem takeWhile_kept (rest : Text) :
    (withoutUserinfo (rest.takeWhile inAuthority) ++
        (rest.dropWhile inAuthority).takeWhile inPath).takeWhile inAuthority =
      withoutUserinfo (rest.takeWhile inAuthority) := by
  rw [List.takeWhile_append_of_pos fun character => inAuthority_of_mem_withoutUserinfo]
  rcases path_cases rest with hnil | ⟨tail, htail⟩
  · rw [hnil, List.takeWhile_nil, List.append_nil]
  · rw [htail, List.takeWhile_cons_of_neg (by decide), List.append_nil]

theorem dropWhile_kept (rest : Text) :
    (withoutUserinfo (rest.takeWhile inAuthority) ++
        (rest.dropWhile inAuthority).takeWhile inPath).dropWhile inAuthority =
      (rest.dropWhile inAuthority).takeWhile inPath := by
  rw [List.dropWhile_append_of_pos fun character => inAuthority_of_mem_withoutUserinfo]
  rcases path_cases rest with hnil | ⟨tail, htail⟩
  · rw [hnil, List.dropWhile_nil]
  · rw [htail, List.dropWhile_cons_of_neg (by decide)]

theorem clean_kept (rest : Text) :
    Clean (withoutUserinfo (rest.takeWhile inAuthority) ++
      (rest.dropWhile inAuthority).takeWhile inPath) := by
  constructor
  · rw [takeWhile_kept]
    exact at_notMem_withoutUserinfo _
  · intro character hmem
    rcases List.mem_append.mp hmem with hauthority | hpath
    · exact inPath_of_inAuthority (inAuthority_of_mem_withoutUserinfo hauthority)
    · exact List.mem_takeWhile_imp hpath

/-- Reading what is kept of a URL with a scheme gives what reading the URL gave. -/
theorem parseScheme_kept (scheme rest : Text) :
    parseScheme scheme (withoutUserinfo (rest.takeWhile inAuthority) ++
      (rest.dropWhile inAuthority).takeWhile inPath) = parseScheme scheme rest := by
  have hauthority : withoutUserinfo (withoutUserinfo (rest.takeWhile inAuthority)) =
      withoutUserinfo (rest.takeWhile inAuthority) :=
    withoutUserinfo_of_notMem (at_notMem_withoutUserinfo _)
  have hpath : ((rest.dropWhile inAuthority).takeWhile inPath).takeWhile inPath =
      (rest.dropWhile inAuthority).takeWhile inPath := by
    rw [List.takeWhile_eq_self_iff]
    exact fun character hmem => List.mem_takeWhile_imp hmem
  rw [parseScheme, parseScheme, takeWhile_kept, dropWhile_kept, hauthority, hpath]

/-- How a URL without blanks around it is read. -/
theorem parseTrimmed_cases (url : Text) :
    (∃ scheme rest, splitScheme url = some (scheme, rest) ∧
        parseTrimmed url = parseScheme scheme rest) ∨
      (splitScheme url = none ∧ ∃ authority path, splitOnce ':' url = some (authority, path) ∧
        isScpAuthority authority = true ∧ parseTrimmed url = parseScp authority path) ∨
      parseTrimmed url = parseLocal url := by
  unfold parseTrimmed
  split
  · rename_i scheme rest h
    exact Or.inl ⟨scheme, rest, h, rfl⟩
  · rename_i hnone
    split
    · rename_i authority path h
      split_ifs with hscp
      · exact Or.inr (Or.inl ⟨hnone, authority, path, h, hscp, rfl⟩)
      · exact Or.inr (Or.inr rfl)
    · exact Or.inr (Or.inr rfl)

/-- A text in lower case that names no user. -/
def PlainHost (host : Text) : Prop :=
  '@' ∉ host ∧ toAsciiLowercase host = host

/-- What is kept of an `scp`-like URL is read as it stands, or as a local path. -/
theorem parseTrimmed_scp (hcolon : ':' ∉ host) (hmark : ¬ schemeMark <:+: ':' :: path) :
    parseTrimmed (host ++ ':' :: path) =
      if isScpAuthority host then parseScp host path else parseLocal (host ++ ':' :: path) := by
  have hnone : splitScheme (host ++ ':' :: path) = none := by
    rw [splitScheme_eq_none, schemeMark_infix_append hcolon]
    exact hmark
  rw [parseTrimmed, hnone, TextCuts.splitOnce_append hcolon]

theorem PlainHost.parseScp_redacted (hhost : PlainHost host) (path : Text) :
    (parseScp host path).redacted = host ++ ':' :: path := by
  rw [parseScp]
  dsimp only
  rw [withoutUserinfo_of_notMem hhost.1, hhost.2]

/-- An upper-case letter moves to the lower-case ones; every other character stays. -/
theorem toLower_cases (character : Char) :
    (¬ (65 ≤ character.toNat ∧ character.toNat ≤ 90) ∧ character.toLower = character) ∨
      (65 ≤ character.toNat ∧ character.toNat ≤ 90 ∧
        character.toLower.toNat = character.toNat + 32) := by
  have hval : character.toNat = character.val.toNat := rfl
  unfold Char.toLower
  split
  · rename_i hupper
    simp only [ge_iff_le, UInt32.le_iff_toNat_le] at hupper
    have hsum : (character.val + ('a'.val - 'A'.val)).toNat = character.val.toNat + 32 := by
      rw [UInt32.toNat_add]
      simp at hupper ⊢
      omega
    refine Or.inr ⟨?_, ?_, ?_⟩
    · rw [hval]
      simpa using hupper.1
    · rw [hval]
      simpa using hupper.2
    · rw [hval]
      exact hsum
  · rename_i hupper
    simp only [ge_iff_le, UInt32.le_iff_toNat_le] at hupper
    refine Or.inl ⟨fun h => hupper ?_, rfl⟩
    rw [hval] at h
    simpa using h

theorem toLower_idem (character : Char) : character.toLower.toLower = character.toLower := by
  rcases toLower_cases character with ⟨-, hsame⟩ | ⟨hlow, hhigh, hlower⟩
  · rw [hsame, hsame]
  · rcases toLower_cases character.toLower with ⟨-, hsame⟩ | ⟨-, habove, -⟩
    · exact hsame
    · omega

theorem toAsciiLowercase_idem (text : Text) :
    toAsciiLowercase (toAsciiLowercase text) = toAsciiLowercase text := by
  rw [toAsciiLowercase, toAsciiLowercase, List.map_map]
  exact List.map_congr_left fun character _ => toLower_idem character

/-- Only itself becomes a character that is no letter. -/
theorem mem_toAsciiLowercase_iff (hletter : character.isAlpha = false) :
    character ∈ toAsciiLowercase text ↔ character ∈ text := by
  have hrange : ¬ (65 ≤ character.toNat ∧ character.toNat ≤ 90) ∧
      ¬ (97 ≤ character.toNat ∧ character.toNat ≤ 122) := by
    have hval : character.toNat = character.val.toNat := rfl
    simp only [isAlpha_eq, isUpper_eq, isLower_eq, Bool.or_eq_false_iff, decide_eq_false_iff_not,
      Bool.and_eq_false_iff, UInt32.le_iff_toNat_le] at hletter
    rw [hval]
    simp at hletter
    omega
  rw [toAsciiLowercase, List.mem_map]
  constructor
  · rintro ⟨other, hother, hlower⟩
    rcases toLower_cases other with ⟨-, hsame⟩ | ⟨hlow, hhigh, hmoved⟩
    · rw [← hlower, hsame]
      exact hother
    · rw [hlower] at hmoved
      omega
  · intro hmem
    refine ⟨character, hmem, ?_⟩
    rcases toLower_cases character with ⟨-, hsame⟩ | ⟨hlow, hhigh, -⟩
    · exact hsame
    · exact absurd ⟨hlow, hhigh⟩ hrange.1

theorem plainHost_toAsciiLowercase (authority : Text) :
    PlainHost (toAsciiLowercase (withoutUserinfo authority)) := by
  constructor
  · rw [mem_toAsciiLowercase_iff (by decide)]
    exact at_notMem_withoutUserinfo authority
  · exact toAsciiLowercase_idem _

theorem PlainHost.dropWhile (hhost : PlainHost host) : PlainHost (host.dropWhile isWhiteSpace) := by
  constructor
  · exact fun hmem => hhost.1 ((List.dropWhile_sublist _).subset hmem)
  · have hfixed : host.map Char.toLower = host.map id := by
      rw [List.map_id]
      exact hhost.2
    have hrest : (host.dropWhile isWhiteSpace).map Char.toLower =
        (host.dropWhile isWhiteSpace).map id := by
      refine List.map_congr_left fun character hmem => ?_
      exact List.map_inj_left.mp hfixed character ((List.dropWhile_sublist _).subset hmem)
    rw [List.map_id] at hrest
    exact hrest

theorem colon_notMem_host (hcolon : ':' ∉ authority) :
    ':' ∉ toAsciiLowercase (withoutUserinfo authority) := by
  rw [mem_toAsciiLowercase_iff (by decide)]
  exact fun hmem => hcolon (withoutUserinfo_subset _ hmem)

/-- Keeping what is kept of a URL only trims it. -/
theorem redacted_redacted (url : Text) :
    (parse (parse url).redacted).redacted = trim (parse url).redacted := by
  have htrimmed := Network.trimmed_trim url
  rcases parseTrimmed_cases (trim url) with ⟨scheme, rest, hsplit, hparse⟩ |
    ⟨hnone, authority, path, hsplit, -, hparse⟩ | hparse
  · obtain ⟨hurl, hleads⟩ := splitScheme_eq_some hsplit
    have hkept := parseScheme_kept scheme rest
    have hclean := clean_kept rest
    generalize hkeptText : withoutUserinfo (rest.takeWhile inAuthority) ++
      (rest.dropWhile inAuthority).takeWhile inPath = kept at hkept hclean
    have hredacted : (parse url).redacted = scheme ++ schemeMark ++ kept := by
      rw [parse, hparse, ← hkept, hclean.parseScheme_redacted]
    obtain ⟨first, hfirst⟩ : ∃ first, (scheme ++ schemeMark).head? = some first := by
      cases scheme <;> exact ⟨_, rfl⟩
    have hvisible : isWhiteSpace first = false := by
      refine htrimmed.1 first ?_
      rw [hurl, List.head?_append, hfirst]
      rfl
    have hlast : (scheme ++ schemeMark).getLast? = some '/' := by
      rw [List.getLast?_append_of_ne_nil _ (by decide)]
      rfl
    have htrim := @trim_append_of_visible _ kept _ _ hfirst hvisible hlast (by decide)
    rw [hredacted, htrim, parse, htrim, parseTrimmed, splitScheme_append hleads]
    exact (hclean.of_beginning (List.rdropWhile_prefix _ _)).parseScheme_redacted scheme
  · obtain ⟨hurl, hcolon⟩ := TextCuts.splitOnce_eq_some.mp hsplit
    have hhost := plainHost_toAsciiLowercase authority
    have hhostColon := colon_notMem_host hcolon
    have hredacted : (parse url).redacted =
        toAsciiLowercase (withoutUserinfo authority) ++ ':' :: path := by
      rw [parse, hparse]
      rfl
    generalize toAsciiLowercase (withoutUserinfo authority) = host at hhost hhostColon hredacted
    obtain ⟨last, hlast⟩ : ∃ last, (':' :: path).getLast? = some last :=
      ⟨_, List.getLast?_eq_getLast_of_ne_nil (by simp)⟩
    have hend : isWhiteSpace last = false := by
      refine htrimmed.2 last ?_
      rw [hurl, List.getLast?_append_of_ne_nil _ (by simp), hlast]
      rfl
    have htrim := @trim_append_of_visible_end host (':' :: path) ':' last rfl (by decide) hlast hend
    have hmark : ¬ schemeMark <:+: ':' :: path := by
      intro hinside
      refine (splitScheme_eq_none.mp hnone) (hinside.trans ?_)
      rw [hurl]
      exact (List.suffix_append _ _).isInfix
    have hdrop : ':' ∉ host.dropWhile isWhiteSpace := fun hmem =>
      hhostColon ((List.dropWhile_sublist _).subset hmem)
    rw [hredacted, htrim, parse, htrim, parseTrimmed_scp hdrop hmark]
    split
    · exact hhost.dropWhile.parseScp_redacted path
    · rfl
  · have hredacted : (parse url).redacted = trim url := by
      rw [parse, hparse]
      rfl
    rw [hredacted, parse, Network.trim_trim, hparse]
    rfl

end Awman.Remotes
