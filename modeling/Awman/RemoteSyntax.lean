import Awman.RemoteUrls

/-!
# The syntax of remote URLs

Three kinds of remote URLs are told apart: those with a scheme, the `scp`-like ones and local paths.  A
text with a scheme mark has a scheme, a colon without a slash before it makes a text `scp`-like, and
everything else is a path.
-/

namespace Awman.Remotes

open Awman.Network (trim isWhiteSpace Trimmed)
open Awman.TextCuts (splitOnce byteLength units)
open Awman.PatternSearch (Leads)

/-- A character of a scheme. -/
def isSchemeCharacter (character : Char) : Bool :=
  character.isAlphanum || character == '+' || character == '-' || character == '.'

/-- A character of a host, or of an address between brackets. -/
def isHostCharacter (character : Char) : Bool :=
  inAuthority character && character != '@' && character != '[' && character != ']' &&
    character != '\\' && !isWhiteSpace character

/-- The host of a remote. -/
inductive Host where
  /-- A name, which may be empty. -/
  | name (text : Text)
      (valid : text.all (fun character => isHostCharacter character && character != ':') = true)
  /-- An IPv6 address, written between brackets. -/
  | literal (address : Text) (valid : address.all isHostCharacter = true) (colon : ':' ∈ address)

/-- The host as it is written. -/
def Host.text : Host → Text
  | .name text _ => text
  | .literal address _ _ => '[' :: (address ++ [']'])

/-- The host that is contacted. -/
def Host.contacted : Host → Text
  | .name text _ => toAsciiLowercase text
  | .literal address _ _ => toAsciiLowercase address

/-- The userinfo as it is written. -/
def userText : Option Text → Text
  | none => []
  | some user => user ++ ['@']

/-- A part behind its mark, as it is written. -/
def markedText (mark : Char) : Option Text → Text
  | none => []
  | some text => mark :: text

/-- A URL with a scheme. -/
structure SchemeUrl where
  scheme : Text
  /-- The user, with a password or without. -/
  user : Option Text
  host : Host
  port : Option Text
  path : Text
  query : Option Text
  fragment : Option Text
  schemeValid : scheme ≠ [] ∧ scheme.all isSchemeCharacter = true
  /-- Nothing in the userinfo ends the authority. -/
  userValid : (userText user).all inAuthority = true
  /-- The port is a number, or left out behind its colon. -/
  portValid : (port.getD []).all Char.isDigit = true
  /-- The path begins with a slash, unless it is empty. -/
  pathStart : path = [] ∨ path.head? = some '/'
  /-- The path ends where a query or a fragment begins. -/
  pathValid : path.all inPath = true

/-- What stands in an authority behind the user. -/
def SchemeUrl.hostPort (url : SchemeUrl) : Text := url.host.text ++ markedText ':' url.port

/-- What stands behind the path. -/
def SchemeUrl.tail (url : SchemeUrl) : Text := markedText '?' url.query ++ markedText '#' url.fragment

/-- The URL as it is written. -/
def SchemeUrl.render (url : SchemeUrl) : Text :=
  url.scheme ++ schemeMark ++ (userText url.user ++ url.hostPort ++ (url.path ++ url.tail))

/-- An `scp`-like URL. -/
structure ScpUrl where
  user : Option Text
  host : Host
  path : Text
  /-- The user stands before the first colon, and before it stands no slash. -/
  userValid : (userText user).all (fun character => character != ':' && character != '/') = true
  /-- The whole text is not read as a URL with a scheme. -/
  unmarked : splitScheme (userText user ++ host.text ++ ':' :: path) = none

/-- The URL as it is written. -/
def ScpUrl.render (url : ScpUrl) : Text := userText url.user ++ url.host.text ++ ':' :: url.path

/-- A local path: before its first colon, if it has one, stands a slash. -/
def isLocal (text : Text) : Bool :=
  (splitScheme text).isNone &&
    match splitOnce ':' text with
    | none => true
    | some (front, _) => front.contains '/'

/-- A remote URL. -/
inductive RemoteUrl where
  | scheme (url : SchemeUrl)
  | scp (url : ScpUrl)
  | path (text : Text) (valid : isLocal text = true)

/-- The URL as it is written. -/
def RemoteUrl.render : RemoteUrl → Text
  | .scheme url => url.render
  | .scp url => url.render
  | .path text _ => text

/-- The URL without userinfo, query and fragment. -/
def RemoteUrl.withoutCredentials : RemoteUrl → Text
  | .scheme url => url.scheme ++ schemeMark ++ (url.hostPort ++ url.path)
  | .scp url => toAsciiLowercase url.host.text ++ ':' :: url.path
  | .path text _ => text

/-- The host that is contacted; a local path has none. -/
def RemoteUrl.host : RemoteUrl → Option Text
  | .scheme url => some url.host.contacted
  | .scp url => some url.host.contacted
  | .path _ _ => none

/-- The path on the host. -/
def RemoteUrl.place : RemoteUrl → Text
  | .scheme url => url.path
  | .scp url => url.path
  | .path text _ => text

/-- What the URL leads to. -/
def RemoteUrl.kind : RemoteUrl → GitRemoteKind
  | .scheme url =>
    if toAsciiLowercase url.scheme = "ssh".toList then .ssh url.host.contacted
    else if toAsciiLowercase url.scheme = "https".toList then .https url.host.contacted
    else if toAsciiLowercase url.scheme = "file".toList then .file
    else .other
  | .scp url => .ssh url.host.contacted
  | .path _ _ => .file

/-! ## Texts that end visibly -/

/-- The text does not end in a blank. -/
def EndsVisible (text : Text) : Prop := ∀ last ∈ text.getLast?, isWhiteSpace last = false

variable {front back text : Text} {character : Char}

theorem EndsVisible.append (hfront : EndsVisible front) (hback : EndsVisible back) :
    EndsVisible (front ++ back) := by
  intro last hlast
  cases back with
  | nil =>
    rw [List.append_nil] at hlast
    exact hfront last hlast
  | cons first rest =>
    rw [List.getLast?_append_of_ne_nil _ (by simp)] at hlast
    exact hback last hlast

theorem EndsVisible.of_append (h : EndsVisible (front ++ back)) : EndsVisible back := by
  intro last hlast
  have hne : back ≠ [] := by
    intro hnil
    rw [hnil] at hlast
    cases hlast
  exact h last (by rw [List.getLast?_append_of_ne_nil _ hne]; exact hlast)

theorem endsVisible_of_forall (h : ∀ character ∈ text, isWhiteSpace character = false) :
    EndsVisible text :=
  fun last hlast => h last (List.mem_of_mem_getLast? hlast)

/-- Blanks behind a text that ends visibly are dropped without it. -/
theorem EndsVisible.rdropWhile_append (h : EndsVisible front) (back : Text) :
    (front ++ back).rdropWhile isWhiteSpace = front ++ back.rdropWhile isWhiteSpace := by
  cases hlast : front.getLast? with
  | none =>
    rw [List.getLast?_eq_none_iff] at hlast
    rw [hlast, List.nil_append, List.nil_append]
  | some last => exact rdropWhile_append_of_visible hlast (h last hlast)

/-! ## The parts of an authority -/

theorem isWhiteSpace_of_isSchemeCharacter (h : isSchemeCharacter character = true) :
    isWhiteSpace character = false := by
  simp only [isSchemeCharacter, Bool.or_eq_true, beq_iff_eq] at h
  rcases h with ((halphanum | rfl) | rfl) | rfl
  · have hrange := Network.isAlphanum_range halphanum
    exact Network.not_isWhiteSpace (by omega)
  · decide
  · decide
  · decide

theorem ne_colon_of_isSchemeCharacter (h : isSchemeCharacter character = true) : character ≠ ':' := by
  intro hcolon
  rw [hcolon] at h
  exact absurd h (by decide)

theorem isHostCharacter_iff : isHostCharacter character = true ↔
    inAuthority character = true ∧ character ≠ '@' ∧ character ≠ '[' ∧ character ≠ ']' ∧
      character ≠ '\\' ∧ isWhiteSpace character = false := by
  simp [isHostCharacter, and_assoc]

/-- The characters of a host as it is written. -/
theorem Host.mem_text (host : Host) (hmem : character ∈ host.text) :
    inAuthority character = true ∧ character ≠ '@' ∧ character ≠ '\\' ∧
      isWhiteSpace character = false := by
  cases host with
  | name text valid =>
    have hvalid := List.all_eq_true.mp valid character hmem
    rw [Bool.and_eq_true, isHostCharacter_iff] at hvalid
    exact ⟨hvalid.1.1, hvalid.1.2.1, hvalid.1.2.2.2.2.1, hvalid.1.2.2.2.2.2⟩
  | literal address valid colon =>
    rw [Host.text, List.mem_cons, List.mem_append, List.mem_singleton] at hmem
    rcases hmem with rfl | haddress | rfl
    · decide
    · have hvalid := isHostCharacter_iff.mp (List.all_eq_true.mp valid character haddress)
      exact ⟨hvalid.1, hvalid.2.1, hvalid.2.2.2.2.1, hvalid.2.2.2.2.2⟩
    · decide

theorem isDigit_properties (h : character.isDigit = true) :
    inAuthority character = true ∧ character ≠ '@' ∧ isWhiteSpace character = false := by
  have hval : character.toNat = character.val.toNat := rfl
  have hrange : 48 ≤ character.toNat ∧ character.toNat ≤ 57 := by
    simp only [Char.isDigit, Bool.and_eq_true, decide_eq_true_eq, ge_iff_le,
      UInt32.le_iff_toNat_le] at h
    rw [hval]
    simpa using h
  have hne : ∀ other : Char, ¬ (48 ≤ other.toNat ∧ other.toNat ≤ 57) → character ≠ other := by
    intro other hother hsame
    rw [← hsame] at hother
    exact hother hrange
  refine ⟨?_, hne _ (by decide), Network.not_isWhiteSpace (by omega)⟩
  have hslash := hne '/' (by decide)
  have hquery := hne '?' (by decide)
  have hfragment := hne '#' (by decide)
  simp [inAuthority, hslash, hquery, hfragment]

/-- The characters of a host and a port. -/
theorem SchemeUrl.mem_hostPort (url : SchemeUrl) (hmem : character ∈ url.hostPort) :
    inAuthority character = true ∧ character ≠ '@' ∧ isWhiteSpace character = false := by
  rcases List.mem_append.mp hmem with hhost | hport
  · have hcharacter := url.host.mem_text hhost
    exact ⟨hcharacter.1, hcharacter.2.1, hcharacter.2.2.2⟩
  · have hvalid := url.portValid
    cases hnumber : url.port with
    | none =>
      rw [hnumber] at hport
      cases hport
    | some port =>
      rw [hnumber] at hport hvalid
      rcases List.mem_cons.mp hport with rfl | hdigit
      · decide
      · exact isDigit_properties (List.all_eq_true.mp hvalid character hdigit)

theorem withoutUserinfo_userText (user : Option Text) (h : '@' ∉ text) :
    withoutUserinfo (userText user ++ text) = text := by
  cases user with
  | none => exact withoutUserinfo_of_notMem h
  | some user =>
    rw [withoutUserinfo, userText, List.append_assoc, List.singleton_append,
      TextCuts.rsplitOnce_append user h]

theorem hostOf_bracket (rest : Text) :
    hostOf ('[' :: rest) = toAsciiLowercase (rest.takeWhile (· != ']')) := rfl

theorem hostOf_name (h : ∀ rest, text ≠ '[' :: rest) :
    hostOf text = toAsciiLowercase (text.takeWhile (· != ':')) := by
  unfold hostOf
  split
  · rename_i rest
    exact absurd rfl (h rest)
  · rfl

/-- The host of an authority is read off in lower case. -/
theorem hostOf_hostPort (url : SchemeUrl) : hostOf url.hostPort = url.host.contacted := by
  have hport : (markedText ':' url.port).takeWhile (· != ':') = [] := by
    cases url.port with
    | none | some => rfl
  rw [SchemeUrl.hostPort]
  cases url.host with
  | name text valid =>
    have hcolon : ∀ character ∈ text, (character != ':') = true := by
      intro character hmem
      have hvalid := List.all_eq_true.mp valid character hmem
      exact (Bool.and_eq_true _ _ ▸ hvalid).2
    have hbracket : ∀ rest, text ++ markedText ':' url.port ≠ '[' :: rest := by
      intro rest heq
      cases text with
      | nil =>
        cases hnumber : url.port with
        | none =>
          rw [hnumber] at heq
          cases heq
        | some port =>
          rw [hnumber] at heq
          exact absurd (List.cons.inj heq).1 (by decide)
      | cons first text =>
        have hfirst := List.all_eq_true.mp valid first List.mem_cons_self
        rw [(List.cons.inj heq).1] at hfirst
        exact absurd hfirst (by decide)
    have htake : (text ++ markedText ':' url.port).takeWhile (· != ':') = text := by
      rw [List.takeWhile_append_of_pos hcolon, hport, List.append_nil]
    rw [Host.text, Host.contacted, hostOf_name hbracket, htake]
  | literal address valid colon =>
    have hbracket : ∀ character ∈ address, (character != ']') = true := by
      intro character hmem
      have hvalid := isHostCharacter_iff.mp (List.all_eq_true.mp valid character hmem)
      simpa using hvalid.2.2.2.1
    have htake : (address ++ ']' :: markedText ':' url.port).takeWhile (· != ']') = address := by
      rw [List.takeWhile_append_of_pos hbracket, List.takeWhile_cons_of_neg (by decide),
        List.append_nil]
    rw [Host.text, Host.contacted, List.cons_append, hostOf_bracket, List.append_assoc,
      List.singleton_append, htake]

end Awman.Remotes
