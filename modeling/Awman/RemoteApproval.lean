import Awman.RemoteSyntax
import Awman.WorkflowGrants

/-!
# Which remotes are approved together

Destinations are approved by the form in which their URLs are kept.  A plain URL is kept as it is written
without userinfo, query and fragment, so that an approval of one plain URL covers those with the same host
and path only.  An `scp`-like URL that is not plain is kept otherwise, or not read back as it was kept.
-/

namespace Awman.Remotes

open Awman.Consent (PrerequisiteGrants)
open Awman.Network (trim isWhiteSpace Trimmed)
open Awman.TextCuts (splitOnce byteLength units)
open Awman.PatternSearch (Leads)

/-- The URL is kept without its credentials, with the host that is contacted, and read back as it was
kept. -/
structure Redacts (url : RemoteUrl) : Prop where
  /-- What is kept is the URL without userinfo, query and fragment. -/
  stored : (parse url.render).redacted = url.withoutCredentials
  /-- The host is the one that is contacted. -/
  kind : (parse url.render).kind = url.kind
  /-- What is kept is read as the URL was. -/
  again : parse (parse url.render).redacted = parse url.render

/-- No path ends in a blank; an `scp`-like URL has a host name of two bytes or more and no backslash in
its user. -/
def Plain : RemoteUrl → Prop
  | .scheme url => EndsVisible url.path
  | .scp url => (∃ text valid, url.host = .name text valid) ∧ 1 < byteLength url.host.text ∧
      '\\' ∉ userText url.user ∧ EndsVisible url.path
  | .path text _ => Trimmed text

variable {text path : Text} {url : RemoteUrl}

/-! ## URLs with a scheme -/

theorem takeWhile_append_stop {p : Char → Bool} {front back : Text}
    (hfront : ∀ character ∈ front, p character = true) (hback : ∀ first ∈ back.head?, p first = false) :
    (front ++ back).takeWhile p = front := by
  rw [List.takeWhile_append_of_pos hfront]
  cases back with
  | nil => rw [List.takeWhile_nil, List.append_nil]
  | cons first rest =>
    have hfirst := hback first rfl
    rw [List.takeWhile_cons_of_neg (by simp [hfirst]), List.append_nil]

theorem dropWhile_append_stop {p : Char → Bool} {front back : Text}
    (hfront : ∀ character ∈ front, p character = true) (hback : ∀ first ∈ back.head?, p first = false) :
    (front ++ back).dropWhile p = back := by
  rw [List.dropWhile_append_of_pos hfront]
  cases back with
  | nil => rfl
  | cons first rest =>
    have hfirst := hback first rfl
    rw [List.dropWhile_cons_of_neg (by simp [hfirst])]

section

variable (url : SchemeUrl)

theorem SchemeUrl.leads : Leads schemeMark url.scheme := by
  have hcolon : ':' ∉ url.scheme := by
    intro hmem
    have hvalid := List.all_eq_true.mp url.schemeValid.2 ':' hmem
    exact ne_colon_of_isSchemeCharacter hvalid rfl
  have hempty : Leads schemeMark [] := by
    intro before after hnil hafter
    exact absurd (List.append_eq_nil_iff.mp hnil.symm).2 hafter
  have hleads := PatternSearch.Leads.append_left hempty hcolon
  rwa [List.append_nil] at hleads

/-- Behind the path stands a query, a fragment or nothing. -/
theorem SchemeUrl.head_tail {first : Char} (hfirst : first ∈ url.tail.head?) :
    first = '?' ∨ first = '#' := by
  rw [SchemeUrl.tail] at hfirst
  cases hquery : url.query with
  | some query =>
    rw [hquery] at hfirst
    exact Or.inl (Option.some.inj hfirst).symm
  | none =>
    rw [hquery] at hfirst
    cases hfragment : url.fragment with
    | some fragment =>
      rw [hfragment] at hfirst
      exact Or.inr (Option.some.inj hfirst).symm
    | none =>
      rw [hfragment] at hfirst
      cases hfirst

/-- Any part of what stands behind the path begins neither an authority nor a path. -/
theorem SchemeUrl.head_of_beginning {first : Char} (htext : text <+: url.tail)
    (hfirst : first ∈ text.head?) : inAuthority first = false ∧ inPath first = false := by
  obtain ⟨back, hback⟩ := htext
  have hhead : first ∈ url.tail.head? := by
    rw [← hback, List.head?_append, hfirst]
    rfl
  rcases url.head_tail hhead with rfl | rfl
  · decide
  · decide

/-- How the parts of a URL with a scheme are read. -/
theorem SchemeUrl.parseScheme_parts (htext : text <+: url.tail) :
    parseScheme url.scheme (userText url.user ++ url.hostPort ++ (url.path ++ text)) =
      ⟨(RemoteUrl.scheme url).withoutCredentials, (RemoteUrl.scheme url).kind, ownerRepo url.path⟩ := by
  have hauthority : ∀ character ∈ userText url.user ++ url.hostPort, inAuthority character = true := by
    intro character hmem
    rcases List.mem_append.mp hmem with huser | hhost
    · exact List.all_eq_true.mp url.userValid character huser
    · exact (url.mem_hostPort hhost).1
  have hstop : ∀ first ∈ (url.path ++ text).head?, inAuthority first = false := by
    intro first hfirst
    rcases url.pathStart with hnil | hslash
    · rw [hnil] at hfirst
      exact (url.head_of_beginning htext hfirst).1
    · rw [List.head?_append, hslash] at hfirst
      rw [← Option.some.inj hfirst]
      decide
  have hpath : (url.path ++ text).takeWhile inPath = url.path :=
    takeWhile_append_stop (List.all_eq_true.mp url.pathValid)
      fun first hfirst => (url.head_of_beginning htext hfirst).2
  have hnot : '@' ∉ url.hostPort := fun hmem => (url.mem_hostPort hmem).2.1 rfl
  rw [parseScheme, takeWhile_append_stop hauthority hstop, dropWhile_append_stop hauthority hstop,
    hpath, withoutUserinfo_userText _ hnot, hostOf_hostPort]
  rfl

/-- Blanks behind a URL are not read. -/
theorem SchemeUrl.trim_render (hpath : EndsVisible url.path) :
    trim url.render = url.scheme ++ schemeMark ++
      (userText url.user ++ url.hostPort ++ (url.path ++ url.tail.rdropWhile isWhiteSpace)) := by
  obtain ⟨first, rest, hscheme⟩ := List.exists_cons_of_ne_nil url.schemeValid.1
  have hfirst : isWhiteSpace first = false := by
    refine isWhiteSpace_of_isSchemeCharacter (List.all_eq_true.mp url.schemeValid.2 first ?_)
    rw [hscheme]
    exact List.mem_cons_self
  have hhead : (url.scheme ++ schemeMark).head? = some first := by
    rw [hscheme]
    rfl
  have hlast : (url.scheme ++ schemeMark).getLast? = some '/' := by
    rw [List.getLast?_append_of_ne_nil _ (by decide)]
    rfl
  have huser : EndsVisible (userText url.user) := by
    cases url.user with
    | none => exact fun last hnone => absurd hnone (by simp [userText])
    | some user =>
      intro last hat
      rw [userText, List.getLast?_concat] at hat
      rw [← Option.some.inj hat]
      decide
  have hhost : EndsVisible url.hostPort :=
    endsVisible_of_forall fun character hmem => (url.mem_hostPort hmem).2.2
  have hends := (huser.append hhost).append hpath
  rw [SchemeUrl.render, trim_append_of_visible hhead hfirst hlast (by decide),
    ← List.append_assoc (userText url.user ++ url.hostPort), hends.rdropWhile_append,
    List.append_assoc (userText url.user ++ url.hostPort)]

theorem SchemeUrl.parse_render (hpath : EndsVisible url.path) :
    parse url.render =
      ⟨(RemoteUrl.scheme url).withoutCredentials, (RemoteUrl.scheme url).kind, ownerRepo url.path⟩ := by
  rw [parse, url.trim_render hpath, parseTrimmed, splitScheme_append url.leads]
  exact url.parseScheme_parts (List.rdropWhile_prefix _ _)

end

/-- The URL without userinfo, query and fragment. -/
def SchemeUrl.stripped (url : SchemeUrl) : SchemeUrl :=
  { url with user := none, query := none, fragment := none, userValid := rfl }

theorem SchemeUrl.stripped_render (url : SchemeUrl) :
    url.stripped.render = (RemoteUrl.scheme url).withoutCredentials := by
  have htail : url.stripped.tail = [] := rfl
  rw [SchemeUrl.render, htail, List.append_nil]
  rfl

theorem SchemeUrl.redacts (url : SchemeUrl) (hpath : EndsVisible url.path) : Redacts (.scheme url) := by
  have hparse := url.parse_render hpath
  have hagain := url.stripped.parse_render hpath
  have hrender : (RemoteUrl.scheme url).render = url.render := rfl
  rw [url.stripped_render] at hagain
  refine ⟨?_, ?_, ?_⟩
  · rw [hrender, hparse]
  · rw [hrender, hparse]
  · rw [hrender, hparse, hagain]
    rfl

/-! ## What is read back as it was kept -/

/-- What is kept has no blanks around it. -/
theorem Redacts.trimmed (h : Redacts url) : Trimmed url.withoutCredentials := by
  have hsame := redacted_redacted url.render
  rw [h.again, h.stored] at hsame
  rw [hsame]
  exact Network.trimmed_trim _

/-! ## `scp`-like URLs -/

theorem toLower_visible {character : Char} (h : isWhiteSpace character = false) :
    isWhiteSpace character.toLower = false := by
  rcases toLower_cases character with ⟨-, hsame⟩ | ⟨hlow, hhigh, hmoved⟩
  · rw [hsame]
    exact h
  · exact Network.not_isWhiteSpace (by omega)

theorem utf8Size_toLower (character : Char) : character.toLower.utf8Size = character.utf8Size := by
  have hsize : ∀ other : Char, other.toNat ≤ 127 → other.utf8Size = 1 := by
    intro other hother
    rw [Char.utf8Size, if_pos]
    exact UInt32.le_iff_toNat_le.mpr hother
  rcases toLower_cases character with ⟨-, hsame⟩ | ⟨hlow, hhigh, hmoved⟩
  · rw [hsame]
  · rw [hsize _ (by omega), hsize _ (by omega)]

theorem byteLength_toAsciiLowercase (text : Text) :
    byteLength (toAsciiLowercase text) = byteLength text := by
  rw [byteLength, byteLength, units, units, toAsciiLowercase, List.map_map]
  have hsizes : text.map (Char.utf8Size ∘ Char.toLower) = text.map Char.utf8Size :=
    List.map_congr_left fun character _ => utf8Size_toLower character
  rw [hsizes]

theorem isScpAuthority_iff :
    isScpAuthority text = true ↔ '/' ∉ text ∧ '\\' ∉ text ∧ 1 < byteLength text := by
  simp [isScpAuthority, and_assoc]

theorem mem_dropWhile_of_visible {character : Char} (hmem : character ∈ text)
    (hvisible : isWhiteSpace character = false) : character ∈ text.dropWhile isWhiteSpace := by
  rw [← List.takeWhile_append_dropWhile (p := isWhiteSpace) (l := text)] at hmem
  rcases List.mem_append.mp hmem with hblank | hrest
  · have hwhite := List.mem_takeWhile_imp hblank
    rw [hvisible] at hwhite
    cases hwhite
  · exact hrest

theorem dropWhile_of_forall (h : ∀ character ∈ text, isWhiteSpace character = false) :
    text.dropWhile isWhiteSpace = text := by
  cases text with
  | nil => rfl
  | cons first rest =>
    have hfirst := h first List.mem_cons_self
    rw [List.dropWhile_cons_of_neg (by simp [hfirst])]

/-- How a text with a colon is read, when the colon begins no scheme mark. -/
theorem parse_colon {front : Text} (hcolon : ':' ∉ front) (hmark : ¬ schemeMark <:+: ':' :: path)
    (hpath : EndsVisible path) :
    parse (front ++ ':' :: path) =
      if isScpAuthority (front.dropWhile isWhiteSpace) then
        parseScp (front.dropWhile isWhiteSpace) path
      else parseLocal (front.dropWhile isWhiteSpace ++ ':' :: path) := by
  have hmarked : EndsVisible [':'] := by
    intro last hlast
    rw [← Option.some.inj hlast]
    decide
  have hends : EndsVisible (':' :: path) := hmarked.append hpath
  obtain ⟨last, hlast⟩ : ∃ last, (':' :: path).getLast? = some last :=
    ⟨_, List.getLast?_eq_getLast_of_ne_nil (by simp)⟩
  have htrim := @trim_append_of_visible_end front _ ':' last rfl (by decide) hlast (hends last hlast)
  have hdrop : ':' ∉ front.dropWhile isWhiteSpace := fun hmem =>
    hcolon ((List.dropWhile_sublist _).subset hmem)
  rw [parse, htrim, parseTrimmed_scp hdrop hmark]

theorem trim_inside (text : Text) : trim text <:+: text := by
  have hfront : text.dropWhile isWhiteSpace <:+ text := List.dropWhile_suffix _
  have hback : trim text <+: text.dropWhile isWhiteSpace := List.rdropWhile_prefix _ _
  exact hback.isInfix.trans hfront.isInfix

theorem ScpUrl.mark_notMem (url : ScpUrl) : ¬ schemeMark <:+: ':' :: url.path := by
  intro hmark
  refine splitScheme_eq_none.mp url.unmarked (hmark.trans ?_)
  exact (List.suffix_append _ _).isInfix

/-- An `scp`-like URL is read as one or as a path. -/
theorem ScpUrl.parse_cases (url : ScpUrl) :
    (∃ authority path, splitOnce ':' (trim url.render) = some (authority, path) ∧
        parse url.render = parseScp authority path) ∨
      (parse url.render).kind = .file := by
  rcases parseTrimmed_cases (trim url.render) with ⟨scheme, rest, hsplit, -⟩ |
    ⟨-, authority, path, hsplit, -, hparse⟩ | hparse
  · obtain ⟨htext, -⟩ := splitScheme_eq_some hsplit
    have hmark : schemeMark <:+: url.render := by
      have hinside : schemeMark <:+: trim url.render := ⟨scheme, rest, htext.symm⟩
      exact hinside.trans (trim_inside _)
    exact absurd hmark (splitScheme_eq_none.mp url.unmarked)
  · exact Or.inl ⟨authority, path, hsplit, hparse⟩
  · exact Or.inr (by rw [parse, hparse]; rfl)

theorem ScpUrl.mem_front (url : ScpUrl) {character : Char}
    (hmem : character ∈ userText url.user ++ url.host.text) : character ≠ '/' := by
  rcases List.mem_append.mp hmem with huser | hhost
  · have hvalid := List.all_eq_true.mp url.userValid character huser
    simp at hvalid
    exact hvalid.2
  · have hauthority := (url.host.mem_text hhost).1
    simp [inAuthority] at hauthority
    exact hauthority.1.1

theorem colon_notMem_name
    (valid : text.all (fun character => isHostCharacter character && character != ':') = true) :
    ':' ∉ text := by
  intro hmem
  have hvalid := List.all_eq_true.mp valid ':' hmem
  exact absurd hvalid (by decide)

/-- A host name stays in front of the path when blanks before the user are dropped. -/
theorem ScpUrl.dropWhile_front (url : ScpUrl) :
    ∃ user, (userText url.user ++ url.host.text).dropWhile isWhiteSpace =
      userText user ++ url.host.text := by
  have hhost : ∀ character ∈ url.host.text, isWhiteSpace character = false :=
    fun character hmem => (url.host.mem_text hmem).2.2.2
  cases url.user with
  | none => exact ⟨none, dropWhile_of_forall hhost⟩
  | some user =>
    refine ⟨some (user.dropWhile isWhiteSpace), ?_⟩
    rw [userText, userText, List.append_assoc, List.append_assoc, List.singleton_append]
    exact dropWhile_append_of_visible rfl (by decide)

/-- How an `scp`-like URL with a host name is read. -/
theorem ScpUrl.parse_render (url : ScpUrl) (hcolon : ':' ∉ url.host.text) (hpath : EndsVisible url.path) :
    parse url.render =
      if isScpAuthority ((userText url.user ++ url.host.text).dropWhile isWhiteSpace) then
        ⟨(RemoteUrl.scp url).withoutCredentials, .ssh (toAsciiLowercase url.host.text),
          ownerRepo url.path⟩
      else
        parseLocal ((userText url.user ++ url.host.text).dropWhile isWhiteSpace ++ ':' :: url.path) := by
  have hfront : ':' ∉ userText url.user ++ url.host.text := by
    rw [List.mem_append]
    rintro (huser | hhost)
    · have hvalid := List.all_eq_true.mp url.userValid ':' huser
      exact absurd hvalid (by decide)
    · exact hcolon hhost
  have hnot : '@' ∉ url.host.text := fun hmem => (url.host.mem_text hmem).2.1 rfl
  obtain ⟨user, huser⟩ := url.dropWhile_front
  rw [ScpUrl.render, parse_colon hfront url.mark_notMem hpath]
  congr 1
  rw [huser, parseScp, withoutUserinfo_userText user hnot]
  rfl

/-- How what is kept of an `scp`-like URL with a host name is read. -/
theorem ScpUrl.parse_stored (url : ScpUrl) (hcolon : ':' ∉ url.host.text) (hpath : EndsVisible url.path) :
    parse (RemoteUrl.scp url).withoutCredentials =
      if isScpAuthority (toAsciiLowercase url.host.text) then
        ⟨(RemoteUrl.scp url).withoutCredentials, .ssh (toAsciiLowercase url.host.text),
          ownerRepo url.path⟩
      else parseLocal (RemoteUrl.scp url).withoutCredentials := by
  have hlower : ':' ∉ toAsciiLowercase url.host.text := by
    rw [mem_toAsciiLowercase_iff (by decide)]
    exact hcolon
  have hnot : '@' ∉ toAsciiLowercase url.host.text := by
    rw [mem_toAsciiLowercase_iff (by decide)]
    exact fun hmem => (url.host.mem_text hmem).2.1 rfl
  have hvisible : ∀ character ∈ toAsciiLowercase url.host.text, isWhiteSpace character = false := by
    intro character hmem
    obtain ⟨other, hother, hlowered⟩ := List.mem_map.mp hmem
    rw [← hlowered]
    exact toLower_visible (url.host.mem_text hother).2.2.2
  rw [RemoteUrl.withoutCredentials, parse_colon hlower url.mark_notMem hpath,
    dropWhile_of_forall hvisible, parseScp, withoutUserinfo_of_notMem hnot, toAsciiLowercase_idem]

/-- When an `scp`-like URL is kept without credentials. -/
theorem ScpUrl.redacts_iff (url : ScpUrl) : Redacts (.scp url) ↔ Plain (.scp url) := by
  constructor
  · intro h
    have hpath : EndsVisible url.path := by
      have hends : EndsVisible (RemoteUrl.scp url).withoutCredentials := h.trimmed.2
      have hcolon : EndsVisible ([':'] ++ url.path) := hends.of_append
      exact hcolon.of_append
    have hkind : (parse url.render).kind = .ssh url.host.contacted := h.kind
    have hname : ∃ text valid, url.host = .name text valid := by
      cases hhost : url.host with
      | name text valid => exact ⟨text, valid, rfl⟩
      | literal address valid colon =>
        rw [hhost, Host.contacted] at hkind
        rcases url.parse_cases with ⟨authority, path, hsplit, hparse⟩ | hfile
        · have hcolon := colon_notMem_host (TextCuts.splitOnce_eq_some.mp hsplit).2
          rw [hparse, parseScp] at hkind
          rw [GitRemoteKind.ssh.inj hkind, mem_toAsciiLowercase_iff (by decide)] at hcolon
          exact absurd colon hcolon
        · rw [hfile] at hkind
          cases hkind
    obtain ⟨text, valid, hhost⟩ := hname
    have hcolon : ':' ∉ url.host.text := by
      rw [hhost]
      exact colon_notMem_name valid
    have hauthority : isScpAuthority ((userText url.user ++ url.host.text).dropWhile isWhiteSpace) =
        true := by
      rw [url.parse_render hcolon hpath] at hkind
      by_contra hfalse
      rw [if_neg hfalse] at hkind
      cases hkind
    have hstored : isScpAuthority (toAsciiLowercase url.host.text) = true := by
      have hagain : (parse (RemoteUrl.scp url).withoutCredentials).kind = .ssh url.host.contacted := by
        have hsame := h.again
        rw [h.stored] at hsame
        rw [hsame]
        exact hkind
      rw [url.parse_stored hcolon hpath] at hagain
      by_contra hfalse
      rw [if_neg hfalse] at hagain
      cases hagain
    refine ⟨⟨text, valid, hhost⟩, ?_, ?_, hpath⟩
    · rw [← byteLength_toAsciiLowercase]
      exact (isScpAuthority_iff.mp hstored).2.2
    · intro huser
      have hmem := mem_dropWhile_of_visible (List.mem_append_left url.host.text huser) (by decide)
      exact (isScpAuthority_iff.mp hauthority).2.1 hmem
  · rintro ⟨⟨text, valid, hhost⟩, hlength, huser, hpath⟩
    have hcolon : ':' ∉ url.host.text := by
      rw [hhost]
      exact colon_notMem_name valid
    have hauthority : isScpAuthority ((userText url.user ++ url.host.text).dropWhile isWhiteSpace) =
        true := by
      have hsub := List.dropWhile_sublist (l := userText url.user ++ url.host.text) isWhiteSpace
      rw [isScpAuthority_iff]
      refine ⟨fun hmem => url.mem_front (hsub.subset hmem) rfl, fun hmem => ?_, ?_⟩
      · rcases List.mem_append.mp (hsub.subset hmem) with hinside | hname
        · exact huser hinside
        · exact (url.host.mem_text hname).2.2.1 rfl
      · obtain ⟨user, hdrop⟩ := url.dropWhile_front
        rw [hdrop, byteLength, units, List.map_append, List.sum_append]
        rw [byteLength, units] at hlength
        omega
    have hstored : isScpAuthority (toAsciiLowercase url.host.text) = true := by
      rw [isScpAuthority_iff, byteLength_toAsciiLowercase, mem_toAsciiLowercase_iff (by decide),
        mem_toAsciiLowercase_iff (by decide)]
      exact ⟨fun hmem => url.mem_front (List.mem_append_right _ hmem) rfl,
        fun hmem => (url.host.mem_text hmem).2.2.1 rfl, hlength⟩
    have hcontacted : url.host.contacted = toAsciiLowercase url.host.text := by
      rw [hhost]
      rfl
    have hrender : (RemoteUrl.scp url).render = url.render := rfl
    have hparse := url.parse_render hcolon hpath
    have hagain := url.parse_stored hcolon hpath
    rw [if_pos hauthority] at hparse
    rw [if_pos hstored] at hagain
    refine ⟨?_, ?_, ?_⟩
    · rw [hrender, hparse]
    · rw [hrender, hparse, RemoteUrl.kind, hcontacted]
    · rw [hrender, hparse, hagain]

/-! ## Local paths -/

theorem parseTrimmed_local (h : isLocal text = true) : parseTrimmed text = parseLocal text := by
  rw [isLocal, Bool.and_eq_true, Option.isNone_iff_eq_none] at h
  obtain ⟨hnone, hslash⟩ := h
  rw [parseTrimmed, hnone]
  cases hsplit : splitOnce ':' text with
  | none => rfl
  | some parts =>
    rw [hsplit] at hslash
    have hcontains : parts.1.contains '/' = true := hslash
    have hnot : isScpAuthority parts.1 = false := by
      rw [isScpAuthority, hcontains]
      rfl
    dsimp only
    rw [hnot]
    rfl

/-! ## What an approval covers -/

/-- A URL is kept without its credentials exactly when it is plain. -/
theorem redacts_iff_plain (url : RemoteUrl) : Redacts url ↔ Plain url := by
  cases url with
  | scheme url =>
    constructor
    · intro h
      have hends : EndsVisible (RemoteUrl.scheme url).withoutCredentials := h.trimmed.2
      exact EndsVisible.of_append (EndsVisible.of_append hends)
    · exact url.redacts
  | scp url => exact url.redacts_iff
  | path text valid =>
    constructor
    · exact fun h => h.trimmed
    · intro htrimmed
      have hparse : parse text = parseLocal text := by
        rw [parse, Network.Trimmed.trim_eq htrimmed, parseTrimmed_local valid]
      have hrender : (RemoteUrl.path text valid).render = text := rfl
      refine ⟨?_, ?_, ?_⟩
      · rw [hrender, hparse]
        rfl
      · rw [hrender, hparse]
        rfl
      · rw [hrender, hparse]
        exact hparse

/-- The URLs have the same host and the same path. -/
def SamePlace (first second : RemoteUrl) : Prop :=
  first.host = second.host ∧ first.place = second.place

theorem splitScheme_stored (url : SchemeUrl) :
    splitScheme (RemoteUrl.scheme url).withoutCredentials =
      some (url.scheme, url.hostPort ++ url.path) :=
  splitScheme_append url.leads _

/-- URLs with a scheme that are kept alike have the same host and the same path. -/
theorem SchemeUrl.samePlace (first second : SchemeUrl)
    (h : (RemoteUrl.scheme first).withoutCredentials = (RemoteUrl.scheme second).withoutCredentials) :
    SamePlace (.scheme first) (.scheme second) := by
  have hparts : first.hostPort ++ first.path = second.hostPort ++ second.path := by
    have hsplit := congrArg splitScheme h
    rw [splitScheme_stored, splitScheme_stored] at hsplit
    exact (Prod.mk.inj (Option.some.inj hsplit)).2
  have hauthority : ∀ (url : SchemeUrl), ∀ character ∈ url.hostPort, inAuthority character = true :=
    fun url character hmem => (url.mem_hostPort hmem).1
  have hstop : ∀ (url : SchemeUrl), ∀ character ∈ url.path.head?, inAuthority character = false := by
    intro url character hcharacter
    rcases url.pathStart with hnil | hslash
    · rw [hnil] at hcharacter
      cases hcharacter
    · rw [hslash] at hcharacter
      rw [← Option.some.inj hcharacter]
      decide
  have hhost : first.hostPort = second.hostPort := by
    rw [← takeWhile_append_stop (hauthority first) (hstop first), hparts,
      takeWhile_append_stop (hauthority second) (hstop second)]
  have hpath : first.path = second.path := by
    rw [← dropWhile_append_stop (hauthority first) (hstop first), hparts,
      dropWhile_append_stop (hauthority second) (hstop second)]
  constructor
  · rw [RemoteUrl.host, RemoteUrl.host, ← hostOf_hostPort, ← hostOf_hostPort, hhost]
  · exact hpath

section

variable (url : ScpUrl) (hcolon : ':' ∉ url.host.text)
include hcolon

theorem ScpUrl.splitScheme_stored :
    splitScheme (RemoteUrl.scp url).withoutCredentials = none := by
  rw [splitScheme_eq_none, RemoteUrl.withoutCredentials, schemeMark_infix_append]
  · exact url.mark_notMem
  · rw [mem_toAsciiLowercase_iff (by decide)]
    exact hcolon

theorem ScpUrl.splitOnce_stored :
    splitOnce ':' (RemoteUrl.scp url).withoutCredentials =
      some (toAsciiLowercase url.host.text, url.path) := by
  rw [RemoteUrl.withoutCredentials, TextCuts.splitOnce_append]
  rw [mem_toAsciiLowercase_iff (by decide)]
  exact hcolon

theorem ScpUrl.not_isLocal_stored :
    isLocal (RemoteUrl.scp url).withoutCredentials = false := by
  have hslash : '/' ∉ toAsciiLowercase url.host.text := by
    rw [mem_toAsciiLowercase_iff (by decide)]
    exact fun hmem => url.mem_front (List.mem_append_right _ hmem) rfl
  rw [isLocal, url.splitOnce_stored hcolon]
  simp [hslash]

end

theorem Plain.colon_notMem {url : ScpUrl} (h : Plain (.scp url)) : ':' ∉ url.host.text := by
  obtain ⟨⟨text, valid, hhost⟩, -⟩ := h
  rw [hhost]
  exact colon_notMem_name valid

theorem splitScheme_local (h : isLocal text = true) : splitScheme text = none := by
  rw [isLocal, Bool.and_eq_true, Option.isNone_iff_eq_none] at h
  exact h.1

/-- Plain URLs that are kept alike have the same host and the same path. -/
theorem samePlace_of_stored {first second : RemoteUrl} (hfirst : Plain first) (hsecond : Plain second)
    (h : first.withoutCredentials = second.withoutCredentials) : SamePlace first second := by
  have hscheme := congrArg splitScheme h
  cases first with
  | scheme first =>
    rw [splitScheme_stored] at hscheme
    cases second with
    | scheme second => exact first.samePlace second h
    | scp second =>
      rw [second.splitScheme_stored hsecond.colon_notMem] at hscheme
      cases hscheme
    | path text valid =>
      rw [RemoteUrl.withoutCredentials, splitScheme_local valid] at hscheme
      cases hscheme
  | scp first =>
    have hcolon := hfirst.colon_notMem
    rw [first.splitScheme_stored hcolon] at hscheme
    cases second with
    | scheme second =>
      rw [splitScheme_stored] at hscheme
      cases hscheme
    | scp second =>
      have hsplit := congrArg (splitOnce ':') h
      rw [first.splitOnce_stored hcolon, second.splitOnce_stored hsecond.colon_notMem] at hsplit
      obtain ⟨hhost, hpath⟩ := Prod.mk.inj (Option.some.inj hsplit)
      obtain ⟨⟨text, valid, hname⟩, -⟩ := hfirst
      obtain ⟨⟨other, validOther, hother⟩, -⟩ := hsecond
      rw [hname, hother] at hhost
      constructor
      · rw [RemoteUrl.host, RemoteUrl.host, hname, hother, Host.contacted, Host.contacted]
        exact congrArg some hhost
      · exact hpath
    | path text valid =>
      have hlocal := first.not_isLocal_stored hcolon
      rw [h, RemoteUrl.withoutCredentials, valid] at hlocal
      cases hlocal
  | path text valid =>
    cases second with
    | scheme second =>
      rw [splitScheme_stored, RemoteUrl.withoutCredentials, splitScheme_local valid] at hscheme
      cases hscheme
    | scp second =>
      have hlocal := second.not_isLocal_stored hsecond.colon_notMem
      rw [← h, RemoteUrl.withoutCredentials, valid] at hlocal
      cases hlocal
    | path other validOther => exact ⟨rfl, h⟩

/-- The destinations of the grants are the kept forms of approved URLs. -/
def ApprovedFor (grants : PrerequisiteGrants) (approved : List RemoteUrl) : Prop :=
  ∀ destination, destination ∈ grants.sshDestinations ∨ destination ∈ grants.tokenDestinations →
    ∃ url ∈ approved, (parse url.render).redacted = destination

theorem allowsToken_of_tokenForRemote {grants : PrerequisiteGrants}
    {remote : GitRemoteUrl} {secret : Text} (h : grants.tokenForRemote remote = some secret) :
    grants.allowsToken remote.redacted = true ∧ ∃ token host, grants.token = some token ∧
      remote.host = some host ∧ toAsciiLowercase token.host = toAsciiLowercase host := by
  unfold PrerequisiteGrants.tokenForRemote at h
  cases htoken : grants.token with
  | none =>
    rw [htoken] at h
    cases h
  | some token =>
    rw [htoken] at h
    dsimp only at h
    cases hhost : remote.host with
    | none =>
      rw [hhost] at h
      cases h
    | some host =>
      rw [hhost] at h
      dsimp only at h
      split_ifs at h with hallowed
      rw [Bool.and_eq_true, beq_iff_eq] at hallowed
      exact ⟨hallowed.1, token, host, rfl, rfl, hallowed.2⟩

/-- A destination that is approved has the same host and the same path as an approved URL. -/
theorem approved_samePlace {grants : PrerequisiteGrants} {approved : List RemoteUrl} {url : RemoteUrl}
    (hplain : ∀ other ∈ approved, Plain other) (hgrants : ApprovedFor grants approved)
    (hurl : Plain url)
    (h : (parse url.render).redacted ∈ grants.sshDestinations ∨
      (parse url.render).redacted ∈ grants.tokenDestinations) :
    ∃ other ∈ approved, SamePlace other url := by
  obtain ⟨other, hother, hstored⟩ := hgrants _ h
  rw [((redacts_iff_plain other).mpr (hplain other hother)).stored,
    ((redacts_iff_plain url).mpr hurl).stored] at hstored
  exact ⟨other, hother, samePlace_of_stored (hplain other hother) hurl hstored⟩

/-- The host that is read is the one that is contacted. -/
theorem Redacts.host {url : RemoteUrl} {host : Text} (h : Redacts url)
    (hhost : (parse url.render).host = some host) : url.host = some host := by
  rw [GitRemoteUrl.host, h.kind] at hhost
  cases url with
  | scheme url =>
    rw [RemoteUrl.kind] at hhost
    split_ifs at hhost with hssh hhttps hfile
    · exact hhost
    · exact hhost
  | scp url => exact hhost
  | path text valid => cases hhost

theorem RemoteUrl.toAsciiLowercase_host {url : RemoteUrl} {host : Text} (h : url.host = some host) :
    toAsciiLowercase host = host := by
  have hcontacted : ∀ other : Host, toAsciiLowercase other.contacted = other.contacted := by
    intro other
    cases other with
    | name text valid => exact toAsciiLowercase_idem text
    | literal address valid colon => exact toAsciiLowercase_idem address
  cases url with
  | scheme url | scp url =>
    rw [← Option.some.inj h]
    exact hcontacted url.host
  | path text valid => cases h

/-- A URL with a password, an address and a port, a query and a fragment. -/
def sampleUrl : SchemeUrl where
  scheme := "https".toList
  user := some "me:p@ss".toList
  host := .literal "::1".toList rfl (by decide)
  port := some "8443".toList
  path := "/o/r".toList
  query := some "q".toList
  fragment := some "f".toList
  schemeValid := by decide
  userValid := by decide
  portValid := by decide
  pathStart := by decide
  pathValid := by decide

/-- The grants after that URL was approved for a token. -/
def sampleGrants : PrerequisiteGrants where
  tokenDestinations := ["https://[::1]:8443/o/r".toList]
  token := some ⟨"s".toList, .pasted, "::1".toList, none⟩

/-- An `scp`-like URL with an address between brackets. -/
def bracketedUrl : ScpUrl where
  user := some "git".toList
  host := .literal "::1".toList rfl (by decide)
  path := "o/r".toList
  userValid := by decide
  unmarked := by decide

end Awman.Remotes
