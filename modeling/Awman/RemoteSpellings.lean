import Awman.NetworkNarrowing
import Awman.RemoteApproval
import Mathlib.Data.List.Chain
import Mathlib.Data.List.Sort

/-!
# One repository in many spellings

The owner and the repository of a remote are read off its URL in two ways.  Both read the same off every
plain spelling of one repository, so that a remote is found whichever of these spellings is configured.
-/

namespace Awman.Remotes

open Awman.Network (trim isWhiteSpace)
open Awman.TextCuts (splitOnce byteLength units stripSuffix)

/-- The pieces of a remote URL, as the URL spells them. -/
structure RemoteSlug where
  host : Text
  owner : Text
  repo : Text
  deriving DecidableEq

/-- The ending that a spelling may have. -/
def gitEnding : Text := ".git".toList

/-- Splits the path of a remote into owner and repository. -/
def splitOwnerRepo (path : Text) : Option (Text × Text) :=
  match splitOnce '/' ((stripSuffix gitEnding path).getD path) with
  | none => none
  | some (owner, rest) =>
    let repo := match splitOnce '/' rest with
      | some (repo, _) => repo
      | none => rest
    if owner = [] ∨ repo = [] then none else some (owner, repo)

/-- The slug of an authority and a path. -/
def RemoteSlug.ofParts (authority path : Text) : Option RemoteSlug :=
  (splitOwnerRepo path).map fun parts => ⟨withoutUserinfo authority, parts.1, parts.2⟩

/-- The slug of an `scp`-like remote, which has an `@` before its first colon. -/
def RemoteSlug.ofScp (remote : Text) : Option RemoteSlug :=
  match splitOnce ':' remote with
  | some (front, path) => if front.contains '@' then RemoteSlug.ofParts front path else none
  | none => none

/-- The slug of a URL with a scheme. -/
def RemoteSlug.ofUrl (remote : Text) : Option RemoteSlug :=
  match splitScheme remote with
  | some (_, afterScheme) =>
    match splitOnce '/' afterScheme with
    | some (authority, path) => RemoteSlug.ofParts authority path
    | none => none
  | none => none

/-- Parses a remote URL in either of the two shapes. -/
def RemoteSlug.parse (remoteUrl : Text) : Option RemoteSlug :=
  match RemoteSlug.ofScp (trim remoteUrl) with
  | some slug => some slug
  | none => RemoteSlug.ofUrl (trim remoteUrl)

/-- Whether the remote is at the host, ignoring case. -/
def RemoteSlug.isHost (slug : RemoteSlug) (host : Text) : Bool :=
  toAsciiLowercase slug.host == toAsciiLowercase host

/-- A text as a part of a directory name. -/
def normaliseSlug (text : Text) : Text :=
  text.map fun character => if character.isAlphanum then character.toLower else '-'

/-- Owner and repository as a directory name. -/
def RemoteSlug.normalisedPath (slug : RemoteSlug) : Text :=
  normaliseSlug slug.owner ++ '/' :: normaliseSlug slug.repo

/-- The directory name of a remote URL. -/
def parseOwnerRepo (remoteUrl : Text) : Option Text :=
  (RemoteSlug.parse remoteUrl).map RemoteSlug.normalisedPath

/-- Finds the configured remote that names the repository of a pull request: `origin` if it is among
them, and otherwise the first in name order. -/
def matchPullRequestRemote (remoteNames : Except Text (List Text)) (remoteUrl : Text → Option Text)
    (owner repo : Text) : Except Text Text := do
  let names ← remoteNames
  let matching := (names.insertionSort (· ≤ ·)).filter fun name =>
    !(name.isEmpty || name.head? == some '-') &&
      ((remoteUrl name).bind RemoteSlug.parse).any fun slug =>
        slug.isHost "github.com".toList && toAsciiLowercase slug.owner == toAsciiLowercase owner &&
          toAsciiLowercase slug.repo == toAsciiLowercase repo
  if matching.contains "origin".toList then .ok "origin".toList
  else match matching with
    | name :: _ => .ok name
    | [] => .error ("no git remote of this repository points at ".toList ++ owner ++ '/' :: repo ++
        "; a pull request can only be opened from a remote of the same repository".toList)

/-! ## Spellings -/

/-- A character of an owner or of a repository. -/
def isNameCharacter (character : Char) : Bool := inAuthority character && !isWhiteSpace character

/-- A repository on a host.  The ending `.git` belongs to its spelling and not to its name. -/
structure Repository where
  host : Host
  owner : Text
  repo : Text
  hostValid : host.text ≠ []
  ownerValid : owner ≠ [] ∧ owner.all isNameCharacter = true
  repoValid : repo ≠ [] ∧ repo.all isNameCharacter = true
  /-- The name is without the ending. -/
  repoBare : ¬ gitEnding <:+ repo

/-- A user that may stand in an `scp`-like URL. -/
def IsScpUser (user : Option Text) : Prop :=
  (userText user).all (fun character =>
    character != ':' && character != '/' && !isWhiteSpace character) = true

/-- What stands before the path of a spelling. -/
inductive Form (host : Host) where
  /-- `scp`-like, for a host without colons. -/
  | scp (user : Option Text) (hostValid : ':' ∉ host.text) (userValid : IsScpUser user)
  /-- With the scheme `ssh` or `https`, and with the default port or without. -/
  | url (https : Bool) (user : Option Text) (port : Bool)
      (userValid : (userText user).all inAuthority = true)

/-- A spelling of a repository. -/
structure Spelling (repository : Repository) where
  /-- What stands before the path. -/
  form : Form repository.host
  /-- The path has the ending `.git`. -/
  git : Bool
  /-- The path ends with a slash. -/
  slash : Bool

variable {repository : Repository}

/-- The repository as it is spelled. -/
def Spelling.repoText (spelling : Spelling repository) : Text :=
  repository.repo ++ if spelling.git then gitEnding else []

/-- The owner and the repository as they are spelled. -/
def Spelling.names (spelling : Spelling repository) : Text :=
  repository.owner ++ '/' :: spelling.repoText

/-- The path behind its first slash. -/
def Spelling.place (spelling : Spelling repository) : Text :=
  spelling.names ++ if spelling.slash then ['/'] else []

theorem slash_notMem {text : Text} (h : text.all isNameCharacter = true) : '/' ∉ text := fun hmem =>
  absurd (List.all_eq_true.mp h '/' hmem) (by decide)

theorem Spelling.repoText_valid (spelling : Spelling repository) :
    spelling.repoText ≠ [] ∧ spelling.repoText.all isNameCharacter = true := by
  have hgit : gitEnding.all isNameCharacter = true := by decide
  constructor
  · exact List.append_ne_nil_of_left_ne_nil repository.repoValid.1 _
  · rw [Spelling.repoText, List.all_append, repository.repoValid.2, Bool.true_and]
    split
    · exact hgit
    · rfl

theorem Spelling.mem_place {spelling : Spelling repository} {character : Char}
    (h : character ∈ spelling.place) : inPath character = true ∧ isWhiteSpace character = false := by
  have hname : ∀ text : Text, text.all isNameCharacter = true → character ∈ text →
      inPath character = true ∧ isWhiteSpace character = false := by
    intro text hall hmem
    have hvalid := List.all_eq_true.mp hall character hmem
    simp only [isNameCharacter, Bool.and_eq_true, Bool.not_eq_true'] at hvalid
    exact ⟨inPath_of_inAuthority hvalid.1, hvalid.2⟩
  simp only [Spelling.place, Spelling.names, List.mem_append, List.mem_cons] at h
  rcases h with (howner | rfl | hrepo) | hslash
  · exact hname _ repository.ownerValid.2 howner
  · decide
  · exact hname _ spelling.repoText_valid.2 hrepo
  · split at hslash
    · rw [List.mem_singleton.mp hslash]
      decide
    · cases hslash

theorem Spelling.last_names (spelling : Spelling repository) : spelling.names.getLast? ≠ some '/' := by
  intro hlast
  have hrepo := spelling.repoText_valid
  have hnames : spelling.names = (repository.owner ++ ['/']) ++ spelling.repoText := by
    rw [Spelling.names, List.append_assoc, List.singleton_append]
  rw [hnames, List.getLast?_append_of_ne_nil _ hrepo.1] at hlast
  exact slash_notMem hrepo.2 (List.mem_of_mem_getLast? hlast)

/-- Not both characters are slashes. -/
def NoSlashes (first second : Char) : Prop := first = '/' → second ≠ '/'

theorem isChain_of_notMem {text : Text} (h : '/' ∉ text) : text.IsChain NoSlashes := by
  refine List.Pairwise.isChain (List.pairwise_of_forall_mem_list ?_)
  intro first hfirst second _ hslash
  rw [hslash] at hfirst
  exact absurd hfirst h

/-- No scheme mark begins at a colon before the path or later: no two slashes come together. -/
theorem Spelling.mark_notMem (spelling : Spelling repository) :
    ¬ schemeMark <:+: ':' :: spelling.place := by
  have hrepo := slash_notMem spelling.repoText_valid.2
  have howner := slash_notMem repository.ownerValid.2
  have hnames : spelling.names.IsChain NoSlashes := by
    refine (isChain_of_notMem howner).append ((isChain_of_notMem hrepo).cons ?_) ?_
    · rintro first hfirst - rfl
      exact hrepo (List.mem_of_mem_head? hfirst)
    · rintro last hlast _ - rfl
      exact absurd (List.mem_of_mem_getLast? hlast) howner
  have hplace : (':' :: spelling.place).IsChain NoSlashes := by
    refine List.IsChain.cons (hnames.append ?_ ?_) fun _ _ hcolon => absurd hcolon (by decide)
    · split
      · exact List.isChain_singleton _
      · exact List.isChain_nil
    · rintro last hlast _ - rfl
      exact absurd hlast spelling.last_names
  intro hmark
  have hslashes := hplace.infix hmark
  simp [schemeMark, NoSlashes] at hslashes

/-- The spelling in an `scp`-like URL. -/
def Spelling.scpUrl (spelling : Spelling repository) (user : Option Text)
    (hostValid : ':' ∉ repository.host.text) (userValid : IsScpUser user) : ScpUrl where
  user := user
  host := repository.host
  path := spelling.place
  userValid := by
    refine List.all_eq_true.mpr fun character hmem => ?_
    exact (Bool.and_eq_true_iff.mp (List.all_eq_true.mp userValid character hmem)).1
  unmarked := by
    rw [splitScheme_eq_none, schemeMark_infix_append]
    · exact spelling.mark_notMem
    · rw [List.mem_append, not_or]
      exact ⟨fun hmem => absurd (List.all_eq_true.mp userValid ':' hmem) (by decide), hostValid⟩

/-- The spelling in a URL with a scheme. -/
def Spelling.schemeUrl (spelling : Spelling repository) (https : Bool) (user : Option Text) (port : Bool)
    (userValid : (userText user).all inAuthority = true) : SchemeUrl where
  scheme := if https then "https".toList else "ssh".toList
  user := user
  host := repository.host
  port := if port then some (if https then "443".toList else "22".toList) else none
  path := '/' :: spelling.place
  query := none
  fragment := none
  schemeValid := by
    cases https <;> decide
  userValid := userValid
  portValid := by
    cases port <;> cases https <;> decide
  pathStart := Or.inr rfl
  pathValid := by
    rw [List.all_cons, List.all_eq_true.mpr fun character hmem => (Spelling.mem_place hmem).1]
    rfl

/-- The URL as it is written. -/
def Spelling.render (spelling : Spelling repository) : Text :=
  match spelling.form with
  | .scp user hostValid userValid => (spelling.scpUrl user hostValid userValid).render
  | .url https user port userValid => (spelling.schemeUrl https user port userValid).render

/-! ## Owner and repository -/

theorem stripSuffix_git {text : Text} (h : ¬ gitEnding <:+ text) : stripSuffix gitEnding text = none :=
  if_neg h

/-- The ending of the path is that of the repository. -/
theorem gitEnding_suffix {front text : Text} (h : gitEnding <:+ front ++ '/' :: text) :
    gitEnding <:+ text := by
  rcases List.suffix_or_suffix_of_suffix h (List.suffix_append front ('/' :: text)) with hgit | htext
  · rcases List.suffix_cons_iff.mp hgit with heq | hsuffix
    · cases heq
    · exact hsuffix
  · exact absurd (htext.subset List.mem_cons_self) (by decide)

theorem Spelling.splitOwnerRepo_place {spelling : Spelling repository}
    (h : spelling.git = false ∨ spelling.slash = false) :
    splitOwnerRepo spelling.place = some (repository.owner, repository.repo) := by
  have howner := slash_notMem repository.ownerValid.2
  have hrepo := slash_notMem repository.repoValid.2
  have hnonempty : ¬ (repository.owner = [] ∨ repository.repo = []) :=
    not_or.mpr ⟨repository.ownerValid.1, repository.repoValid.1⟩
  cases hslash : spelling.slash with
  | true =>
    have hgit : spelling.git = false := by
      rcases h with h | h
      · exact h
      · rw [hslash] at h
        cases h
    have hplace : spelling.place = repository.owner ++ '/' :: (repository.repo ++ ['/']) := by
      simp [Spelling.place, Spelling.names, Spelling.repoText, hgit, hslash]
    have hstrip : stripSuffix gitEnding spelling.place = none := by
      refine stripSuffix_git fun hsuffix => ?_
      rw [hplace] at hsuffix
      have hend := (gitEnding_suffix hsuffix).getLast (by decide)
      rw [List.getLast_append_of_ne_nil _ (by simp)] at hend
      exact absurd hend (by decide)
    rw [splitOwnerRepo, hstrip, Option.getD_none, hplace, TextCuts.splitOnce_append howner]
    dsimp only
    rw [TextCuts.splitOnce_append hrepo, if_neg hnonempty]
  | false =>
    have hstrip : (stripSuffix gitEnding spelling.place).getD spelling.place =
        repository.owner ++ '/' :: repository.repo := by
      cases hgit : spelling.git with
      | true =>
        have hplace : spelling.place = (repository.owner ++ '/' :: repository.repo) ++ gitEnding := by
          simp [Spelling.place, Spelling.names, Spelling.repoText, hgit, hslash]
        rw [hplace, TextCuts.stripSuffix_eq_some.mpr rfl, Option.getD_some]
      | false =>
        have hplace : spelling.place = repository.owner ++ '/' :: repository.repo := by
          simp [Spelling.place, Spelling.names, Spelling.repoText, hgit, hslash]
        rw [hplace, stripSuffix_git fun hsuffix => repository.repoBare (gitEnding_suffix hsuffix),
          Option.getD_none]
    rw [splitOwnerRepo, hstrip, TextCuts.splitOnce_append howner]
    dsimp only
    rw [TextCuts.splitOnce_eq_none.mpr hrepo, if_neg hnonempty]

theorem dropGit_reverse {text : Text} (h : ¬ gitEnding <:+ text) : dropGit text.reverse = text.reverse := by
  unfold dropGit
  split
  · rename_i rest heq
    refine absurd ⟨rest.reverse, ?_⟩ h
    rw [← List.reverse_reverse text, heq]
    simp [gitEnding]
  · rfl

theorem Spelling.dropGit_repoText (spelling : Spelling repository) :
    (dropGit spelling.repoText.reverse).reverse = repository.repo := by
  have hbare := dropGit_reverse repository.repoBare
  rw [Spelling.repoText]
  split
  · rw [List.reverse_append]
    have hdrop : dropGit (gitEnding.reverse ++ repository.repo.reverse) =
        dropGit repository.repo.reverse := rfl
    rw [hdrop, hbare, List.reverse_reverse]
  · rw [List.append_nil, hbare, List.reverse_reverse]

theorem Spelling.ownerRepo_place (spelling : Spelling repository) {front : Text}
    (h : front = [] ∨ front = ['/']) :
    ownerRepo (front ++ spelling.place) = some (repository.owner, repository.repo) := by
  have howner := slash_notMem repository.ownerValid.2
  have hfront : (front ++ spelling.place).dropWhile (· == '/') = spelling.place := by
    have hplace : spelling.place.dropWhile (· == '/') = spelling.place := by
      obtain ⟨first, rest, hfirst⟩ := List.exists_cons_of_ne_nil repository.ownerValid.1
      rw [hfirst] at howner
      have hne : first ≠ '/' := fun heq => howner (heq ▸ List.mem_cons_self)
      rw [Spelling.place, Spelling.names, hfirst, List.cons_append, List.cons_append,
        List.dropWhile_cons_of_neg (by simpa using hne)]
    rcases h with rfl | rfl
    · exact hplace
    · exact hplace
  have hnames : spelling.names.rdropWhile (· == '/') = spelling.names := by
    rw [List.rdropWhile_eq_self_iff]
    intro hne hlast
    refine spelling.last_names ?_
    rw [List.getLast?_eq_getLast_of_ne_nil hne, beq_iff_eq.mp hlast]
  have hback : spelling.place.rdropWhile (· == '/') = spelling.names := by
    rw [Spelling.place]
    split
    · rw [List.rdropWhile_concat_pos _ _ _ (by decide), hnames]
    · rw [List.append_nil, hnames]
  have hsplit : spelling.names.splitOn '/' = [repository.owner, spelling.repoText] := by
    rw [Spelling.names, List.splitOn_append_cons_self, List.splitOn_eq_singleton howner,
      List.splitOn_eq_singleton (slash_notMem spelling.repoText_valid.2)]
    rfl
  rw [ownerRepo, hfront, hback, hsplit]
  dsimp only
  rw [if_pos ⟨repository.ownerValid.1, spelling.repoText_valid.1⟩, spelling.dropGit_repoText]

/-! ## What a spelling is read as -/

/-- The slug of a URL whose authority ends before a path. -/
theorem SchemeUrl.slug (url : SchemeUrl) {place : Text} (hpath : url.path = '/' :: place)
    (htail : url.tail = []) (hends : EndsVisible url.path) :
    RemoteSlug.parse url.render = (splitOwnerRepo place).map fun parts =>
      ⟨url.hostPort, parts.1, parts.2⟩ := by
  have hscheme : ∀ character, isSchemeCharacter character = false → character ∉ url.scheme := by
    intro character hnot hmem
    rw [List.all_eq_true.mp url.schemeValid.2 character hmem] at hnot
    cases hnot
  have htrim : trim url.render = url.render := by
    rw [url.trim_render hends, SchemeUrl.render, htail]
    rfl
  have hscp : RemoteSlug.ofScp url.render = none := by
    have hcolon : url.render = url.scheme ++ ':' :: ("//".toList ++
        (userText url.user ++ url.hostPort ++ (url.path ++ url.tail))) := by
      rw [SchemeUrl.render, List.append_assoc]
      rfl
    rw [RemoteSlug.ofScp, hcolon, TextCuts.splitOnce_append (hscheme ':' (by decide))]
    dsimp only
    rw [if_neg]
    rw [List.contains_iff_mem]
    exact hscheme '@' (by decide)
  have hslash : '/' ∉ userText url.user ++ url.hostPort := by
    rw [List.mem_append]
    rintro (huser | hhost)
    · exact absurd (List.all_eq_true.mp url.userValid '/' huser) (by decide)
    · exact absurd (url.mem_hostPort hhost).1 (by decide)
  have hnot : '@' ∉ url.hostPort := fun hmem => (url.mem_hostPort hmem).2.1 rfl
  rw [RemoteSlug.parse, htrim, hscp]
  dsimp only
  rw [RemoteSlug.ofUrl, SchemeUrl.render, splitScheme_append url.leads, htail, List.append_nil, hpath]
  dsimp only
  rw [TextCuts.splitOnce_append hslash]
  dsimp only
  rw [RemoteSlug.ofParts, withoutUserinfo_userText _ hnot]

/-- The slug of an `scp`-like URL; without a user it has none. -/
theorem ScpUrl.slug (url : ScpUrl) (hcolon : ':' ∉ url.host.text) (htrimmed : Network.Trimmed url.render) :
    RemoteSlug.parse url.render =
      if url.user.isSome then (splitOwnerRepo url.path).map fun parts =>
        ⟨url.host.text, parts.1, parts.2⟩
      else none := by
  have hnot : '@' ∉ url.host.text := fun hmem => (url.host.mem_text hmem).2.1 rfl
  have hfront : ':' ∉ userText url.user ++ url.host.text := by
    rw [List.mem_append, not_or]
    exact ⟨fun hmem => absurd (List.all_eq_true.mp url.userValid ':' hmem) (by decide), hcolon⟩
  have hurl : RemoteSlug.ofUrl url.render = none := by
    rw [RemoteSlug.ofUrl, ScpUrl.render, url.unmarked]
  have hscp : RemoteSlug.ofScp url.render =
      if url.user.isSome then (splitOwnerRepo url.path).map fun parts =>
        ⟨url.host.text, parts.1, parts.2⟩
      else none := by
    rw [RemoteSlug.ofScp, ScpUrl.render, TextCuts.splitOnce_append hfront]
    dsimp only
    rw [RemoteSlug.ofParts, withoutUserinfo_userText url.user hnot]
    cases url.user with
    | none => simp [userText, hnot]
    | some user => simp [userText]
  rw [RemoteSlug.parse, htrimmed.trim_eq, hscp, hurl]
  split
  · rename_i slug hslug
    exact hslug.symm
  · rename_i hslug
    exact hslug.symm

/-- The URL is read as one of the host: an `scp`-like one has no backslash in its user, and it is longer
than a drive before its colon. -/
def Spelling.Known (spelling : Spelling repository) : Prop :=
  match spelling.form with
  | .scp user _ _ => '\\' ∉ userText user ∧ (user.isSome = true ∨ 1 < byteLength repository.host.text)
  | .url _ _ _ _ => True

/-- An `scp`-like spelling has a user, no port is written, and no slash follows the ending `.git`. -/
def Spelling.Plain (spelling : Spelling repository) : Prop :=
  spelling.Known ∧ (spelling.git = false ∨ spelling.slash = false) ∧
    match spelling.form with
    | .scp user _ _ => user.isSome = true
    | .url _ _ port _ => port = false

/-- The URL is `scp`-like and without a user. -/
def Spelling.Userless (spelling : Spelling repository) : Prop :=
  ∃ hostValid userValid, spelling.form = .scp none hostValid userValid

/-- The slug of a repository. -/
def Repository.slug (repository : Repository) : RemoteSlug :=
  ⟨repository.host.text, repository.owner, repository.repo⟩

theorem Spelling.endsVisible_place (spelling : Spelling repository) : EndsVisible spelling.place :=
  endsVisible_of_forall fun _ hmem => (Spelling.mem_place hmem).2

/-- Nothing in an `scp`-like spelling is blank. -/
theorem Spelling.visible_scpUrl (spelling : Spelling repository) {user : Option Text} {hostValid}
    (userValid : IsScpUser user) {character : Char}
    (hmem : character ∈ (spelling.scpUrl user hostValid userValid).render) :
    isWhiteSpace character = false := by
  rcases List.mem_append.mp hmem with hfront | hpath
  · rcases List.mem_append.mp hfront with huser | hhost
    · have hvalid := List.all_eq_true.mp userValid character huser
      simpa using (Bool.and_eq_true_iff.mp hvalid).2
    · exact (repository.host.mem_text hhost).2.2.2
  · rcases List.mem_cons.mp hpath with rfl | hplace
    · decide
    · exact (Spelling.mem_place hplace).2

theorem Spelling.slug_scpUrl (spelling : Spelling repository) (user : Option Text) (hostValid)
    (userValid : IsScpUser user) :
    RemoteSlug.parse (spelling.scpUrl user hostValid userValid).render =
      if user.isSome then (splitOwnerRepo spelling.place).map fun parts =>
        ⟨repository.host.text, parts.1, parts.2⟩
      else none :=
  (spelling.scpUrl user hostValid userValid).slug hostValid
    (Network.trimmed_of_forall fun _ => spelling.visible_scpUrl userValid)

theorem Spelling.endsVisible_path (spelling : Spelling repository) :
    EndsVisible ('/' :: spelling.place) := by
  have hfront : EndsVisible ['/'] := endsVisible_of_forall fun character hmem => by
    rw [List.mem_singleton.mp hmem]
    decide
  exact hfront.append spelling.endsVisible_place

/-- The slug of a plain spelling is that of the repository. -/
theorem Spelling.Plain.slug {spelling : Spelling repository} (h : spelling.Plain) :
    RemoteSlug.parse spelling.render = some repository.slug := by
  obtain ⟨-, hends, hplain⟩ := h
  have hparts := Spelling.splitOwnerRepo_place hends
  cases hform : spelling.form with
  | scp user hostValid userValid =>
    rw [hform] at hplain
    rw [Spelling.render, hform]
    dsimp only
    rw [spelling.slug_scpUrl, if_pos hplain, hparts]
    rfl
  | url https user port userValid =>
    rw [hform] at hplain
    dsimp only at hplain
    have hhost : (spelling.schemeUrl https user port userValid).hostPort = repository.host.text := by
      rw [SchemeUrl.hostPort, Spelling.schemeUrl, hplain]
      exact List.append_nil _
    rw [Spelling.render, hform]
    dsimp only
    rw [SchemeUrl.slug _ rfl rfl spelling.endsVisible_path, hparts, hhost]
    rfl

theorem Spelling.Userless.slug {spelling : Spelling repository} (h : spelling.Userless) :
    RemoteSlug.parse spelling.render = none := by
  obtain ⟨hostValid, userValid, hform⟩ := h
  rw [Spelling.render, hform]
  dsimp only
  rw [spelling.slug_scpUrl]
  rfl

/-- What stands before the colon of a spelling is not taken for a drive or a path. -/
theorem isScpAuthority_user {user : Option Text} (userValid : IsScpUser user)
    (hbackslash : '\\' ∉ userText user)
    (hlong : user.isSome = true ∨ 1 < byteLength repository.host.text) :
    isScpAuthority (userText user ++ repository.host.text) = true := by
  have hhost := fun character => @Host.mem_text character repository.host
  rw [isScpAuthority_iff, List.mem_append, not_or, List.mem_append, not_or]
  refine ⟨⟨?_, ?_⟩, ⟨hbackslash, ?_⟩, ?_⟩
  · exact fun hmem => absurd (List.all_eq_true.mp userValid '/' hmem) (by decide)
  · exact fun hmem => absurd (hhost '/' hmem).1 (by decide)
  · exact fun hmem => (hhost '\\' hmem).2.2.1 rfl
  · cases user with
    | none =>
      rcases hlong with hsome | hlong
      · cases hsome
      · exact hlong
    | some user =>
      obtain ⟨first, rest, hfirst⟩ := List.exists_cons_of_ne_nil repository.hostValid
      have hsize := first.utf8Size_pos
      have hat : Char.utf8Size '@' = 1 := by decide
      rw [hfirst]
      simp only [byteLength, units, userText, List.map_append, List.map_cons, List.map_nil, List.sum_append,
        List.sum_cons, List.sum_nil, hat]
      omega

/-- The host and the parts of the path that a spelling is read as. -/
theorem Spelling.Known.parse {spelling : Spelling repository} (h : spelling.Known) :
    (parse spelling.render).host = some repository.host.contacted ∧
      (parse spelling.render).ownerRepo = some (repository.owner, repository.repo) := by
  rw [Spelling.Known] at h
  cases hform : spelling.form with
  | scp user hostValid userValid =>
    rw [hform] at h
    have hcontacted : repository.host.contacted = toAsciiLowercase repository.host.text := by
      cases hhost : repository.host with
      | name text valid => rfl
      | literal address valid colon =>
        rw [hhost, Host.text] at hostValid
        exact absurd (by simp [colon]) hostValid
    have hfront : (userText user ++ repository.host.text).dropWhile isWhiteSpace =
        userText user ++ repository.host.text :=
      dropWhile_of_forall fun _ hmem =>
        @Spelling.visible_scpUrl repository spelling user hostValid userValid _
          (List.mem_append_left _ hmem)
    have hparse := (spelling.scpUrl user hostValid userValid).parse_render hostValid
      (endsVisible_of_forall fun _ hmem => (Spelling.mem_place hmem).2)
    have hauthority := isScpAuthority_user userValid h.1 h.2
    rw [Spelling.render, hform]
    dsimp only
    rw [hparse, Spelling.scpUrl, hfront, if_pos hauthority, hcontacted]
    exact ⟨rfl, spelling.ownerRepo_place (Or.inl rfl)⟩
  | url https user port userValid =>
    have hparse := (spelling.schemeUrl https user port userValid).parse_render spelling.endsVisible_path
    rw [Spelling.render, hform]
    dsimp only
    rw [hparse]
    have hplace := @Spelling.ownerRepo_place repository spelling ['/'] (Or.inr rfl)
    cases https
    · exact ⟨rfl, hplace⟩
    · exact ⟨rfl, hplace⟩

/-- Two URLs are the same or plain spellings of one repository. -/
def Respelled (first second : Option Text) : Prop :=
  first = second ∨ ∃ repository, ∃ spelling other : Spelling repository,
    spelling.Plain ∧ other.Plain ∧ first = some spelling.render ∧ second = some other.render

theorem Respelled.slug {first second : Option Text} (h : Respelled first second) :
    first.bind RemoteSlug.parse = second.bind RemoteSlug.parse := by
  rcases h with rfl | ⟨repository, spelling, other, hspelling, hother, rfl, rfl⟩
  · rfl
  · rw [Option.bind_some, Option.bind_some, hspelling.slug, hother.slug]

/-- One repository, one slug: whichever plain spelling is configured, both ways to read the URL give the
repository, its directory is the same, and a pull request finds the same remote.  An `scp`-like URL without
a user has no slug. -/
theorem spellings_name_one_repository :
    (∀ (repository : Repository) (first second : Spelling repository), first.Plain → second.Plain →
      RemoteSlug.parse first.render = some repository.slug ∧
        RemoteSlug.parse second.render = some repository.slug) ∧
    (∀ (repository : Repository) (spelling : Spelling repository), spelling.Known →
      (parse spelling.render).host = some repository.host.contacted ∧
        (parse spelling.render).ownerRepo = some (repository.owner, repository.repo)) ∧
    (∀ (repository : Repository) (spelling : Spelling repository), spelling.Userless →
      RemoteSlug.parse spelling.render = none) ∧
    (∀ first second : Option Text, Respelled first second →
      first.bind parseOwnerRepo = second.bind parseOwnerRepo) ∧
    ∀ (remoteNames : Except Text (List Text)) (before after : Text → Option Text) (owner repo : Text),
      (∀ name, Respelled (before name) (after name)) →
        matchPullRequestRemote remoteNames before owner repo =
          matchPullRequestRemote remoteNames after owner repo := by
  refine ⟨fun _ _ _ hfirst hsecond => ⟨hfirst.slug, hsecond.slug⟩, fun _ _ => Spelling.Known.parse,
    fun _ _ => Spelling.Userless.slug, ?_, ?_⟩
  · intro first second h
    have hpaths := congrArg (Option.map RemoteSlug.normalisedPath) h.slug
    rwa [Option.map_bind, Option.map_bind] at hpaths
  · intro remoteNames before after owner repo h
    have hslugs : ∀ name, (before name).bind RemoteSlug.parse = (after name).bind RemoteSlug.parse :=
      fun name => (h name).slug
    unfold matchPullRequestRemote
    simp only [hslugs]

/-- A repository on a host with a name. -/
def hostedTool : Repository where
  host := .name "github.com".toList (by decide)
  owner := "org".toList
  repo := "tool".toList
  hostValid := by decide
  ownerValid := by decide
  repoValid := by decide
  repoBare := by decide

/-- Two spellings of it. -/
theorem hostedTool_spellings :
    RemoteSlug.parse "git@github.com:org/tool.git".toList = some hostedTool.slug ∧
      RemoteSlug.parse "https://github.com/org/tool/".toList = some hostedTool.slug :=
  spellings_name_one_repository.1 hostedTool
    ⟨.scp (some "git".toList) (by decide) rfl, true, false⟩ ⟨.url true none false rfl, false, true⟩
    ⟨⟨by decide, Or.inl rfl⟩, Or.inr rfl, rfl⟩ ⟨trivial, Or.inl rfl, rfl⟩

/-- Spellings that are not plain: without a user, with a port, with a slash behind the ending, with an
address between brackets before the colon, and with a backslash in the user. -/
theorem spellings_read_otherwise :
    RemoteSlug.parse "github.com:org/tool.git".toList = none ∧
      (RemoteSlug.parse "ssh://git@github.com:22/org/tool.git".toList).map RemoteSlug.host =
        some "github.com:22".toList ∧
      (RemoteSlug.parse "https://github.com/org/tool.git/".toList).map RemoteSlug.repo =
        some "tool.git".toList ∧
      (RemoteSlug.parse "git@[::1]:org/tool".toList).map RemoteSlug.host = some "[".toList ∧
      (parse "team\\git@github.com:org/tool".toList).host = none := by
  decide

end Awman.Remotes
