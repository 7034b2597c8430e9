import Awman.Blanks
import Awman.Library.HexPairs
import Awman.Library.TextCuts

/-!
# References to images in a registry

A reference names a registry, a repository in it, and a tag or a digest.  Parts that are left out
are filled in, and the configured source may put its own registry in front.  The printed form of a
reference is the key of the cache and an annotation of the archive.
-/

namespace Awman.References

open Awman.Checks Awman.Network Awman.TextCuts Awman.HexPairs

/-- A text as its characters. -/
abbrev Text := List Char

/-- What a digest starts with. -/
def digestMark : Text := "sha256:".toList

/-- The text is `sha256:` and 64 lowercase hexadecimal digits. -/
def isDigest (text : Text) : Bool :=
  match stripPrefix digestMark text with
  | some hex => byteLength hex == 64 && hex.all isLowerHex
  | none => false

/-- A content digest. -/
structure Digest where
  text : Text
  valid : isDigest text = true
  deriving DecidableEq

/-- Read a digest; other algorithms are rejected. -/
def Digest.parse (text : Text) : Except String Digest :=
  let name := String.ofList text
  if ¬ digestMark <+: text then .error s!"digest `{name}` must start with `sha256:`"
  else if hvalid : isDigest text = true then .ok ⟨text, hvalid⟩
  else .error s!"digest `{name}` must be `sha256:` followed by 64 lowercase hex characters"

/-- A parsed `[host[:port]/]repository[:tag][@sha256:…]` reference. -/
structure ImageReference where
  registry : Text
  repository : Text
  tag : Option Text
  digest : Option Digest
  deriving DecidableEq

/-- The registry of a reference that names none. -/
def dockerHub : Text := "docker.io".toList

/-- One of the names of Docker Hub. -/
def isDockerHub (registry : Text) : Bool :=
  registry == dockerHub || registry == "index.docker.io".toList ||
    registry == "registry-1.docker.io".toList

/-- Two names of one registry. -/
def sameRegistry (first second : Text) : Bool :=
  first == second || (isDockerHub first && isDockerHub second)

/-- A character of a component of a repository. -/
def isRepositoryChar (character : Char) : Bool :=
  character.isLower || character.isDigit || character == '.' || character == '_' ||
    character == '-'

/-- A component of a repository has a letter or digit in front. -/
def validComponent (component : Text) : Bool :=
  component.all isRepositoryChar && component.head?.any Char.isAlphanum

/-- A repository is made of components between slashes. -/
def validRepository (repository : Text) : Bool :=
  repository != [] && (repository.splitOn '/').all validComponent

/-- A character of a tag. -/
def isTagChar (character : Char) : Bool :=
  character.isAlphanum || character == '_' || character == '.' || character == '-'

/-- A tag has at most 128 bytes, with no dot or hyphen in front. -/
def validTag (tag : Text) : Bool :=
  tag != [] && byteLength tag ≤ 128 && tag.head? != some '.' && tag.head? != some '-' &&
    tag.all isTagChar

/-- Refuse what is no repository. -/
def validateRepository (repository : Text) : Except String Unit :=
  let name := String.ofList repository
  refuseIf (validRepository repository = false) s!"`{name}` is not a valid repository name"

/-- Refuse what is no tag. -/
def validateTag (tag : Text) : Except String Unit :=
  let name := String.ofList tag
  refuseIf (validTag tag = false) s!"`{name}` is not a valid tag"

/-- A text that is taken for a registry where it stands before the first slash. -/
def namesRegistry (first : Text) : Bool :=
  first.contains '.' || first.contains ':' || first == "localhost".toList

/-- The parts of a reference before and after the at sign. -/
def splitDigest (reference : Text) : Except String (Text × Option Digest) :=
  match splitOnce '@' reference with
  | some (rest, digest) => (fun digest => (rest, some digest)) <$> Digest.parse digest
  | none => .ok (reference, none)

/-- The registry that is named, and the path in it. -/
def namedRegistry (rest : Text) : Option Text × Text :=
  match splitOnce '/' rest with
  | some (first, remainder) =>
    if namesRegistry first then (some first, remainder) else (none, rest)
  | none => (none, rest)

/-- The repository of a path, and its tag. -/
def splitTag (path : Text) : Text × Option Text :=
  match rsplitOnce ':' path with
  | some (repository, tag) => if '/' ∈ tag then (path, none) else (repository, some tag)
  | none => (path, none)

/-- The registry: the one named, which must not differ from the one of the source. -/
def chooseRegistry (reference : Text) (named forced : Option Text) : Except String Text :=
  match named, forced with
  | some named, some forced =>
    let texts := (String.ofList reference, String.ofList named, String.ofList forced)
    if sameRegistry named forced then .ok named
    else .error ("reference `" ++ texts.1 ++ "` names registry `" ++ texts.2.1 ++
      "`, but the source is configured for `" ++ texts.2.2 ++ "`")
  | some named, none => .ok named
  | none, some forced => .ok forced
  | none, none => .ok dockerHub

/-- The repository with the name that Docker Hub puts in front of a single component. -/
def fullRepository (registry repository : Text) : Text :=
  if isDockerHub registry ∧ '/' ∉ repository then "library/".toList ++ repository else repository

/-- The tag, filled in if neither it nor a digest is given. -/
def defaultTag (tag : Option Text) (digest : Option Digest) : Option Text :=
  if tag = none ∧ digest = none then some "latest".toList else tag

/-- Parse a reference; `registryOverride` is the registry of the source. -/
def ImageReference.parse (reference : Text) (registryOverride : Option Text) :
    Except String ImageReference := do
  let reference := trim reference
  let name := String.ofList reference
  refuseIf (reference = []) "empty image reference"
  refuseIf ("://".toList <:+: reference ∨ reference.any isWhiteSpace = true)
    s!"`{name}` is not an image reference"
  let (rest, digest) ← splitDigest reference
  let (named, path) := namedRegistry rest
  let (repository, tag) := splitTag path
  let registry ← chooseRegistry reference named (registryOverride.map trim)
  let registryName := String.ofList registry
  refuseIf ('@' ∈ registry ∨ '/' ∈ registry) s!"registry `{registryName}` must be host[:port]"
  let repository := fullRepository registry repository
  validateRepository repository
  let _ ← checkField validateTag tag
  pure { registry, repository, tag := defaultTag tag digest, digest }

/-- A part that is printed behind a sign if it is there. -/
def part (sign : Char) (field : Option Text) : Text :=
  match field with
  | some value => sign :: value
  | none => []

/-- The printed form of a reference. -/
def ImageReference.display (reference : ImageReference) : Text :=
  reference.registry ++ '/' :: (reference.repository ++ part ':' reference.tag ++
    part '@' (reference.digest.map Digest.text))

/-- The registry stands for itself in front of a printed reference. -/
def Recognised (registry : Text) : Prop :=
  namesRegistry registry = true ∧ ∀ character ∈ registry, isWhiteSpace character = false

/-- The reference names its registry. -/
def NamesItsRegistry (reference : Text) : Prop :=
  (namedRegistry ((trim reference).takeWhile (· ≠ '@'))).1.isSome = true

/-- The source's own registry is not used, or stands for itself when it is printed. -/
def OverrideRecognised (reference : Text) (registryOverride : Option Text) : Prop :=
  NamesItsRegistry reference ∨ ∀ forced, registryOverride = some forced → Recognised (trim forced)

/-! ## What parsing succeeds on -/

/-- The steps of parsing a trimmed reference to `result`. -/
structure Reads (reference : Text) (forced : Option Text) (rest repository : Text)
    (tag : Option Text) (result : ImageReference) : Prop where
  nonempty : reference ≠ []
  noScheme : ¬ "://".toList <:+: reference
  noBlank : ∀ character ∈ reference, isWhiteSpace character = false
  digest : splitDigest reference = .ok (rest, result.digest)
  parts : splitTag (namedRegistry rest).2 = (repository, tag)
  registry : chooseRegistry reference (namedRegistry rest).1 forced = .ok result.registry
  host : '@' ∉ result.registry ∧ '/' ∉ result.registry
  full : fullRepository result.registry repository = result.repository
  validRepository : validRepository result.repository = true
  validTag : ∀ given, tag = some given → validTag given = true
  defaulted : defaultTag tag result.digest = result.tag

theorem checkField_validateTag {tag : Option Text} :
    (∃ checked, checkField validateTag tag = .ok checked) ↔
      ∀ given, tag = some given → validTag given = true := by
  cases tag with
  | none => simp [checkField]
  | some given =>
    simp only [checkField, map_eq_ok, validateTag, refuseIf_eq_ok, Bool.not_eq_false,
      Option.some.injEq]
    constructor
    · intro h other heq
      obtain ⟨_, _, hvalid, _⟩ := h
      rw [← heq]
      exact hvalid
    · intro h
      exact ⟨some (), (), h given rfl, rfl⟩

theorem parse_eq_ok {reference : Text} {registryOverride : Option Text} {result : ImageReference} :
    ImageReference.parse reference registryOverride = .ok result ↔
      ∃ rest repository tag,
        Reads (trim reference) (registryOverride.map trim) rest repository tag result := by
  unfold ImageReference.parse
  simp only [bind_eq_ok, refuseIf_eq_ok, pure_eq_ok, validateRepository, Bool.not_eq_false]
  constructor
  · intro h
    obtain ⟨_, hnonempty, _, hshape, ⟨rest, digest⟩, hdigest, registry, hregistry, _, hhost, _,
      hrepository, checked, hchecked, hresult⟩ := h
    have hvalidTag := checkField_validateTag.mp ⟨checked, hchecked⟩
    push Not at hshape hhost
    have hblank : ∀ character ∈ trim reference, isWhiteSpace character = false := by
      simpa using hshape.2
    subst hresult
    exact ⟨rest, _, _, hnonempty, hshape.1, hblank, hdigest, rfl, hregistry, hhost, rfl,
      hrepository, hvalidTag, rfl⟩
  · intro h
    obtain ⟨rest, repository, tag, hreads⟩ := h
    obtain ⟨checked, hchecked⟩ := checkField_validateTag.mpr hreads.validTag
    have hblank : ¬ (trim reference).any isWhiteSpace = true := by
      simpa using hreads.noBlank
    have hrepository : (splitTag (namedRegistry rest).2).1 = repository := by rw [hreads.parts]
    have htag : (splitTag (namedRegistry rest).2).2 = tag := by rw [hreads.parts]
    have hfull := hreads.full
    have hvalid := hreads.validRepository
    have hdefaulted := hreads.defaulted
    rw [← hfull] at hvalid
    refine ⟨(), hreads.nonempty, (), ?_, (rest, result.digest), hreads.digest, result.registry,
      hreads.registry, (), ?_, (), ?_, checked, ?_, ?_⟩
    · exact fun h => h.elim hreads.noScheme hblank
    · exact fun h => h.elim hreads.host.1 hreads.host.2
    · dsimp only
      rw [hrepository]
      exact hvalid
    · dsimp only
      rw [htag]
      exact hchecked
    · dsimp only
      rw [hrepository, htag, hfull, hdefaulted]

/-! ## What is printed -/

/-- The fields of a reference that was parsed. -/
structure WellFormed (reference : ImageReference) : Prop where
  host : '@' ∉ reference.registry ∧ '/' ∉ reference.registry
  repository : validRepository reference.repository = true
  onHub : isDockerHub reference.registry = true → '/' ∈ reference.repository
  tag : ∀ given, reference.tag = some given → validTag given = true
  named : reference.tag = none → reference.digest ≠ none

variable {character : Char}

theorem isRepositoryChar_visible (h : isRepositoryChar character = true) :
    isWhiteSpace character = false ∧ character ≠ '@' ∧ character ≠ ':' := by
  simp only [isRepositoryChar, Bool.or_eq_true, beq_iff_eq] at h
  have halphanum : character.isLower = true ∨ character.isDigit = true →
      isWhiteSpace character = false ∧ character ≠ '@' ∧ character ≠ ':' := by
    intro hkind
    have hrange := @isAlphanum_range character (by
      rw [Char.isAlphanum, isAlpha_eq, Bool.or_eq_true, Bool.or_eq_true]
      exact hkind.elim (fun h => Or.inl (Or.inr h)) Or.inr)
    refine ⟨not_isWhiteSpace (by omega), ?_, ?_⟩
    · rintro rfl
      exact absurd hrange (by decide)
    · rintro rfl
      exact absurd hrange (by decide)
  rcases h with (((hlower | hdigit) | rfl) | rfl) | rfl
  · exact halphanum (Or.inl hlower)
  · exact halphanum (Or.inr hdigit)
  all_goals decide

theorem isTagChar_visible (h : isTagChar character = true) :
    isWhiteSpace character = false ∧ character ≠ '@' ∧ character ≠ ':' ∧ character ≠ '/' := by
  simp only [isTagChar, Bool.or_eq_true, beq_iff_eq] at h
  rcases h with ((halphanum | rfl) | rfl) | rfl
  · have hrange := isAlphanum_range halphanum
    refine ⟨not_isWhiteSpace (by omega), ?_, ?_, ?_⟩
    all_goals
      rintro rfl
      exact absurd hrange (by decide)
  all_goals decide

theorem validRepository_visible {repository : Text} (h : validRepository repository = true)
    (hmem : character ∈ repository) :
    isWhiteSpace character = false ∧ character ≠ '@' ∧ character ≠ ':' := by
  by_cases hslash : character = '/'
  · rw [hslash]
    decide
  · obtain ⟨component, hcomponent, hin⟩ := exists_mem_splitOn hmem hslash
    rw [validRepository, Bool.and_eq_true, List.all_eq_true] at h
    have hvalid := h.2 component hcomponent
    rw [validComponent, Bool.and_eq_true, List.all_eq_true] at hvalid
    exact isRepositoryChar_visible (hvalid.1 character hin)

theorem validRepository_head {rest : Text} : validRepository ('/' :: rest) = false := by
  rw [validRepository, List.splitOn_cons_eq_if_modifyHead]
  rfl

theorem validTag_visible {tag : Text} (h : validTag tag = true) (hmem : character ∈ tag) :
    isWhiteSpace character = false ∧ character ≠ '@' ∧ character ≠ ':' ∧ character ≠ '/' := by
  rw [validTag, Bool.and_eq_true, List.all_eq_true] at h
  exact isTagChar_visible (h.2 character hmem)

theorem isLowerHex_visible (h : isLowerHex character = true) :
    isWhiteSpace character = false ∧ character ≠ '/' := by
  have hval : character.toNat = character.val.toNat := rfl
  simp only [isLowerHex, Char.isDigit, Bool.or_eq_true, Bool.and_eq_true, decide_eq_true_eq,
    ge_iff_le, UInt32.le_iff_toNat_le, Char.le_def] at h
  simp at h
  refine ⟨not_isWhiteSpace (by omega), ?_⟩
  rintro rfl
  exact absurd h (by decide)

theorem Digest.text_eq (digest : Digest) :
    ∃ hex, digest.text = digestMark ++ hex ∧ ∀ character ∈ hex, isLowerHex character = true := by
  have hvalid := digest.valid
  unfold isDigest at hvalid
  split at hvalid
  · rename_i hex hstrip
    rw [Bool.and_eq_true, List.all_eq_true] at hvalid
    exact ⟨hex, stripPrefix_eq_some.mp hstrip, hvalid.2⟩
  · cases hvalid

theorem Digest.visible (digest : Digest) (hmem : character ∈ digest.text) :
    isWhiteSpace character = false ∧ character ≠ '/' := by
  obtain ⟨hex, htext, hhex⟩ := digest.text_eq
  rw [htext] at hmem
  cases List.mem_append.mp hmem with
  | inl hmark =>
    have hall : digestMark.all
        (fun character => isWhiteSpace character = false ∧ character ≠ '/') = true := by
      decide
    exact of_decide_eq_true (List.all_eq_true.mp hall character hmark)
  | inr hdigit => exact isLowerHex_visible (hhex character hdigit)

/-- A digest is read back from its text. -/
theorem Digest.parse_text (digest : Digest) : Digest.parse digest.text = .ok digest := by
  obtain ⟨hex, htext, -⟩ := digest.text_eq
  have hstarts : digestMark <+: digest.text := ⟨hex, htext.symm⟩
  rw [Digest.parse]
  simp only [hstarts, not_true_eq_false, if_false, digest.valid, dite_true]

/-! ## Reading back what is printed -/

variable {reference : ImageReference}

/-- The printed form up to its digest. -/
def ImageReference.front (reference : ImageReference) : Text :=
  reference.registry ++ '/' :: (reference.repository ++ part ':' reference.tag)

theorem ImageReference.display_eq (reference : ImageReference) :
    reference.display = reference.front ++ part '@' (reference.digest.map Digest.text) := by
  simp [display, front]

theorem WellFormed.front_visible (h : WellFormed reference) (hregistry : Recognised reference.registry)
    (hmem : character ∈ reference.front) :
    isWhiteSpace character = false ∧ character ≠ '@' := by
  rw [ImageReference.front, List.mem_append, List.mem_cons, List.mem_append] at hmem
  rcases hmem with hmem | hmem | hmem | hmem
  · refine ⟨hregistry.2 character hmem, ?_⟩
    intro heq
    rw [heq] at hmem
    exact h.host.1 hmem
  · rw [hmem]
    decide
  · have hvisible := validRepository_visible h.repository hmem
    exact ⟨hvisible.1, hvisible.2.1⟩
  · cases htag : reference.tag with
    | none =>
      rw [htag] at hmem
      cases hmem
    | some tag =>
      rw [htag, part] at hmem
      cases List.mem_cons.mp hmem with
      | inl hsign =>
        rw [hsign]
        decide
      | inr hin =>
        have hvisible := validTag_visible (h.tag tag htag) hin
        exact ⟨hvisible.1, hvisible.2.1⟩

theorem WellFormed.display_visible (h : WellFormed reference) (hregistry : Recognised reference.registry)
    (hmem : character ∈ reference.display) : isWhiteSpace character = false := by
  rw [ImageReference.display_eq] at hmem
  cases List.mem_append.mp hmem with
  | inl hfront => exact (h.front_visible hregistry hfront).1
  | inr hpart =>
    cases hdigest : reference.digest with
    | none =>
      rw [hdigest] at hpart
      cases hpart
    | some digest =>
      rw [hdigest, Option.map_some, part] at hpart
      cases List.mem_cons.mp hpart with
      | inl hsign =>
        rw [hsign]
        decide
      | inr hin => exact (digest.visible hin).1

/-- What is printed behind the repository. -/
def ImageReference.behind (reference : ImageReference) : Text :=
  part ':' reference.tag ++ part '@' (reference.digest.map Digest.text)

section

variable (h : WellFormed reference)
include h

theorem WellFormed.slash_not_behind : '/' ∉ reference.behind := by
  intro hmem
  rw [ImageReference.behind, List.mem_append] at hmem
  cases hmem with
  | inl htag =>
    cases hfield : reference.tag with
    | none =>
      rw [hfield] at htag
      cases htag
    | some tag =>
      rw [hfield, part] at htag
      cases List.mem_cons.mp htag with
      | inl hsign => exact absurd hsign (by decide)
      | inr hin => exact (validTag_visible (h.tag tag hfield) hin).2.2.2 rfl
  | inr hpart =>
    cases hdigest : reference.digest with
    | none =>
      rw [hdigest] at hpart
      cases hpart
    | some digest =>
      rw [hdigest, Option.map_some, part] at hpart
      cases List.mem_cons.mp hpart with
      | inl hsign => exact absurd hsign (by decide)
      | inr hin => exact (digest.visible hin).2 rfl

/-- The first slash follows the registry, and a colon is followed by none. -/
theorem WellFormed.noScheme :
    ¬ "://".toList <:+: reference.display := by
  intro hinside
  obtain ⟨front, back, hdisplay⟩ := hinside
  have hscheme : "://".toList = [':', '/', '/'] := rfl
  have hbehind : reference.display =
      reference.registry ++ '/' :: (reference.repository ++ reference.behind) := by
    simp [ImageReference.display, ImageReference.behind]
  have hfirst := splitOnce_append h.host.2 (reference.repository ++ reference.behind)
  rw [← hbehind, ← hdisplay, hscheme] at hfirst
  obtain ⟨htext, -⟩ := splitOnce_eq_some.mp hfirst
  by_cases hslash : '/' ∈ front
  · -- The slash of the registry comes earlier: the colon is in the repository or behind it.
    obtain ⟨before, after, hparts, hnot⟩ := List.eq_append_cons_of_mem hslash
    have hsplit := splitOnce_append hnot (after ++ ([':', '/', '/'] ++ back))
    have hrest : front ++ [':', '/', '/'] ++ back =
        before ++ '/' :: (after ++ ([':', '/', '/'] ++ back)) := by
      rw [hparts]
      simp
    rw [hrest, hsplit, Option.some.injEq, Prod.mk.injEq] at hfirst
    have hafter := hfirst.2
    cases List.append_eq_append_iff.mp hafter with
    | inl hlonger =>
      obtain ⟨middle, hrepository, hcolon⟩ := hlonger
      cases middle with
      | nil =>
        rw [List.nil_append] at hcolon
        exact h.slash_not_behind (by rw [← hcolon]; simp)
      | cons sign others =>
        have hsign : sign = ':' := (List.cons.inj hcolon).1.symm
        have hmem : ':' ∈ reference.repository := by
          rw [hrepository, hsign]
          simp
        exact (validRepository_visible h.repository hmem).2.2 rfl
    | inr hshorter =>
      obtain ⟨middle, -, hcolon⟩ := hshorter
      exact h.slash_not_behind (by rw [hcolon]; simp)
  · -- The slash of the registry is the first of the two: the repository would start with one.
    have hcolon : '/' ∉ front ++ [':'] := by simp [hslash]
    have hsplit := splitOnce_append hcolon ('/' :: back)
    have hrest : front ++ [':', '/', '/'] ++ back = (front ++ [':']) ++ '/' :: '/' :: back := by
      simp
    rw [hrest, hsplit, Option.some.injEq, Prod.mk.injEq] at hfirst
    have hafter := hfirst.2
    have hvalid := h.repository
    cases hrepository : reference.repository with
    | nil =>
      rw [hrepository] at hvalid
      cases hvalid
    | cons first others =>
      rw [hrepository, List.cons_append, List.cons.injEq] at hafter
      rw [hrepository, ← hafter.1, validRepository_head] at hvalid
      cases hvalid

theorem WellFormed.splitDigest_display (hregistry : Recognised reference.registry) :
    splitDigest reference.display = .ok (reference.front, reference.digest) := by
  have hnot : '@' ∉ reference.front := fun hmem => (h.front_visible hregistry hmem).2 rfl
  rw [splitDigest, ImageReference.display_eq]
  cases hdigest : reference.digest with
  | none =>
    have hnone : splitOnce '@' reference.front = none := splitOnce_eq_none.mpr hnot
    simp [part, hnone]
  | some digest =>
    have hsome := splitOnce_append hnot digest.text
    simp [part, hsome, digest.parse_text, Functor.map, Except.map]

theorem WellFormed.namedRegistry_front (hregistry : Recognised reference.registry) :
    namedRegistry reference.front =
      (some reference.registry, reference.repository ++ part ':' reference.tag) := by
  have hsplit := splitOnce_append h.host.2 (reference.repository ++ part ':' reference.tag)
  rw [namedRegistry, ImageReference.front, hsplit]
  dsimp only
  rw [if_pos hregistry.1]

theorem WellFormed.splitTag_path :
    splitTag (reference.repository ++ part ':' reference.tag) =
      (reference.repository, reference.tag) := by
  have hrepository : ':' ∉ reference.repository :=
    fun hmem => (validRepository_visible h.repository hmem).2.2 rfl
  cases htag : reference.tag with
  | none =>
    have hnone : rsplitOnce ':' (reference.repository ++ []) = none := by
      rw [List.append_nil]
      exact rsplitOnce_eq_none.mpr hrepository
    rw [splitTag, part, hnone, List.append_nil]
  | some tag =>
    have hcolon : ':' ∉ tag := fun hmem => (validTag_visible (h.tag tag htag) hmem).2.2.1 rfl
    have hslash : '/' ∉ tag := fun hmem => (validTag_visible (h.tag tag htag) hmem).2.2.2 rfl
    rw [splitTag, part, rsplitOnce_append _ hcolon]
    dsimp only
    rw [if_neg hslash]

/-- A well-formed reference with a recognised registry is read back from its printed form. -/
theorem WellFormed.parse_display (hregistry : Recognised reference.registry) :
    ImageReference.parse reference.display none = .ok reference := by
  have hblank : ∀ character ∈ reference.display, isWhiteSpace character = false :=
    fun character hmem => h.display_visible hregistry hmem
  have htrim : trim reference.display = reference.display := (trimmed_of_forall hblank).trim_eq
  have hnamed := h.namedRegistry_front hregistry
  have hnonempty : reference.display ≠ [] := by simp [ImageReference.display]
  have hfull : fullRepository reference.registry reference.repository = reference.repository := by
    rw [fullRepository]
    split
    · rename_i hhub
      exact absurd (h.onHub hhub.1) hhub.2
    · rfl
  have hdefaulted : defaultTag reference.tag reference.digest = reference.tag := by
    rw [defaultTag]
    split
    · rename_i hnone
      exact absurd hnone.2 (h.named hnone.1)
    · rfl
  refine parse_eq_ok.mpr ⟨reference.front, reference.repository, reference.tag, ?_⟩
  rw [htrim]
  exact {
    nonempty := hnonempty
    noScheme := h.noScheme
    noBlank := hblank
    digest := h.splitDigest_display hregistry
    parts := by rw [hnamed]; exact h.splitTag_path
    registry := by rw [hnamed]; rfl
    host := h.host
    full := hfull
    validRepository := h.repository
    validTag := h.tag
    defaulted := hdefaulted }

end

section Parsed

variable {text rest repository : Text} {forced tag : Option Text}

section

variable (h : Reads text forced rest repository tag reference)
include h

theorem Reads.wellFormed :
    WellFormed reference := by
  have hdefaulted := h.defaulted
  refine ⟨h.host, h.validRepository, ?_, ?_, ?_⟩
  · intro hhub
    have hfull := h.full
    rw [fullRepository] at hfull
    split at hfull
    · rw [← hfull]
      simp
    · rename_i hnot
      rw [← hfull]
      by_contra hslash
      exact hnot ⟨hhub, hslash⟩
  · intro given hgiven
    rw [defaultTag] at hdefaulted
    split at hdefaulted
    · rw [hgiven] at hdefaulted
      rw [← Option.some.inj hdefaulted]
      decide
    · exact h.validTag given (hdefaulted.trans hgiven)
  · intro htag hdigest
    rw [defaultTag, htag, hdigest] at hdefaulted
    cases tag with
    | none | some => cases hdefaulted

theorem Reads.rest_eq :
    rest = text.takeWhile (· ≠ '@') := by
  have hdigest := h.digest
  rw [splitDigest] at hdigest
  split at hdigest
  · rename_i front digest hsplit
    rw [map_eq_ok] at hdigest
    obtain ⟨_, -, heq⟩ := hdigest
    obtain ⟨htext, hnot⟩ := splitOnce_eq_some.mp hsplit
    have hfront : ∀ character ∈ front, decide (character ≠ '@') = true := by
      intro character hmem
      rw [decide_eq_true_eq]
      intro hat
      exact hnot (hat ▸ hmem)
    rw [← (Prod.mk.inj heq).1, htext, List.takeWhile_append_of_pos hfront]
    simp
  · rename_i hsplit
    have hnot := splitOnce_eq_none.mp hsplit
    have hall : ∀ character ∈ text, decide (character ≠ '@') = true := by
      intro character hmem
      rw [decide_eq_true_eq]
      intro hat
      exact hnot (hat ▸ hmem)
    rw [← (Prod.mk.inj (Except.ok.inj hdigest)).1, List.takeWhile_eq_self_iff.mpr hall]

/-- A registry that is named stands for itself. -/
theorem Reads.recognised_of_named {named : Text} (hnamed : (namedRegistry rest).1 = some named) :
    Recognised named := by
  rw [namedRegistry] at hnamed
  split at hnamed
  · rename_i first remainder hsplit
    split at hnamed
    · rename_i hnames
      rw [← Option.some.inj hnamed]
      refine ⟨hnames, ?_⟩
      intro character hmem
      have hin : character ∈ rest := by
        rw [(splitOnce_eq_some.mp hsplit).1]
        exact List.mem_append_left _ hmem
      rw [h.rest_eq] at hin
      exact h.noBlank character (List.takeWhile_subset _ hin)
    · cases hnamed
  · cases hnamed

theorem Reads.registry_cases :
    (namedRegistry rest).1 = some reference.registry ∨
    ((namedRegistry rest).1 = none ∧ forced = some reference.registry) ∨
    ((namedRegistry rest).1 = none ∧ forced = none ∧ reference.registry = dockerHub) := by
  have hregistry := h.registry
  cases hnamed : (namedRegistry rest).1 with
  | some named =>
    left
    rw [hnamed] at hregistry
    cases forced with
    | none =>
      rw [chooseRegistry] at hregistry
      rw [Except.ok.inj hregistry]
    | some other =>
      rw [chooseRegistry] at hregistry
      split at hregistry
      · rw [Except.ok.inj hregistry]
      · cases hregistry
  | none =>
    right
    rw [hnamed] at hregistry
    cases forced with
    | none =>
      rw [chooseRegistry] at hregistry
      exact Or.inr ⟨rfl, rfl, (Except.ok.inj hregistry).symm⟩
    | some other =>
      rw [chooseRegistry] at hregistry
      exact Or.inl ⟨rfl, by rw [Except.ok.inj hregistry]⟩

end

end Parsed

theorem recognised_dockerHub : Recognised dockerHub := by
  have hnames : namesRegistry dockerHub = true := by decide
  have hall : dockerHub.all (fun character => isWhiteSpace character = false) = true := by decide
  exact ⟨hnames, fun character hmem => of_decide_eq_true (List.all_eq_true.mp hall character hmem)⟩

/-- A reference parsed without an override has a recognised registry. -/
theorem recognised_of_parse {text : Text} (h : ImageReference.parse text none = .ok reference) :
    Recognised reference.registry := by
  obtain ⟨rest, repository, tag, hreads⟩ := parse_eq_ok.mp h
  rcases hreads.registry_cases with hnamed | ⟨-, hforced⟩ | ⟨-, -, hhub⟩
  · exact hreads.recognised_of_named hnamed
  · cases hforced
  · rw [hhub]
    exact recognised_dockerHub

/-- The registry of a parsed reference is recognised exactly when it is not one that the source put
in front and that does not stand for itself. -/
theorem recognised_iff {text : Text} {registryOverride : Option Text}
    (h : ImageReference.parse text registryOverride = .ok reference) :
    Recognised reference.registry ↔ OverrideRecognised text registryOverride := by
  obtain ⟨rest, repository, tag, hreads⟩ := parse_eq_ok.mp h
  have hrest := hreads.rest_eq
  rw [OverrideRecognised, NamesItsRegistry, ← hrest]
  rcases hreads.registry_cases with hnamed | ⟨hnone, hforced⟩ | ⟨-, hforced, hhub⟩
  · have hrecognised := hreads.recognised_of_named hnamed
    simp [hnamed, hrecognised]
  · obtain ⟨forced, hoverride, htrim⟩ := Option.map_eq_some_iff.mp hforced
    simp [hnone, hoverride, htrim]
  · have hoverride := Option.map_eq_none_iff.mp hforced
    simp [hhub, hoverride, recognised_dockerHub]

/-- The printed form of a parsed reference is read back as the reference exactly when the override
stands for itself or is not used. -/
theorem display_round_trip_iff {text : Text} {registryOverride : Option Text}
    (h : ImageReference.parse text registryOverride = .ok reference) :
    ImageReference.parse reference.display none = .ok reference ↔
      OverrideRecognised text registryOverride := by
  rw [← recognised_iff h]
  obtain ⟨rest, repository, tag, hreads⟩ := parse_eq_ok.mp h
  exact ⟨recognised_of_parse, hreads.wellFormed.parse_display⟩

/-- A bare name is completed and read back. -/
theorem display_round_trip_ubuntu : ∃ reference : ImageReference,
    ImageReference.parse reference.display none = .ok reference ∧
      reference.display = "docker.io/library/ubuntu:latest".toList := by
  have hparse : ImageReference.parse "ubuntu".toList none =
      .ok ⟨dockerHub, "library/ubuntu".toList, some "latest".toList, none⟩ := by decide
  have hoverride : OverrideRecognised "ubuntu".toList none := Or.inr fun _ h => nomatch h
  exact ⟨_, (display_round_trip_iff hparse).mpr hoverride, by decide⟩

/-- The override `mirror` is read as a repository of Docker Hub. -/
theorem mirror_not_read_back : ∃ reference : ImageReference,
    ImageReference.parse "team/agent:1".toList (some "mirror".toList) = .ok reference ∧
      ImageReference.parse reference.display none ≠ .ok reference := by
  refine ⟨⟨"mirror".toList, "team/agent".toList, some "1".toList, none⟩, by decide, ?_⟩
  decide

end Awman.References
