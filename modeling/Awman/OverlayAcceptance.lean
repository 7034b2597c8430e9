import Awman.Library.RelatedLists
import Awman.OverlayExpressions

/-!
# Which overlay lists are accepted, and what a bare spec stands for

A list is accepted as the grammar has it, unless an element is read whose first parenthesis is not closed
by the one it ends with.  A bare spec and the same text in `dir(...)` are read by two parsers, which agree
on specs of a plain form only.
-/

namespace Awman.Overlay

open Awman.Network (trim Trimmed)

variable {host : Host} {input : List Char} {overlays : List TypedOverlay}

/-- The nonempty elements of a list, without the blanks around them. -/
def pieces (input : List Char) : List (List Char) :=
  ((splitTopLevelCommas 0 (trim input)).map trim).filter (!·.isEmpty)

/-- The text is a comma-separated list whose nonempty elements are the expressions of the overlays. -/
def ListOf (host : Host) (input : List Char) (overlays : List TypedOverlay) : Prop :=
  ∃ elements : List (List Char), trim input = [','].intercalate elements ∧
    List.Forall₂ (Expression host) ((elements.map trim).filter (!·.isEmpty)) overlays

/-- When all elements are read, each one with a parenthesis ends with the one that closes the first. -/
def ClosedWhenRead (host : Host) (input : List Char) : Prop :=
  (∀ piece ∈ pieces input, ∃ overlay, ReadAs host piece overlay) →
    ∀ piece ∈ pieces input, '(' ∈ piece → WellClosed piece

/-! ## Lists -/

theorem parseOverlayList_eq_ok :
    parseOverlayList host input = .ok overlays ↔
      List.Forall₂ (ReadAs host) (pieces input) overlays := by
  rw [parseOverlayList, ← pieces, Checks.mapM_eq_collect, Checks.collect_eq_ok]
  simp only [parseSingleTypedOverlay_iff]

/-- The elements of a list of expressions are found by splitting it. -/
theorem pieces_eq {elements : List (List Char)} (hinput : trim input = [','].intercalate elements)
    (hexpressions : ∀ piece ∈ (elements.map trim).filter (!·.isEmpty), ∃ overlay,
      Expression host piece overlay) :
    pieces input = (elements.map trim).filter (!·.isEmpty) := by
  by_cases hempty : elements = []
  · rw [hempty, List.intercalate_nil] at hinput
    rw [pieces, hinput, hempty]
    rfl
  · have hclosed : ∀ element ∈ elements, depthAfter 0 element = some 0 := by
      intro element helement
      rw [depthAfter_trim]
      by_cases hblank : trim element = []
      · rw [hblank]
        rfl
      · have hmem : trim element ∈ (elements.map trim).filter (!·.isEmpty) :=
          List.mem_filter.mpr ⟨List.mem_map_of_mem helement, by simpa using hblank⟩
        obtain ⟨overlay, hoverlay⟩ := hexpressions _ hmem
        exact hoverlay.depthAfter_eq
    rw [pieces, hinput, splitTopLevelCommas_intercalate hempty hclosed]

/-- A piece without an opening parenthesis has no comma. -/
theorem comma_notMem_of_piece {piece : List Char} (hpiece : piece ∈ pieces input) (hopen : '(' ∉ piece) :
    ',' ∉ piece := by
  obtain ⟨hmem, -⟩ := List.mem_filter.mp hpiece
  obtain ⟨part, hpart, rfl⟩ := List.mem_map.mp hmem
  rw [mem_trim_iff (by decide)] at hopen ⊢
  exact comma_notMem_of_mem_split hpart hopen

/-- A list is read as the grammar has it exactly when, being read, it closes what it opens. -/
theorem parseOverlayList_listOf_iff :
    (∀ overlays, parseOverlayList host input = .ok overlays ↔ ListOf host input overlays) ↔
      ClosedWhenRead host input := by
  constructor
  · intro h hread
    obtain ⟨overlays, hoverlays⟩ := RelatedLists.exists_related hread
    obtain ⟨elements, hinput, helements⟩ := (h overlays).mp (parseOverlayList_eq_ok.mpr hoverlays)
    have hexpressions := RelatedLists.each_related helements
    rw [pieces_eq hinput hexpressions]
    intro piece hpiece hopen
    obtain ⟨overlay, hoverlay⟩ := hexpressions piece hpiece
    exact hoverlay.wellClosed hopen
  · intro h overlays
    rw [parseOverlayList_eq_ok]
    constructor
    · intro hread
      have hclosed := h (RelatedLists.each_related hread)
      refine ⟨splitTopLevelCommas 0 (trim input), (intercalate_splitTopLevelCommas 0 _).symm, ?_⟩
      refine RelatedLists.imp_of_mem hread fun piece hpiece overlay hoverlay => ?_
      exact hoverlay.expression (comma_notMem_of_piece hpiece) (hclosed piece hpiece)
    · rintro ⟨elements, hinput, helements⟩
      rw [pieces_eq hinput (RelatedLists.each_related helements)]
      exact RelatedLists.imp_of_mem helements fun piece _ overlay hoverlay => hoverlay.readAs

/-! ## Bare specs -/

variable {spec first container last : List Char} {directory : DirectorySpec}

/-- The text is a permission that both forms know. -/
def Granted (last : List Char) : Prop := last = "ro".toList ∨ last = "rw".toList

/-- Both forms read a spec as the same directory, or neither reads it: there is no host path; or, behind
an absolute container path, the permission is missing or plainly written, no blanks stand around the
paths and `~` changes nothing, or the permission is none that any form knows; or the container path is
relative and missing, or its permission is none that `dir(...)` knows. -/
def SameInBothForms (host : Host) (spec : List Char) : Prop :=
  match splitAtMost ':' 3 spec with
  | [first, container] =>
    first = [] ∨
      (container.head? = some '/' ∧ expanded host (trim first) = first ∧ trim container = container) ∨
      (container.head? ≠ some '/' ∧ trim container = [])
  | [first, container, last] =>
    first = [] ∨
      (container.head? = some '/' ∧ Granted last ∧ expanded host (trim first) = first ∧
        trim container = container) ∨
      (container.head? = some '/' ∧ last ≠ [] ∧ ¬ Granted (trim last)) ∨
      (container.head? ≠ some '/' ∧ (trim container = [] ∨ ¬ Granted (trim last)))
  | _ => True

section

variable (hfirst : ':' ∉ first) (hcontainer : ':' ∉ container)
include hfirst hcontainer

theorem bareSpec_two_iff :
    BareSpec (first ++ ':' :: container) directory ↔
      first ≠ [] ∧ container.head? = some '/' ∧ directory = ⟨first, container, .readWrite⟩ := by
  rw [← parseOverlaySpec_iff]
  exact parseOverlaySpec_two_iff hfirst hcontainer

theorem bareSpec_three_iff :
    BareSpec (first ++ ':' :: (container ++ ':' :: last)) directory ↔
      first ≠ [] ∧ container.head? = some '/' ∧ ∃ permission, BarePermission last permission ∧
        directory = ⟨first, container, permission⟩ := by
  rw [← parseOverlaySpec_iff]
  exact parseOverlaySpec_three_iff hfirst hcontainer

theorem dirArgs_two_iff :
    DirArgs host (first ++ ':' :: container) directory ↔
      trim first ≠ [] ∧ trim container ≠ [] ∧
        directory = ⟨expanded host (trim first), trim container, .readWrite⟩ := by
  rw [← @parseDirOverlayArgs_iff _ _ _ []]
  exact parseDirOverlayArgs_two_iff hfirst hcontainer

theorem dirArgs_three_iff :
    DirArgs host (first ++ ':' :: (container ++ ':' :: last)) directory ↔
      trim first ≠ [] ∧ trim container ≠ [] ∧ ∃ permission, Permission (trim last) permission ∧
        directory = ⟨expanded host (trim first), trim container, permission⟩ := by
  rw [← @parseDirOverlayArgs_iff _ _ _ []]
  exact parseDirOverlayArgs_three_iff hfirst hcontainer

end

theorem exists_permission_iff : (∃ permission, Permission last permission) ↔ Granted last := by
  constructor
  · rintro ⟨permission, hpermission⟩
    cases hpermission with
    | readWrite => exact Or.inr rfl
    | readOnly => exact Or.inl rfl
  · rintro (rfl | rfl)
    · exact ⟨_, .readOnly⟩
    · exact ⟨_, .readWrite⟩

/-- A plainly written permission means the same in both forms. -/
theorem barePermission_iff {permission : OverlayPermission} (hgranted : Granted last) :
    BarePermission last permission ↔ Permission (trim last) permission := by
  rcases hgranted with rfl | rfl
  · have htrim : trim "ro".toList = "ro".toList := by decide
    rw [htrim]
    constructor
    · intro h
      generalize hlast : "ro".toList = text at h
      cases h with
      | none => cases hlast
      | readWrite => exact absurd hlast (by decide)
      | readOnly => exact .readOnly
    · intro h
      generalize hlast : "ro".toList = text at h
      cases h with
      | readWrite => exact absurd hlast (by decide)
      | readOnly => exact .readOnly
  · have htrim : trim "rw".toList = "rw".toList := by decide
    rw [htrim]
    constructor
    · intro h
      generalize hlast : "rw".toList = text at h
      cases h with
      | none => cases hlast
      | readWrite => exact .readWrite
      | readOnly => exact absurd hlast (by decide)
    · intro h
      generalize hlast : "rw".toList = text at h
      cases h with
      | readWrite => exact .readWrite
      | readOnly => exact absurd hlast (by decide)

theorem not_barePermission {permission : OverlayPermission} (hempty : last ≠ [])
    (hgranted : ¬ Granted last) : ¬ BarePermission last permission := by
  intro h
  cases h with
  | none => exact hempty rfl
  | readWrite => exact hgranted (Or.inr rfl)
  | readOnly => exact hgranted (Or.inl rfl)

/-- What begins a trimmed text does not consist of blanks. -/
theorem trim_ne_nil_of_prefix {front : List Char} (htrimmed : Trimmed spec) (hbeginning : front <+: spec)
    (hnonempty : front ≠ []) : trim front ≠ [] := by
  obtain ⟨back, rfl⟩ := hbeginning
  cases front with
  | nil => exact absurd rfl hnonempty
  | cons character rest =>
    have hvisible := htrimmed.1 character rfl
    have hmem := (mem_trim_iff hvisible).mpr (List.mem_cons_self : character ∈ character :: rest)
    exact List.ne_nil_of_mem hmem

theorem trim_ne_nil_of_absolute (habsolute : container.head? = some '/') : trim container ≠ [] := by
  have hmem := (mem_trim_iff (by decide)).mpr (List.mem_of_mem_head? habsolute)
  exact List.ne_nil_of_mem hmem

theorem forall_eq_iff {α : Type} {left right : α} : (∀ value, value = left ↔ value = right) ↔
    left = right :=
  ⟨fun h => (h left).mp rfl, fun h value => by rw [h]⟩

theorem Granted.trimmed (hgranted : Granted last) : Granted (trim last) := by
  rcases hgranted with rfl | rfl
  · exact Or.inl (by decide)
  · exact Or.inr (by decide)

/-- Behind an absolute container path the two forms differ in what they trim and expand, and in the
permissions they know. -/
theorem permitted_iff {host : Host} {first container last : List Char} :
    (∀ directory : DirectorySpec,
        (∃ permission, BarePermission last permission ∧ directory = ⟨first, container, permission⟩) ↔
          ∃ permission, Permission (trim last) permission ∧
            directory = ⟨expanded host (trim first), trim container, permission⟩) ↔
      (Granted last ∧ expanded host (trim first) = first ∧ trim container = container) ∨
        (last ≠ [] ∧ ¬ Granted (trim last)) := by
  by_cases hgranted : Granted last
  · simp only [hgranted, hgranted.trimmed, not_true_eq_false, and_false, or_false, true_and,
      barePermission_iff hgranted]
    constructor
    · intro h
      obtain ⟨permission, hpermission⟩ := exists_permission_iff.mpr hgranted.trimmed
      obtain ⟨other, -, hsame⟩ := (h ⟨first, container, permission⟩).mp ⟨permission, hpermission, rfl⟩
      obtain ⟨hhost, hcontainer, -⟩ := DirectorySpec.mk.inj hsame
      exact ⟨hhost.symm, hcontainer.symm⟩
    · rintro ⟨hhost, hcontainer⟩ directory
      rw [hhost, hcontainer]
  · simp only [hgranted, false_and, false_or]
    by_cases hempty : last = []
    · rw [hempty]
      simp only [ne_eq, not_true_eq_false, false_and, iff_false]
      intro h
      obtain ⟨permission, hpermission, -⟩ := (h ⟨first, container, .readWrite⟩).mp ⟨_, .none, rfl⟩
      have hblank := exists_permission_iff.mp ⟨permission, hpermission⟩
      exact absurd hblank (by rw [Granted]; decide)
    · simp only [hempty, ne_eq, not_false_eq_true, true_and, not_barePermission hempty hgranted,
        false_and, exists_false, false_iff]
      rw [← exists_permission_iff]
      constructor
      · rintro h ⟨permission, hpermission⟩
        exact h _ ⟨permission, hpermission, rfl⟩
      · rintro h directory ⟨permission, hpermission, -⟩
        exact h ⟨permission, hpermission⟩

/-- The two forms agree on a trimmed text exactly when it is of one of the plain shapes. -/
theorem sameInBothForms_iff (htrimmed : Trimmed spec) :
    (∀ directory, BareSpec spec directory ↔ DirArgs host spec directory) ↔
      SameInBothForms host spec := by
  rcases colon_cases spec with hnone | ⟨first, container, rfl, hfirst, hcontainer⟩ |
    ⟨first, container, last, rfl, hfirst, hcontainer⟩
  · rw [SameInBothForms, splitAtMost_of_notMem hnone]
    refine iff_of_true (fun directory => iff_of_false (fun h => ?_) fun h => ?_) trivial
    · cases h <;> simp at hnone
    · cases h <;> simp at hnone
  · rw [SameInBothForms, split_two hfirst hcontainer]
    simp only [bareSpec_two_iff hfirst hcontainer, dirArgs_two_iff hfirst hcontainer]
    by_cases hempty : first = []
    · simp [hempty, show trim [] = [] by decide]
    · have hvisible := trim_ne_nil_of_prefix htrimmed (List.prefix_append _ _) hempty
      by_cases habsolute : container.head? = some '/'
      · have hplain := trim_ne_nil_of_absolute habsolute
        simp only [hempty, hvisible, habsolute, hplain, ne_eq, not_false_eq_true, true_and, false_or,
          not_true_eq_false, false_and, or_false, forall_eq_iff, DirectorySpec.mk.injEq, and_true]
        simp only [eq_comm]
      · simp only [hempty, hvisible, habsolute, ne_eq, not_false_eq_true, true_and, false_or,
          false_and, false_iff, not_and]
        exact ⟨fun h => Classical.byContradiction fun hne => h _ hne rfl, fun h _ hne => absurd h hne⟩
  · rw [SameInBothForms, split_three hfirst hcontainer]
    simp only [bareSpec_three_iff hfirst hcontainer, dirArgs_three_iff hfirst hcontainer]
    by_cases hempty : first = []
    · simp [hempty, show trim [] = [] by decide]
    · have hvisible := trim_ne_nil_of_prefix htrimmed (List.prefix_append _ _) hempty
      by_cases habsolute : container.head? = some '/'
      · have hplain := trim_ne_nil_of_absolute habsolute
        simp only [hempty, hvisible, habsolute, hplain, ne_eq, not_false_eq_true, true_and, false_or,
          not_true_eq_false, false_and, or_false]
        exact permitted_iff
      · simp only [hempty, hvisible, habsolute, ne_eq, not_false_eq_true, true_and, false_or,
          false_and, false_iff, not_and, not_exists]
        rw [← exists_permission_iff]
        constructor
        · intro h
          by_cases hblank : trim container = []
          · exact Or.inl hblank
          · apply Or.inr
            rintro ⟨permission, hpermission⟩
            exact h _ hblank permission hpermission rfl
        · rintro (hblank | hnone) directory hne permission hpermission
          · exact absurd hblank hne
          · exact absurd ⟨permission, hpermission⟩ hnone

/-! ## Both forms in a list -/

theorem pieces_bare (hcomma : ',' ∉ spec) : pieces spec = [trim spec].filter (!·.isEmpty) := by
  have htrim : ',' ∉ trim spec := fun hmem => hcomma (Network.mem_of_mem_trim hmem)
  rw [pieces, splitTopLevelCommas_of_notMem 0 htrim, List.map_singleton, Network.trim_trim]

/-- The spec as the arguments of `dir(...)`. -/
def inDir (spec : List Char) : List Char := "dir".toList ++ '(' :: (spec ++ [')'])

theorem pieces_inDir (hcomma : ',' ∉ spec) : pieces (inDir spec) = [inDir spec] := by
  have htrim : trim (inDir spec) = inDir spec := by
    refine Network.Trimmed.trim_eq ⟨?_, ?_⟩
    · intro character hhead
      rw [inDir, List.head?_append_of_ne_nil _ (by decide)] at hhead
      cases hhead
      decide
    · intro character hlast
      have hclose : inDir spec = ("dir".toList ++ '(' :: spec) ++ [')'] := by simp [inDir]
      rw [hclose, List.getLast?_concat] at hlast
      cases hlast
      decide
  have hnone : ',' ∉ inDir spec := by
    simp [inDir, hcomma]
  rw [pieces_bare hnone, htrim]
  rfl

theorem parseOverlayList_bare_iff (hopen : '(' ∉ spec) (hcomma : ',' ∉ spec) :
    parseOverlayList host spec = .ok [.directory directory] ↔ BareSpec (trim spec) directory := by
  have htrim : '(' ∉ trim spec := fun hmem => hopen (Network.mem_of_mem_trim hmem)
  have hread : ReadAs host (trim spec) (.directory directory) ↔ BareSpec (trim spec) directory := by
    rw [← parseSingleTypedOverlay_iff, parseSingleTypedOverlay_bare htrim, ← parseOverlaySpec_iff]
    cases parseOverlaySpec (trim spec) <;> simp [Except.map]
  rw [parseOverlayList_eq_ok, pieces_bare hcomma, ← hread]
  by_cases hempty : trim spec = []
  · rw [hread, hempty]
    refine iff_of_false (fun h => by cases h) fun h => ?_
    generalize hnil : ([] : List Char) = text at h
    cases h <;> simp at hnil
  · have hkept : [trim spec].filter (!·.isEmpty) = [trim spec] := by simp [hempty]
    rw [hkept]
    simp

theorem parseOverlayList_inDir_iff (hcomma : ',' ∉ spec) :
    parseOverlayList host (inDir spec) = .ok [.directory directory] ↔
      DirArgs host (trim spec) directory := by
  have hopen : '(' ∉ "dir".toList := by decide
  have htag : trim "dir".toList = "dir".toList := by decide
  have hread : ReadAs host (inDir spec) (.directory directory) ↔ DirArgs host (trim spec) directory := by
    rw [← parseSingleTypedOverlay_iff, inDir,
      parseSingleTypedOverlay_tagged hopen (List.not_mem_nil), htag, parseTagged, if_pos rfl]
    rw [← @parseDirOverlayArgs_iff _ _ _ (inDir spec), inDir]
    cases parseDirOverlayArgs host (trim spec) ("dir".toList ++ '(' :: (spec ++ [')'])) <;>
      simp [Except.map]
  rw [parseOverlayList_eq_ok, pieces_inDir hcomma, ← hread]
  simp

/-- Overlay lists.  A list is accepted exactly as the grammar has it, if and only if, when all its
elements are read, each one with a parenthesis ends with the one that closes the first; and a bare spec
and the same text in `dir(...)` give the same directory, if and only if the text is of a plain shape. -/
theorem parseOverlayList_iff (host : Host) :
    (∀ input, (∀ overlays, parseOverlayList host input = .ok overlays ↔ ListOf host input overlays) ↔
      ClosedWhenRead host input) ∧
    ∀ spec, '(' ∉ spec → ',' ∉ spec →
      ((∀ directory, parseOverlayList host spec = .ok [.directory directory] ↔
        parseOverlayList host (inDir spec) = .ok [.directory directory]) ↔
          SameInBothForms host (trim spec)) := by
  refine ⟨fun input => parseOverlayList_listOf_iff, fun spec hopen hcomma => ?_⟩
  simp only [parseOverlayList_bare_iff hopen hcomma, parseOverlayList_inDir_iff hcomma]
  exact sameInBothForms_iff (Network.trimmed_trim spec)

/-- A computer without a home directory. -/
def bareHost : Host where
  homeDir := none
  canonicalize _ := none
  pathExists _ := false
  isDir _ := false
  createDirAll _ := true
  debug := String.ofList
  canonicalize_canonical := Host.nowhere_canonical
  createDirAll_of_isDir := Host.created_of_false

theorem parseOverlayList_sample :
    parseOverlayList bareHost (inDir "/a:/b:ro".toList) =
      .ok [.directory ⟨"/a".toList, "/b".toList, .readOnly⟩] := by
  have hsame : SameInBothForms bareHost (trim "/a:/b:ro".toList) :=
    Or.inr (Or.inl ⟨rfl, Or.inl rfl, rfl, rfl⟩)
  have hforms := (parseOverlayList_iff bareHost).2 "/a:/b:ro".toList (by decide) (by decide)
  exact (hforms.mpr hsame _).mp rfl

/-- Text behind the last parenthesis is dropped, an unclosed expression takes the next one into its
path, and a colon at the end is read in one of the two forms only. -/
theorem text_dropped :
    parseOverlayList bareHost "env(A)b".toList = .ok [.env ['A']] ∧
      ¬ ListOf bareHost "env(A)b".toList [.env ['A']] ∧
      parseOverlayList bareHost "dir(/a:/b,env(X)".toList =
        .ok [.directory ⟨"/a".toList, "/b,env(X".toList, .readWrite⟩] ∧
      parseOverlayList bareHost "/a:/b:".toList =
        .ok [.directory ⟨"/a".toList, "/b".toList, .readWrite⟩] ∧
      (parseOverlayList bareHost (inDir "/a:/b:".toList)).toOption = none := by
  refine ⟨rfl, ?_, rfl, rfl, rfl⟩
  rintro ⟨elements, hinput, helements⟩
  have hexpressions := RelatedLists.each_related helements
  have hpieces : pieces "env(A)b".toList = ["env(A)b".toList] := by decide
  rw [← pieces_eq hinput hexpressions, hpieces] at hexpressions
  obtain ⟨overlay, hoverlay⟩ := hexpressions _ List.mem_cons_self
  obtain ⟨tag, args, hsame, -⟩ := hoverlay.wellClosed (by decide)
  have hlast := congrArg List.getLast? hsame
  have hclose : tag ++ '(' :: (args ++ [')']) = (tag ++ '(' :: args) ++ [')'] := by simp
  rw [hclose, List.getLast?_concat] at hlast
  cases hlast

end Awman.Overlay
