import Awman.GitMetadataCopies

/-!
# Refs in isolated metadata

A ref is found in a file of its own, or else among the packed refs, and a few refs belong to one
worktree.  The copies in both directions add and replace files but remove none.  They are faithful
exactly when nothing that stays behind hides or adds a ref, and no object is there with other
contents.
-/

namespace Awman.GitMetadata

open Awman.Disks Awman.Interaction

variable {γ ρ : Type} {before after disk : MetadataDisk γ}

/-! ## How git finds refs -/

/-- The name of a ref below `refs`. -/
abbrev RefName : Type := { name : Path // name ≠ [] }

/-- How git reads refs. -/
structure GitFormat (γ ρ : Type) where
  /-- The ref in a file of its own. -/
  loose : Content Text γ → ρ
  packed : Content Text γ → RefName → Option ρ
  /-- The ref that a symbolic one points to. -/
  target : ρ → Option RefName

/-- The refs of one worktree. -/
def perWorktree (name : RefName) : Bool :=
  name.1.head? ∈ [some "bisect".toList, some "worktree".toList, some "rewritten".toList]

/-- The directory with the file of a ref. -/
def WorkflowGitSource.looseDir (source : WorkflowGitSource) (name : RefName) : Path :=
  if perWorktree name then source.admin else source.common

/-- How many symbolic refs git follows. -/
def symrefDepth : Nat := 5

section lookup

variable (format : GitFormat γ ρ) (disk : MetadataDisk γ)

/-- The ref in a file of its own. -/
def looseRef (dir : Path) (name : RefName) : Option ρ :=
  (disk.contentAt (dir ++ refs :: name.1)).map format.loose

/-- The entry of the packed refs. -/
def packedRef (dir : Path) (name : RefName) : Option ρ :=
  (disk.contentAt (dir ++ [packedRefs])).bind (format.packed · name)

/-- What `HEAD` is. -/
def headRef (dir : Path) : Option ρ := (disk.contentAt (dir ++ [head])).map format.loose

/-- Follow symbolic refs. -/
def resolve (lookup : RefName → Option ρ) : Nat → ρ → Option ρ
  | 0, _ => none
  | depth + 1, value =>
    match format.target value with
    | none => some value
    | some name => (lookup name).bind (resolve lookup depth)

namespace RemotePushGit

variable (git : RemotePushGit)

/-- A ref of the private directory. -/
def privateRef (name : RefName) : Option ρ :=
  (looseRef format disk git.privateDir name).or (packedRef format disk git.privateDir name)

/-- A ref of the repository. -/
def sourceRef (name : RefName) : Option ρ :=
  (looseRef format disk (git.original.looseDir name) name).or
    (packedRef format disk git.original.common name)

/-- The private directory and the repository agree about every ref. -/
structure Mirrors : Prop where
  refs : ∀ name, git.privateRef format disk name = git.sourceRef format disk name
  head : headRef format disk git.privateDir = headRef format disk git.original.admin
  resolvedRefs : ∀ name,
    (git.privateRef format disk name).bind
        (resolve format (git.privateRef format disk) symrefDepth) =
      (git.sourceRef format disk name).bind
        (resolve format (git.sourceRef format disk) symrefDepth)
  resolvedHead :
    (headRef format disk git.privateDir).bind
        (resolve format (git.privateRef format disk) symrefDepth) =
      (headRef format disk git.original.admin).bind
        (resolve format (git.sourceRef format disk) symrefDepth)

theorem mirrors_iff : git.Mirrors format disk ↔
    (∀ name, git.privateRef format disk name = git.sourceRef format disk name) ∧
      headRef format disk git.privateDir = headRef format disk git.original.admin := by
  constructor
  · intro hmirrors
    exact ⟨hmirrors.refs, hmirrors.head⟩
  · intro hsame
    have hlookup : git.privateRef format disk = git.sourceRef format disk := funext hsame.1
    refine ⟨hsame.1, hsame.2, ?_, ?_⟩
    · intro name
      rw [hlookup]
    · rw [hlookup, hsame.2]

end RemotePushGit

/-! ## What a copy takes and leaves -/

/-- The file of a ref that is copied. -/
def copiedRef (dir : Path) (name : RefName) : Option ρ :=
  (disk.fileAt (dir ++ refs :: name.1)).map format.loose

/-- The packed refs after a copy from one directory to another. -/
def packedAfter (source dest : Path) (name : RefName) : Option ρ :=
  ((disk.fileAt (source ++ [packedRefs])).or (disk.contentAt (dest ++ [packedRefs]))).bind
    (format.packed · name)

end lookup

/-- Nothing that stays behind hides or adds a ref. -/
structure NothingLeft (copied left packed wanted : RefName → Option ρ) : Prop where
  copies : ∀ name value, copied name = some value → wanted name = some value
  lefts : ∀ name value, copied name = none → left name = some value → wanted name = some value
  /-- The packed refs are those of the other side. -/
  packs : ∀ name, copied name = none → left name = none → packed name = wanted name

theorem nothingLeft_iff {copied left packed wanted : RefName → Option ρ} :
    (∀ name, ((copied name).or (left name)).or (packed name) = wanted name) ↔
      NothingLeft copied left packed wanted := by
  constructor
  · intro hsame
    constructor
    · intro name value hcopied
      rw [← hsame name, hcopied]
      rfl
    · intro name value hcopied hleft
      rw [← hsame name, hcopied, hleft]
      rfl
    · intro name hcopied hleft
      rw [← hsame name, hcopied, hleft]
      rfl
  · intro hnothing name
    cases hcopied : copied name with
    | some value => exact (hnothing.copies name value hcopied).symm
    | none =>
      cases hleft : left name with
      | some value => exact (hnothing.lefts name value hcopied hleft).symm
      | none => exact hnothing.packs name hcopied hleft

namespace RemotePushGit

variable (format : GitFormat γ ρ) (git : RemotePushGit)

/-- Nothing in the private directory keeps a refresh from being faithful. -/
structure RefreshesClean (disk : MetadataDisk γ) : Prop where
  refs : NothingLeft (copiedRef format disk git.original.common)
    (looseRef format disk git.privateDir)
    (packedAfter format disk git.original.common git.privateDir) (git.sourceRef format disk)
  head : disk.fileAt (git.original.admin ++ [head]) = none →
    headRef format disk git.privateDir = headRef format disk git.original.admin
  objects : ∀ name rest content other, name ≠ info →
    disk.fileAt (git.original.common ++ objects :: name :: rest) = some content →
    disk.contentAt (git.privateDir ++ objects :: name :: rest) = some other → content = other

/-- The file of a ref that is copied back; those of a linked worktree are not. -/
def copiedBack (disk : MetadataDisk γ) (name : RefName) : Option ρ :=
  if git.original.looseDir name = git.original.common then
    copiedRef format disk git.privateDir name
  else none

/-- Nothing in the repository keeps a copy back from being faithful. -/
structure SyncsClean (disk : MetadataDisk γ) : Prop where
  refs : NothingLeft (git.copiedBack format disk)
    (fun name => looseRef format disk (git.original.looseDir name) name)
    (packedAfter format disk git.privateDir git.original.common) (git.privateRef format disk)
  head : disk.fileAt (git.privateDir ++ [head]) = none →
    headRef format disk git.original.admin = headRef format disk git.privateDir

end RemotePushGit

/-- No object in a directory is overwritten. -/
def KeepsObjects (dir : Path) (before after : MetadataDisk γ) : Prop :=
  ∀ name rest content, before.contentAt (dir ++ objects :: name :: rest) = some content →
    after.contentAt (dir ++ objects :: name :: rest) = some content

/-! ## A refresh -/

section refresh

variable (git : RemotePushGit)

theorem RemotePushGit.apart_common : Apart git.original.common git.privateDir :=
  ⟨git.apart.2, git.apart.1⟩

theorem WorkflowGitSource.common_prefix (source : WorkflowGitSource) :
    source.common <+: source.admin := by
  rcases source.layout with hsame | ⟨worktree, hlinked⟩
  · rw [hsame]
  · rw [hlinked]
    exact List.prefix_append _ _

theorem RemotePushGit.apart_admin : Apart git.original.admin git.privateDir where
  sourceAbove := fun hprefix => git.apart.2 (git.original.common_prefix.trans hprefix)
  destAbove := by
    intro hprefix
    rcases git.original.layout with hsame | ⟨worktree, hlinked⟩
    · rw [hsame] at hprefix
      exact git.apart.1 hprefix
    · rw [hlinked] at hprefix
      exact git.apart_common.append [worktrees, worktree] hprefix

/-- What a whole refresh comes to. -/
structure Refreshed (before after : MetadataDisk γ) : Prop where
  confined : Confined (Below git.privateDir) before after
  refs : ∀ rest, after.contentAt (git.privateDir ++ refs :: rest) =
    (before.fileAt (git.original.common ++ refs :: rest)).or
      (before.contentAt (git.privateDir ++ refs :: rest))
  packed : after.contentAt (git.privateDir ++ [packedRefs]) =
    (before.fileAt (git.original.common ++ [packedRefs])).or
      (before.contentAt (git.privateDir ++ [packedRefs]))
  head : after.contentAt (git.privateDir ++ [head]) =
    (before.fileAt (git.original.admin ++ [head])).or
      (before.contentAt (git.privateDir ++ [head]))
  objects : ∀ name rest, after.contentAt (git.privateDir ++ objects :: name :: rest) =
    (if name ≠ info then before.fileAt (git.original.common ++ objects :: name :: rest) else none).or
      (before.contentAt (git.privateDir ++ objects :: name :: rest))

theorem refreshObjects_ensures (before : MetadataDisk γ) :
    Ensures git.refreshObjects before (fun _ after =>
      ∃ names, CopiedEntries (git.original.common ++ [objects]) (git.privateDir ++ [objects]) names
        before after ∧ info ∉ names ∧ ∀ name rest, name ≠ info → name ∉ names →
          before.fileAt ((git.original.common ++ [objects]) ++ name :: rest) = none)
      fun _ => True := by
  have happart : Apart (git.original.common ++ [objects]) (git.privateDir ++ [objects]) :=
    git.apart_common.appends [objects] [objects]
  refine Ensures.bind (ensures_attempt ?_ trivial)
  refine Ensures.bind (Ensures.getState ?_)
  split
  · exact Ensures.fail trivial
  · next real hreal =>
    split
    case isFalse => exact Ensures.fail trivial
    by_cases hplain : before.node (git.original.common ++ [objects]) = some .directory
    · have hsame : real = git.original.common ++ [objects] := by
        rw [Disk.realPath_plain hplain (by simp)] at hreal
        exact (Except.ok.inj hreal).symm
      rw [hsame]
      refine (forEach_copies happart before ?_).mono ?_ fun _ _ => trivial
      · intro name disk
        have hcopy := copy_copies (happart.snoc name name) disk
        simp only [List.append_assoc, List.singleton_append] at hcopy ⊢
        exact hcopy.mono (fun _ _ hafter => hafter.1) fun _ _ => trivial
      · intro _ after hafter
        refine ⟨_, hafter, by simp, ?_⟩
        intro name rest hname hmem
        have habsent : before.node ((git.original.common ++ [objects]) ++ [name]) = none := by
          by_contra hthere
          apply hmem
          rw [List.mem_filter]
          exact ⟨Disk.mem_children.mpr hthere, by simpa using hname⟩
        apply Disk.fileAt_of_contentAt_none
        have hunder := Disk.contentAt_under_absent habsent rest
        rw [List.append_assoc, List.singleton_append] at hunder
        exact hunder
    · -- A link leads to the directory, and no entry below it can be copied.
      have hnone : ∀ name rest, before.fileAt ((git.original.common ++ [objects]) ++ name :: rest) =
          none := by
        intro name rest
        apply Disk.fileAt_of_contentAt_none
        exact Disk.contentAt_below hplain (by simp)
      cases (before.children real).filter (· ≠ info) with
      | nil =>
        refine Ensures.pure ⟨[], .start _ _ _, List.not_mem_nil, ?_⟩
        intro name rest _ _
        exact hnone name rest
      | cons name rest =>
        have hcopy := copy_copies (happart.snoc name name) before
        simp only [List.append_assoc, List.singleton_append] at hcopy
        apply Ensures.seq hcopy
        intro _ after hafter
        have hdirectory := hafter.2
        rw [show git.original.common ++ [objects, name] = (git.original.common ++ [objects]) ++ [name]
          by simp, List.dropLast_concat] at hdirectory
        exact absurd hdirectory hplain

/-- The entries of a directory that are there are copied. -/
theorem copyExistingEntries_ensures {source dest : Path} (happart : Apart source dest) (names : List Text)
    (before : MetadataDisk γ) :
    Ensures (forEach names fun name => copyExisting (source ++ [name]) (dest ++ [name])) before
      (fun _ after => CopiedEntries source dest names before after) fun _ => True :=
  forEach_copies happart before fun name disk => copyExisting_copies (happart.snoc name name) disk

theorem refresh_ensures (before : MetadataDisk γ) :
    Ensures git.refreshWorkflowMetadata before (fun _ after => Refreshed git before after)
      fun _ => True := by
  apply Ensures.seq (refreshObjects_ensures git before)
  rintro _ first ⟨names, hobjects, hinfo, hothers⟩
  apply Ensures.seq (copyExistingEntries_ensures git.apart_common _ first)
  intro _ second hshared
  refine (copyExistingEntries_ensures git.apart_admin _ second).mono ?_ fun _ _ => trivial
  intro _ after hown
  have hfirst : Confined (Below git.privateDir) before first :=
    hobjects.confined.mono fun path hbelow => (List.prefix_append _ _).trans hbelow
  have hsecond := hfirst.trans hshared.confined
  have hcommon : ∀ rest, first.fileAt (git.original.common ++ rest) =
      before.fileAt (git.original.common ++ rest) :=
    fun rest => Disk.fileAt_congr (hfirst.elsewhere _ (git.apart_common.append rest))
  have hadmin : ∀ rest, second.fileAt (git.original.admin ++ rest) =
      before.fileAt (git.original.admin ++ rest) :=
    fun rest => Disk.fileAt_congr (hsecond.elsewhere _ (git.apart_admin.append rest))
  have huntouched : ∀ name rest, objects ≠ name →
      first.contentAt (git.privateDir ++ name :: rest) =
        before.contentAt (git.privateDir ++ name :: rest) :=
    fun name rest hname => hobjects.confined.elsewhere _ (not_below_other hname _ rest)
  constructor
  · exact hsecond.trans hown.confined
  · intro rest
    have hsame := huntouched refs rest (by decide)
    rw [hown.content, if_neg (by decide), Option.none_or, hshared.content, if_pos (by decide),
      hcommon, hsame]
  · have hsame := huntouched packedRefs [] (by decide)
    rw [hown.content, if_neg (by decide), Option.none_or, hshared.content, if_pos (by decide),
      hcommon, hsame]
  · have hsame := huntouched head [] (by decide)
    rw [hown.content, if_pos (by decide), hadmin, hshared.content, if_neg (by decide),
      Option.none_or, hsame]
  · intro name rest
    have hcontent := hobjects.content name rest
    simp only [List.append_assoc, List.singleton_append] at hcontent hothers
    rw [hown.content, if_neg (by decide), Option.none_or, hshared.content, if_neg (by decide),
      Option.none_or, hcontent]
    congr 1
    by_cases hname : name = info
    · subst hname
      rw [if_neg hinfo, if_neg (by simp)]
    · rw [if_pos hname]
      by_cases hmem : name ∈ names
      · rw [if_pos hmem]
      · rw [if_neg hmem, hothers name rest hname hmem]

end refresh

/-! ## A copy back -/

section sync

variable (git : RemotePushGit)

/-- What a whole copy back comes to. -/
structure Synced (before after : MetadataDisk γ) : Prop where
  refs : ∀ rest, after.contentAt (git.original.common ++ refs :: rest) =
    (before.fileAt (git.privateDir ++ refs :: rest)).or
      (before.contentAt (git.original.common ++ refs :: rest))
  packed : after.contentAt (git.original.common ++ [packedRefs]) =
    (before.fileAt (git.privateDir ++ [packedRefs])).or
      (before.contentAt (git.original.common ++ [packedRefs]))
  head : after.contentAt (git.original.admin ++ [head]) =
    (before.fileAt (git.privateDir ++ [head])).or
      (before.contentAt (git.original.admin ++ [head]))
  /-- The refs of a linked worktree are left alone. -/
  own : git.original.admin ≠ git.original.common → ∀ rest,
    after.contentAt (git.original.admin ++ GitMetadata.refs :: rest) =
      before.contentAt (git.original.admin ++ GitMetadata.refs :: rest)
  privateDir : ∀ rest,
    after.contentAt (git.privateDir ++ rest) = before.contentAt (git.privateDir ++ rest)
  objects : KeepsObjects git.original.common before after

theorem syncObjects_extends :
    Relates (Extended (git.original.common ++ [objects])) (git.syncObjects : MetadataIo γ Unit) := by
  apply Relates.bind .getState
  intro disk
  split
  · exact copyNewObjects_extends _ _ _
  · exact .pure

/-- A path of the worktree, seen from the shared directory. -/
theorem WorkflowGitSource.admin_path (source : WorkflowGitSource) (name : Text) (rest : Path) :
    source.admin = source.common ∧ source.admin ++ name :: rest = source.common ++ name :: rest ∨
      ∃ worktree, source.admin ++ name :: rest =
        source.common ++ worktrees :: worktree :: name :: rest := by
  rcases source.layout with hsame | ⟨worktree, hlinked⟩
  · left
    exact ⟨hsame, by rw [hsame]⟩
  · right
    refine ⟨worktree, ?_⟩
    rw [hlinked, List.append_assoc]
    rfl

/-- Copies into the directory of the worktree leave the other files of the shared one. -/
theorem copiedAdmin_elsewhere {names : List Text}
    (h : CopiedEntries git.privateDir git.original.admin names before after) {name : Text}
    (hname : name ∉ names) (hworktrees : name ≠ worktrees) (rest : Path) :
    after.contentAt (git.original.common ++ name :: rest) =
      before.contentAt (git.original.common ++ name :: rest) := by
  rcases git.original.layout with hsame | ⟨worktree, hlinked⟩
  · have hcontent := h.content name rest
    rw [if_neg hname, Option.none_or, hsame] at hcontent
    exact hcontent
  · apply h.confined.elsewhere
    rw [hlinked]
    intro hprefix
    have hnames := (List.prefix_append_right_inj _).mp hprefix
    exact hworktrees (List.cons_prefix_cons.mp hnames).1.symm

/-- Copies into the shared directory leave the files of the worktree. -/
theorem copiedCommon_elsewhere {names : List Text}
    (h : CopiedEntries git.privateDir git.original.common names before after) {name : Text}
    (hworktrees : worktrees ∉ names) (rest : Path)
    (hname : git.original.admin = git.original.common → name ∉ names) :
    after.contentAt (git.original.admin ++ name :: rest) =
      before.contentAt (git.original.admin ++ name :: rest) := by
  rcases git.original.admin_path name rest with ⟨hsame, hpath⟩ | ⟨worktree, hpath⟩
  · rw [hpath, h.content, if_neg (hname hsame), Option.none_or]
  · rw [hpath, h.content, if_neg hworktrees, Option.none_or]

/-- Copies of objects leave the files of the worktree. -/
theorem extended_admin (h : Extended (git.original.common ++ [objects]) before after) {name : Text}
    (hname : objects ≠ name) (rest : Path) :
    after.contentAt (git.original.admin ++ name :: rest) =
      before.contentAt (git.original.admin ++ name :: rest) := by
  apply h.confined.elsewhere
  rcases git.original.admin_path name rest with ⟨-, hpath⟩ | ⟨worktree, hpath⟩
  · rw [hpath]
    exact not_below_other hname _ rest
  · rw [hpath]
    exact not_below_other (by decide) _ _

theorem sync_ensures (before : MetadataDisk γ) :
    Ensures git.syncWorkflowMetadata before (fun _ after => Synced git before after)
      fun _ => True := by
  have happart := git.apart_common.symm
  refine Ensures.seq ((syncObjects_extends git before).mono (fun _ _ hafter => hafter)
    fun _ _ => trivial) ?_
  intro _ first hfirst
  apply Ensures.seq (copyExistingEntries_ensures happart _ first)
  intro _ second hshared
  refine (copyExistingEntries_ensures git.apart_admin.symm _ second).mono ?_ fun _ _ => trivial
  intro _ after hown
  have hobjects : ∀ name rest, objects ≠ name →
      first.contentAt (git.original.common ++ name :: rest) =
        before.contentAt (git.original.common ++ name :: rest) :=
    fun name rest hname => hfirst.confined.elsewhere _ (not_below_other hname _ rest)
  have hprivateFirst : ∀ rest, first.contentAt (git.privateDir ++ rest) =
      before.contentAt (git.privateDir ++ rest) := by
    intro rest
    apply hfirst.confined.elsewhere
    intro hprefix
    exact happart.append rest ((List.prefix_append _ _).trans hprefix)
  have hprivateSecond : ∀ rest, second.contentAt (git.privateDir ++ rest) =
      before.contentAt (git.privateDir ++ rest) := by
    intro rest
    rw [hshared.confined.elsewhere _ (happart.append rest), hprivateFirst]
  constructor
  · intro rest
    rw [copiedAdmin_elsewhere git hown (by decide) (by decide), hshared.content,
      if_pos (by decide), Disk.fileAt_congr (hprivateFirst _), hobjects refs rest (by decide)]
  · rw [copiedAdmin_elsewhere git hown (by decide) (by decide), hshared.content,
      if_pos (by decide), Disk.fileAt_congr (hprivateFirst _), hobjects packedRefs [] (by decide)]
  · rw [hown.content, if_pos (by decide), Disk.fileAt_congr (hprivateSecond _),
      copiedCommon_elsewhere git hshared (by decide) [] (fun _ => by decide),
      extended_admin git hfirst (by decide) []]
  · intro hlinked rest
    rw [hown.content, if_neg (by decide), Option.none_or,
      copiedCommon_elsewhere git hshared (by decide) rest (fun hsame => absurd hsame hlinked),
      extended_admin git hfirst (by decide) rest]
  · intro rest
    rw [hown.confined.elsewhere _ (git.apart_admin.symm.append rest), hprivateSecond]
  · intro name rest content hcontent
    rw [copiedAdmin_elsewhere git hown (by decide) (by decide), hshared.content,
      if_neg (by decide), Option.none_or]
    exact hfirst.unchanged _ _ hcontent

end sync

/-! ## Faithfulness -/

section faithful

variable (format : GitFormat γ ρ) (git : RemotePushGit)

/-- What is promised about a refresh. -/
structure RefreshFaithful (before after : MetadataDisk γ) : Prop where
  mirrors : git.Mirrors format after
  objects : KeepsObjects git.privateDir before after

/-- What is promised about a copy back. -/
structure SyncFaithful (before after : MetadataDisk γ) : Prop where
  mirrors : git.Mirrors format after
  objects : KeepsObjects git.original.common before after

variable {git}

theorem WorkflowGitSource.looseDir_cases (source : WorkflowGitSource) (name : RefName) :
    source.looseDir name = source.common ∨
      source.looseDir name = source.admin ∧ source.admin ≠ source.common := by
  unfold WorkflowGitSource.looseDir
  by_cases hsame : source.admin = source.common
  · left
    rw [hsame]
    split <;> rfl
  · split
    · exact Or.inr ⟨rfl, hsame⟩
    · exact Or.inl rfl

theorem Refreshed.privateRef (h : Refreshed git before after) (name : RefName) :
    git.privateRef format after name =
      ((copiedRef format before git.original.common name).or
        (looseRef format before git.privateDir name)).or
        (packedAfter format before git.original.common git.privateDir name) := by
  unfold RemotePushGit.privateRef looseRef packedRef copiedRef packedAfter
  rw [h.refs, h.packed, Option.map_or]

theorem Refreshed.sourceRef (h : Refreshed git before after) (name : RefName) :
    git.sourceRef format after name = git.sourceRef format before name := by
  have hloose : looseRef format after (git.original.looseDir name) name =
      looseRef format before (git.original.looseDir name) name := by
    unfold looseRef
    rw [h.confined.elsewhere]
    rcases git.original.looseDir_cases name with hcommon | ⟨hadmin, -⟩
    · rw [hcommon]
      exact git.apart_common.append _
    · rw [hadmin]
      exact git.apart_admin.append _
  have hpacked : packedRef format after git.original.common name =
      packedRef format before git.original.common name := by
    unfold packedRef
    rw [h.confined.elsewhere _ (git.apart_common.append _)]
  unfold RemotePushGit.sourceRef
  rw [hloose, hpacked]

/-- A head that is copied is that of the other side. -/
theorem head_iff {content other : Option (Content Text γ)} (read : Content Text γ → ρ)
    {copied : Option (Content Text γ)} (hcopied : ∀ found, copied = some found → other = some found) :
    (copied.or content).map read = other.map read ↔
      (copied = none → content.map read = other.map read) := by
  cases copied with
  | none => simp
  | some found => simp [hcopied found rfl]

theorem contentAt_of_fileAt {path : Path} {found : Content Text γ} (h : disk.fileAt path = some found) :
    disk.contentAt path = some found := by
  unfold Disk.fileAt at h
  split at h
  · next data hcontent => rw [hcontent, h]
  · cases h

/-- A refresh is faithful exactly when nothing in the private directory keeps it from being so. -/
theorem refreshed_faithful_iff (h : Refreshed git before after) :
    RefreshFaithful format git before after ↔ git.RefreshesClean format before := by
  have hrefs : (∀ name, git.privateRef format after name = git.sourceRef format after name) ↔
      NothingLeft (copiedRef format before git.original.common)
        (looseRef format before git.privateDir)
        (packedAfter format before git.original.common git.privateDir)
        (git.sourceRef format before) := by
    rw [← nothingLeft_iff]
    simp only [h.privateRef format, h.sourceRef format]
  have hhead : headRef format after git.privateDir = headRef format after git.original.admin ↔
      (before.fileAt (git.original.admin ++ [head]) = none →
        headRef format before git.privateDir = headRef format before git.original.admin) := by
    unfold headRef
    rw [h.head, h.confined.elsewhere _ (git.apart_admin.append _)]
    exact head_iff format.loose fun found hfound => contentAt_of_fileAt hfound
  have hobjects : KeepsObjects git.privateDir before after ↔
      ∀ name rest content other, name ≠ info →
        before.fileAt (git.original.common ++ objects :: name :: rest) = some content →
        before.contentAt (git.privateDir ++ objects :: name :: rest) = some other →
          content = other := by
    constructor
    · intro hkeeps name rest content other hname hcontent hother
      have hafter := hkeeps name rest other hother
      rw [h.objects, if_pos hname, hcontent] at hafter
      exact Option.some.inj hafter
    · intro hsame name rest other hother
      rw [h.objects]
      by_cases hname : name = info
      · rw [if_neg (by simpa using hname), Option.none_or, hother]
      · rw [if_pos hname]
        cases hcontent : before.fileAt (git.original.common ++ objects :: name :: rest) with
        | none => rw [Option.none_or, hother]
        | some content =>
          rw [hsame name rest content other hname hcontent hother]
          rfl
  constructor
  · intro hfaithful
    exact ⟨hrefs.mp hfaithful.mirrors.refs, hhead.mp hfaithful.mirrors.head,
      hobjects.mp hfaithful.objects⟩
  · intro hclean
    exact ⟨(git.mirrors_iff format after).mpr ⟨hrefs.mpr hclean.refs, hhead.mpr hclean.head⟩,
      hobjects.mpr hclean.objects⟩

theorem Synced.privateRef (h : Synced git before after) (name : RefName) :
    git.privateRef format after name = git.privateRef format before name := by
  unfold RemotePushGit.privateRef looseRef packedRef
  rw [h.privateDir, h.privateDir]

theorem Synced.sourceRef (h : Synced git before after) (name : RefName) :
    git.sourceRef format after name =
      ((git.copiedBack format before name).or
        (looseRef format before (git.original.looseDir name) name)).or
        (packedAfter format before git.privateDir git.original.common name) := by
  have hpacked : packedRef format after git.original.common name =
      packedAfter format before git.privateDir git.original.common name := by
    unfold packedRef packedAfter
    rw [h.packed]
  have hloose : looseRef format after (git.original.looseDir name) name =
      (git.copiedBack format before name).or
        (looseRef format before (git.original.looseDir name) name) := by
    unfold looseRef RemotePushGit.copiedBack copiedRef
    rcases git.original.looseDir_cases name with hcommon | ⟨hadmin, hlinked⟩
    · rw [hcommon, if_pos rfl, h.refs, Option.map_or]
    · rw [hadmin, if_neg hlinked, h.own hlinked, Option.none_or]
  unfold RemotePushGit.sourceRef
  rw [hpacked, hloose]

/-- A copy back is faithful exactly when nothing in the repository keeps it from being so. -/
theorem synced_faithful_iff (h : Synced git before after) :
    SyncFaithful format git before after ↔ git.SyncsClean format before := by
  have hrefs : (∀ name, git.privateRef format after name = git.sourceRef format after name) ↔
      NothingLeft (git.copiedBack format before)
        (fun name => looseRef format before (git.original.looseDir name) name)
        (packedAfter format before git.privateDir git.original.common)
        (git.privateRef format before) := by
    rw [← nothingLeft_iff]
    simp only [h.privateRef format, h.sourceRef format]
    exact ⟨fun hsame name => (hsame name).symm, fun hsame name => (hsame name).symm⟩
  have hhead : headRef format after git.privateDir = headRef format after git.original.admin ↔
      (before.fileAt (git.privateDir ++ [head]) = none →
        headRef format before git.original.admin = headRef format before git.privateDir) := by
    unfold headRef
    rw [h.head, h.privateDir, eq_comm]
    exact head_iff format.loose fun found hfound => contentAt_of_fileAt hfound
  constructor
  · intro hfaithful
    exact ⟨hrefs.mp hfaithful.mirrors.refs, hhead.mp hfaithful.mirrors.head⟩
  · intro hclean
    exact ⟨(git.mirrors_iff format after).mpr ⟨hrefs.mpr hclean.refs, hhead.mpr hclean.head⟩,
      h.objects⟩

theorem refresh_confines (git : RemotePushGit) :
    Confines (Below git.privateDir) (git.refreshWorkflowMetadata : MetadataIo γ Unit) := by
  have hbelow : ∀ (source path : Path), Confines (Below git.privateDir)
      (copy source (git.privateDir ++ path) : MetadataIo γ Unit) := by
    intro source path
    apply (copy_confines source (git.privateDir ++ path)).mono
    intro before after hafter
    exact hafter.mono fun _ hpath => (List.prefix_append _ path).trans hpath
  have hexisting : ∀ (source : Path) names, Confines (Below git.privateDir)
      (forEach names fun name => copyExisting (source ++ [name]) (git.privateDir ++ [name]) :
        MetadataIo γ Unit) := by
    intro source names
    apply Relates.forEach
    intro name _
    apply Relates.bind .getState
    intro disk
    split
    · exact hbelow _ _
    · exact .pure
  refine Relates.bind ?_ fun _ => Relates.bind (hexisting _ _) fun _ => hexisting _ _
  apply Relates.bind relates_attempt
  intro _
  apply Relates.bind .getState
  intro disk
  split
  · exact .fail
  · split
    · apply Relates.forEach
      intro name _
      exact hbelow _ _
    · exact .fail

theorem sync_confines (git : RemotePushGit) :
    Confines (Below git.original.common) (git.syncWorkflowMetadata : MetadataIo γ Unit) := by
  have hexisting : ∀ (dest : Path) names, git.original.common <+: dest →
      Confines (Below git.original.common)
        (forEach names fun name => copyExisting (git.privateDir ++ [name]) (dest ++ [name]) :
          MetadataIo γ Unit) := by
    intro dest names hdest
    apply Relates.forEach
    intro name _
    apply (copyExisting_confines _ (dest ++ [name])).mono
    intro before after hafter
    exact hafter.mono fun _ hpath => (hdest.trans (List.prefix_append _ [name])).trans hpath
  refine Relates.bind ?_ fun _ => Relates.bind (hexisting _ _ List.prefix_rfl) fun _ =>
    hexisting _ _ git.original.common_prefix
  apply (syncObjects_extends git).mono
  intro before after hafter
  exact hafter.confined.mono fun _ hpath => (List.prefix_append _ [objects]).trans hpath

/-- What is promised about a refresh of `before` and a copy back from `worked`, in which the steps
between the two have left the metadata. -/
structure MetadataFaithful (format : GitFormat γ ρ) (git : RemotePushGit)
    (before refreshed worked synced : MetadataDisk γ) : Prop where
  refresh : RefreshFaithful format git before refreshed
  sync : SyncFaithful format git worked synced
  /-- Wherever a refresh stops, no file outside the private directory has changed. -/
  refreshInside : ∀ answers, Confined (Below git.privateDir) before
    (git.refreshWorkflowMetadata ⟨answers, before⟩).2.state
  /-- Wherever a copy back stops, no file outside the metadata of the repository has changed. -/
  syncInside : ∀ answers, Confined (Below git.original.common) worked
    (git.syncWorkflowMetadata ⟨answers, worked⟩).2.state

/-- The isolated metadata is faithful exactly when nothing that stays behind hides or adds a ref and
no object is there with other contents. -/
theorem metadata_faithful_iff (format : GitFormat γ ρ) (git : RemotePushGit)
    {before worked : MetadataDisk γ} {answers later : List Bool}
    (hrefresh : (git.refreshWorkflowMetadata ⟨answers, before⟩).1 = .ok ())
    (hsync : (git.syncWorkflowMetadata ⟨later, worked⟩).1 = .ok ()) :
    MetadataFaithful format git before (git.refreshWorkflowMetadata ⟨answers, before⟩).2.state
        worked (git.syncWorkflowMetadata ⟨later, worked⟩).2.state ↔
      git.RefreshesClean format before ∧ git.SyncsClean format worked := by
  have hrefreshed := (refresh_ensures git before).returned hrefresh
  have hsynced := (sync_ensures git worked).returned hsync
  rw [← refreshed_faithful_iff format hrefreshed, ← synced_faithful_iff format hsynced]
  constructor
  · intro hfaithful
    exact ⟨hfaithful.refresh, hfaithful.sync⟩
  · intro hboth
    refine ⟨hboth.1, hboth.2, ?_, ?_⟩
    · intro answers
      exact (refresh_confines git before).everywhere (fun _ _ hafter => hafter) answers
    · intro answers
      exact (sync_confines git worked).everywhere (fun _ _ hafter => hafter) answers

end faithful

/-! ## A branch that was deleted -/

/-- A repository and its private directory. -/
def plainGit : RemotePushGit where
  privateDir := ["push".toList]
  original :=
    { common := ["git".toList]
      admin := ["git".toList]
      layout := Or.inl rfl }
  apart := by decide

/-- Refs are as their files say, and nothing is packed. -/
def plainFormat : GitFormat Char (List Char) where
  loose := fun content =>
    match content with
    | .bytes data => data
    | .link _ _ => []
  packed := fun _ _ => none
  target := fun _ => none

/-- The entries of a repository whose branch was deleted after the private directory was made. -/
def deletedBranchEntries : List (Path × Node Text) :=
  [(["git".toList], .directory), (["git".toList, objects], .directory),
    (["git".toList, refs], .directory), (["git".toList, head], .file 1),
    (["push".toList], .directory), (["push".toList, objects], .directory),
    (["push".toList, refs], .directory), (["push".toList, refs, "heads".toList], .directory),
    (["push".toList, refs, "heads".toList, "old".toList], .file 2),
    (["push".toList, head], .file 3)]

/-- The disk with these entries. -/
def deletedBranch : MetadataDisk Char where
  entries := deletedBranchEntries
  data := fun inode => if inode = 2 then "0123".toList else "ref: refs/heads/main".toList
  closed := Disk.closed_of_entries (by decide)

theorem metadata_faithful_iff_deletedBranch :
    MetadataFaithful plainFormat plainGit deletedBranch
        (plainGit.refreshWorkflowMetadata ⟨List.replicate 40 true, deletedBranch⟩).2.state
        deletedBranch (plainGit.syncWorkflowMetadata ⟨List.replicate 40 true, deletedBranch⟩).2.state ↔
      plainGit.RefreshesClean plainFormat deletedBranch ∧
        plainGit.SyncsClean plainFormat deletedBranch :=
  metadata_faithful_iff plainFormat plainGit rfl rfl

/-- The private directory still has the branch that the repository has deleted. -/
theorem deletedBranch_stays :
    ¬ ∀ (answers later : List Bool) (before worked : MetadataDisk Char),
      (plainGit.refreshWorkflowMetadata ⟨answers, before⟩).1 = .ok () →
      (plainGit.syncWorkflowMetadata ⟨later, worked⟩).1 = .ok () →
        MetadataFaithful plainFormat plainGit before
          (plainGit.refreshWorkflowMetadata ⟨answers, before⟩).2.state worked
          (plainGit.syncWorkflowMetadata ⟨later, worked⟩).2.state := by
  intro hall
  have hfaithful := hall (List.replicate 40 true) (List.replicate 40 true) deletedBranch deletedBranch
    rfl rfl
  have hbranch := hfaithful.refresh.mirrors.refs ⟨["heads".toList, "old".toList], by simp⟩
  have hstays : plainGit.privateRef plainFormat
      (plainGit.refreshWorkflowMetadata ⟨List.replicate 40 true, deletedBranch⟩).2.state
      ⟨["heads".toList, "old".toList], by simp⟩ = some "0123".toList := rfl
  have hdeleted : plainGit.sourceRef plainFormat
      (plainGit.refreshWorkflowMetadata ⟨List.replicate 40 true, deletedBranch⟩).2.state
      ⟨["heads".toList, "old".toList], by simp⟩ = none := rfl
  rw [hstays, hdeleted] at hbranch
  cases hbranch

end Awman.GitMetadata
