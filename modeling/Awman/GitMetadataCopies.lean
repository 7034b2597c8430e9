import Awman.GitMetadata

/-!
# What a copy of metadata does

A copy changes and makes files only below its destination, wherever it stops.  When it comes to its
end, the destination holds what the source holds, and besides what it held before where the source
holds nothing.
-/

namespace Awman.GitMetadata

open Awman.Disks Awman.Interaction

variable {γ : Type} {before after disk : MetadataDisk γ} {source dest path rest : Path}
  {name sourceName destName : Text} {inode input : Nat}

/-- At or below a path. -/
abbrev Below (dest : Path) : Path → Prop := fun path => dest <+: path

theorem below_self (dest : Path) : Below dest dest := List.prefix_rfl

theorem not_below_other {other : Text} (hother : name ≠ other) (dir rest : Path) :
    ¬ Below (dir ++ [name]) (dir ++ other :: rest) := by
  intro hprefix
  have hnames := (List.prefix_append_right_inj dir).mp hprefix
  exact hother (List.cons_prefix_cons.mp hnames).1

/-! ## Writing a file -/

/-- A new file is made. -/
theorem put_file_confined (before : MetadataDisk γ) (dest : Path) (destName : Text) (inode : Nat) :
    Confined (· = dest ++ [destName]) before (before.put dest destName (.file inode)) where
  kept := fun _ _ hnode => Disk.node_put_kept hnode
  elsewhere := by
    intro path houtside
    by_cases hput : before.node dest = some .directory ∧ before.node (dest ++ [destName]) = none
    · apply Disk.contentAt_congr
      · rw [Disk.node_put hput.1 hput.2, if_neg houtside]
      · intro other _
        rw [Disk.data_put]
    · rw [Disk.put_eq_self hput]

/-- A file with one name is written. -/
theorem write_confined (hfile : before.node dest = some (.file inode)) (hlinks : before.links inode = 1)
    (content : List γ) :
    Confined (· = dest) before (before.write inode content) where
  kept := fun _ _ hnode => hnode
  elsewhere := by
    intro path houtside
    refine Disk.contentAt_congr rfl ?_
    intro other hother
    apply if_neg
    rintro rfl
    exact houtside (Disk.eq_of_links hlinks hother hfile)

theorem openOutput_ensures (before : MetadataDisk γ) (dest : Path) (destName : Text) :
    Ensures (openOutput dest destName) before
      (fun inode after => after = before.put dest destName (.file before.unused) ∧
        after.node (dest ++ [destName]) = some (.file inode) ∧ after.links inode = 1)
      (Confined (· = dest ++ [destName]) before) := by
  have hmade := put_file_confined before dest destName before.unused
  refine .bind (ensures_attempt ?_ (.refl before))
  refine .change ?_
  refine .read ?_
  cases hnode : (before.put dest destName (.file before.unused)).node (dest ++ [destName]) with
  | none => exact .fail hmade
  | some node =>
    cases node with
    | file inode =>
      dsimp only
      by_cases hlinks : (before.put dest destName (.file before.unused)).links inode = 1
      · rw [if_pos hlinks]
        exact .pure ⟨rfl, hnode, hlinks⟩
      · rw [if_neg hlinks]
        exact .fail hmade
    | directory | link | special => exact .fail hmade

/-- Only the destination changes, and in the end it holds what the file does. -/
theorem copyFile_ensures (before : MetadataDisk γ) (input : Nat) (dest : Path) (destName : Text) :
    Ensures (copyFile input dest destName) before
      (fun _ after => Confined (· = dest ++ [destName]) before after ∧
        ∀ source, before.node source = some (.file input) → source ≠ dest ++ [destName] →
          after.contentAt (dest ++ [destName]) = before.contentAt source)
      (Confined (· = dest ++ [destName]) before) := by
  apply Ensures.seq (openOutput_ensures before dest destName)
  rintro output opened ⟨hopened, hfile, hlinks⟩
  have hmade : Confined (· = dest ++ [destName]) before opened := by
    rw [hopened]
    exact put_file_confined before dest destName before.unused
  have hemptied := hmade.trans (write_confined hfile hlinks [])
  have hlast : Confined (· = dest ++ [destName]) (opened.write output [])
      ((opened.write output []).write output ((opened.write output []).data input)) :=
    write_confined (show (opened.write output []).node _ = _ from hfile) hlinks _
  refine Ensures.bind (ensures_attempt ?_ hmade)
  refine Ensures.bind (Ensures.modifyState ?_)
  refine Ensures.bind (ensures_attempt ?_ hemptied)
  refine Ensures.modifyState ⟨hemptied.trans hlast, ?_⟩
  intro source hsource happart
  have hinput : input ≠ output := by
    rintro rfl
    exact happart (Disk.eq_of_links hlinks (hmade.kept _ _ hsource) hfile)
  have hdata : opened.data input = before.data input := by
    rw [hopened, Disk.data_put]
  have hnode : ((opened.write output []).write output
      ((opened.write output []).data input)).node (dest ++ [destName]) = some (.file output) := hfile
  rw [Disk.contentAt_file hnode, Disk.contentAt_file hsource, ← hdata]
  simp [Disk.write, hinput]

/-- Copying a file writes only at its target. -/
theorem copyFile_confines (input : Nat) (dest : Path) (destName : Text) :
    Confines (· = dest ++ [destName]) (copyFile input dest destName : MetadataIo γ Unit) :=
  fun before => (copyFile_ensures before input dest destName).mono (fun _ _ hafter => hafter.1)
    fun _ hhalt => hhalt

theorem Confined.below (h : Confined (· = dest) before after) : Confined (Below dest) before after :=
  h.mono fun _ hsame => hsame ▸ below_self dest

/-! ## Copying a tree -/

theorem copyTree_confines (depth : Nat) (source : Path) (sourceName : Text) (dest : Path)
    (destName : Text) :
    Confines (Below (dest ++ [destName]))
      (copyTree depth source sourceName dest destName : MetadataIo γ Unit) := by
  induction depth generalizing source sourceName dest destName with
  | zero => exact .wait
  | succ depth ih =>
    apply Relates.bind relates_attempt
    intro _
    apply Relates.bind .getState
    intro disk
    cases disk.node (source ++ [sourceName]) with
    | none => exact .fail
    | some node =>
      cases node with
      | directory =>
        apply Relates.bind (relates_makeDirectory Confined.put_directory dest destName)
        intro _
        apply Relates.bind (relates_openDirectory _)
        intro _
        apply Relates.bind .getState
        intro made
        apply Relates.forEach
        intro name _
        apply (ih _ name _ name).mono
        intro before after hafter
        apply hafter.mono
        intro path hbelow
        exact (List.prefix_append _ [name]).trans hbelow
      | file input =>
        exact (copyFile_confines input dest destName).mono fun _ _ hafter => Confined.below hafter
      | link | special => exact .fail

/-- Of what is no directory a single file is made. -/
theorem copyTree_makes (depth : Nat) (source : Path) (sourceName : Text) (dest : Path) (destName : Text)
    (hsource : before.node (source ++ [sourceName]) ≠ some .directory) :
    Ensures (copyTree depth source sourceName dest destName) before
      (fun _ after => Confined (· = dest ++ [destName]) before after)
      (Confined (· = dest ++ [destName]) before) := by
  cases depth with
  | zero => exact .wait (.refl before)
  | succ depth =>
    refine .bind (ensures_attempt ?_ (.refl before))
    refine .read ?_
    cases hnode : before.node (source ++ [sourceName]) with
    | none => exact .fail (.refl before)
    | some node =>
      cases node with
      | directory => exact absurd hnode hsource
      | file input => exact copyFile_confines input dest destName before
      | link | special => exact .fail (.refl before)

/-- Neither path is at or below the other. -/
structure Apart (source dest : Path) : Prop where
  sourceAbove : ¬ source <+: dest
  destAbove : ¬ dest <+: source

theorem Apart.symm (h : Apart source dest) : Apart dest source := ⟨h.destAbove, h.sourceAbove⟩

theorem prefix_of_snoc (h : path ++ [name] <+: source ++ [sourceName]) : path <+: source := by
  rcases List.prefix_concat_iff.mp h with hsame | hbelow
  · obtain ⟨rfl, -⟩ := List.append_inj' hsame rfl
    exact List.prefix_rfl
  · exact (List.prefix_append path [name]).trans hbelow

/-- Paths apart stay apart one level down. -/
theorem Apart.snoc (h : Apart source dest) (name destName : Text) :
    Apart (source ++ [name]) (dest ++ [destName]) :=
  ⟨fun hprefix => h.sourceAbove (prefix_of_snoc hprefix),
    fun hprefix => h.destAbove (prefix_of_snoc hprefix)⟩

theorem Apart.append (h : Apart source dest) (rest : Path) : ¬ dest <+: source ++ rest := by
  intro hprefix
  rcases List.prefix_or_prefix_of_prefix hprefix (List.prefix_append source rest) with hd | hs
  · exact h.destAbove hd
  · exact h.sourceAbove hs

theorem Apart.appends (h : Apart source dest) (front back : Path) :
    Apart (source ++ front) (dest ++ back) where
  sourceAbove := fun hprefix =>
    h.symm.append back ((List.prefix_append source front).trans hprefix)
  destAbove := fun hprefix => h.append front ((List.prefix_append dest back).trans hprefix)

/-- What a whole copy from `source` comes to. -/
structure Copied (source dest : Path) (before after : MetadataDisk γ) : Prop where
  confined : Confined (Below dest) before after
  content : ∀ rest, after.contentAt (dest ++ rest) =
    (before.fileAt (source ++ rest)).or (before.contentAt (dest ++ rest))

/-- The entries of a directory that have been copied. -/
structure CopiedEntries (source dest : Path) (names : List Text)
    (before after : MetadataDisk γ) : Prop where
  confined : Confined (Below dest) before after
  content : ∀ name rest, after.contentAt (dest ++ name :: rest) =
    (if name ∈ names then before.fileAt (source ++ name :: rest) else none).or
      (before.contentAt (dest ++ name :: rest))

theorem CopiedEntries.start (before : MetadataDisk γ) (source dest : Path) :
    CopiedEntries source dest [] before before where
  confined := .refl before
  content := by
    intro name rest
    rw [if_neg List.not_mem_nil, Option.none_or]

/-- Another entry is copied. -/
theorem CopiedEntries.next (happart : Apart source dest) {names : List Text}
    (h : CopiedEntries source dest names before disk)
    (hcopied : Copied (source ++ [name]) (dest ++ [name]) disk after) :
    CopiedEntries source dest (name :: names) before after where
  confined := by
    refine h.confined.trans (hcopied.confined.mono ?_)
    intro path hbelow
    exact (List.prefix_append dest [name]).trans hbelow
  content := by
    intro other rest
    have hsource : disk.fileAt (source ++ other :: rest) =
        before.fileAt (source ++ other :: rest) :=
      Disk.fileAt_congr (h.confined.elsewhere _ (happart.append _))
    by_cases hother : other = name
    · subst hother
      have hcontent := hcopied.content rest
      simp only [List.append_assoc, List.singleton_append] at hcontent
      rw [hcontent, hsource, h.content other rest, if_pos List.mem_cons_self]
      by_cases hmem : other ∈ names
      · rw [if_pos hmem]
        cases before.fileAt (source ++ other :: rest) <;> rfl
      · rw [if_neg hmem, Option.none_or]
    · rw [hcopied.confined.elsewhere _ (not_below_other (Ne.symm hother) dest rest),
        h.content other rest]
      have hmem : other ∈ name :: names ↔ other ∈ names := by
        simp [hother]
      simp only [hmem]

theorem CopiedEntries.congr {names others : List Text} (h : CopiedEntries source dest names before after)
    (hsame : ∀ name, name ∈ names ↔ name ∈ others) :
    CopiedEntries source dest others before after where
  confined := h.confined
  content := by
    intro name rest
    rw [h.content name rest]
    simp only [hsame]

/-- Entries are copied one by one. -/
theorem forEach_copies (happart : Apart source dest) {body : Text → MetadataIo γ Unit}
    {names : List Text} (before : MetadataDisk γ)
    (hbody : ∀ name disk, Ensures (body name) disk
      (fun _ after => Copied (source ++ [name]) (dest ++ [name]) disk after) fun _ => True) :
    Ensures (forEach names body) before
      (fun _ after => CopiedEntries source dest names before after) fun _ => True := by
  have hrun : Ensures (forEach names body) before
      (fun _ after => ∃ copied, CopiedEntries source dest copied before after ∧
        ∀ name, name ∈ names ↔ name ∈ copied ∨ name ∈ ([] : List Text)) fun _ => True := by
    refine .forEach (fun left after => ∃ copied,
      CopiedEntries source dest copied before after ∧
        ∀ name, name ∈ names ↔ name ∈ copied ∨ name ∈ left) ?_ ?_
    · intro name left disk hdisk
      obtain ⟨copied, hcopied, hall⟩ := hdisk
      refine (hbody name disk).mono ?_ fun _ _ => trivial
      intro _ after hafter
      refine ⟨name :: copied, hcopied.next happart hafter, ?_⟩
      intro other
      rw [hall other, List.mem_cons, List.mem_cons]
      tauto
    · exact ⟨[], .start before source dest, fun name => by simp⟩
  refine hrun.mono ?_ fun _ _ => trivial
  intro _ after hafter
  obtain ⟨copied, hcopied, hall⟩ := hafter
  apply hcopied.congr
  intro name
  rw [hall name]
  simp

/-- A directory is copied when it is made and all of its entries are copied. -/
theorem CopiedEntries.whole {made : MetadataDisk γ} {names : List Text}
    (h : CopiedEntries source dest names made after) (hmade : Confined (Below dest) before made)
    (hsame : ∀ path, made.contentAt path = before.contentAt path)
    (hsource : before.node source = some .directory) (hdest : made.node dest = some .directory)
    (hnames : ∀ name, made.node (source ++ [name]) ≠ none → name ∈ names) :
    Copied source dest before after where
  confined := hmade.trans h.confined
  content := by
    intro rest
    cases rest with
    | nil =>
      have hafter : after.node dest = some .directory := h.confined.kept _ _ hdest
      rw [List.append_nil, List.append_nil, ← hsame dest, Disk.contentAt_directory hafter,
        Disk.fileAt_of_contentAt_none (Disk.contentAt_directory hsource),
        Disk.contentAt_directory hdest]
      rfl
    | cons name rest =>
      rw [h.content name rest, Disk.fileAt_congr (hsame _), hsame]
      by_cases hmem : name ∈ names
      · rw [if_pos hmem]
      · have habsent : made.node (source ++ [name]) = none := by
          by_contra hthere
          exact hmem (hnames name hthere)
        have hnone : made.contentAt ((source ++ [name]) ++ rest) = none :=
          Disk.contentAt_under_absent habsent rest
        rw [List.append_assoc, List.singleton_append, hsame] at hnone
        rw [if_neg hmem, Disk.fileAt_of_contentAt_none hnone]

/-- A file written whole is a copy of its source. -/
theorem copied_file (hsource : before.node source = some (.file input))
    (hconfined : Confined (Below dest) before after) (hdest : before.node dest ≠ some .directory)
    (hcontent : after.contentAt dest = before.contentAt source) :
    Copied source dest before after where
  confined := hconfined
  content := by
    intro rest
    by_cases hrest : rest = []
    · subst hrest
      rw [List.append_nil, List.append_nil, hcontent, Disk.contentAt_file hsource,
        Disk.fileAt_file hsource]
      rfl
    · have hafter : after.node dest ≠ some .directory := by
        intro hdirectory
        have hnone : after.contentAt dest = none := Disk.contentAt_directory hdirectory
        rw [hcontent, Disk.contentAt_file hsource] at hnone
        cases hnone
      have hfile : before.node source ≠ some .directory := by
        rw [hsource]
        simp
      rw [Disk.contentAt_below hafter hrest, Disk.contentAt_below hdest hrest,
        Disk.fileAt_of_contentAt_none (Disk.contentAt_below hfile hrest)]
      rfl

/-- By induction on the depth of the walk. -/
theorem copyTree_copies (depth : Nat) (source : Path) (sourceName : Text) (dest : Path) (destName : Text)
    (happart : Apart (source ++ [sourceName]) (dest ++ [destName])) (before : MetadataDisk γ) :
    Ensures (copyTree depth source sourceName dest destName) before
      (fun _ after => Copied (source ++ [sourceName]) (dest ++ [destName]) before after)
      fun _ => True := by
  induction depth generalizing source sourceName dest destName before with
  | zero => exact .wait trivial
  | succ depth ih =>
    refine .bind (ensures_attempt ?_ trivial)
    refine .read ?_
    cases hsource : before.node (source ++ [sourceName]) with
    | none => exact .fail trivial
    | some node =>
      cases node with
      | directory =>
        refine .bind (ensures_makeDirectory ?_ trivial)
        refine .bind (ensures_openDirectory ?_ trivial)
        intro hdest
        refine .read ?_
        have hmade : Confined (Below (dest ++ [destName])) before
            (before.put dest destName .directory) := .put_directory before dest destName
        have hentries : Ensures
            (forEach ((before.put dest destName .directory).children (source ++ [sourceName]))
              fun name => copyTree depth (source ++ [sourceName]) name (dest ++ [destName]) name)
            (before.put dest destName .directory)
            (fun _ after => CopiedEntries (source ++ [sourceName]) (dest ++ [destName])
              ((before.put dest destName .directory).children (source ++ [sourceName]))
              (before.put dest destName .directory) after) fun _ => True := by
          apply forEach_copies happart
          intro name disk
          exact ih _ name _ name (happart.snoc name name) disk
        refine hentries.mono ?_ fun _ _ => trivial
        intro _ after hafter
        refine hafter.whole hmade (fun path => Disk.contentAt_put_directory path) hsource hdest ?_
        intro name hname
        exact Disk.mem_children.mpr hname
      | file input =>
        have hne : source ++ [sourceName] ≠ dest ++ [destName] := by
          intro hsame
          exact happart.sourceAbove (hsame ▸ List.prefix_rfl)
        refine (copyFile_ensures before input dest destName).mono ?_ fun _ _ => trivial
        intro _ after hafter
        obtain ⟨hconfined, hcontent⟩ := hafter
        refine copied_file hsource (Confined.below hconfined) ?_ (hcontent _ hsource hne)
        intro hdirectory
        have hnone := Disk.contentAt_directory (hconfined.kept _ _ hdirectory)
        rw [hcontent _ hsource hne, Disk.contentAt_file hsource] at hnone
        cases hnone
      | link | special => exact .fail trivial

/-! ## Whole copies -/

theorem openParents_relates {r : MetadataDisk γ → MetadataDisk γ → Prop} [Std.Refl r]
    [IsTrans (MetadataDisk γ) r]
    (hput : ∀ (disk : MetadataDisk γ) path name, r disk (disk.put path name .directory)) (create : Bool)
    (path rest : Path) :
    Relates r (openParents create path rest : MetadataIo γ Unit) := by
  induction rest generalizing path with
  | nil => exact .pure
  | cons name rest ih =>
    refine .bind ?_ ?_
    · cases create with
      | false => exact .pure
      | true => exact relates_makeDirectory hput path name
    · intro _
      exact .bind (relates_openDirectory _) fun _ => ih _

/-- The directories above the source are there, and nothing happens to them. -/
theorem openParents_source (before : MetadataDisk γ) (path rest : Path)
    (hpath : before.node path = some .directory) :
    Ensures (openParents false path rest) before
      (fun _ after => after = before ∧ before.node (path ++ rest) = some .directory)
      fun _ => True := by
  induction rest generalizing path with
  | nil =>
    rw [List.append_nil]
    exact .pure ⟨rfl, hpath⟩
  | cons name rest ih =>
    refine .bind (.pure ?_)
    refine .bind (ensures_openDirectory ?_ trivial)
    intro hdirectory
    have hrest := ih (path ++ [name]) hdirectory
    rw [List.append_assoc, List.singleton_append] at hrest
    exact hrest

theorem eq_snoc_of_getLast? (h : path.getLast? = some name) : path = path.dropLast ++ [name] :=
  (List.dropLast_append_getLast? name h).symm

/-- Copying writes only below the target. -/
theorem copy_confines (source dest : Path) :
    Confines (Below dest) (copy source dest : MetadataIo γ Unit) := by
  unfold copy
  cases hsource : source.getLast? with
  | none => exact .fail
  | some sourceName =>
    cases hdest : dest.getLast? with
    | none => exact .fail
    | some destName =>
      apply Relates.bind (openParents_relates Confined.put_directory false [] _)
      intro _
      apply Relates.bind (openParents_relates Confined.put_directory true [] _)
      intro _
      apply Relates.bind .getState
      intro disk
      have htree : Confines (Below (dest.dropLast ++ [destName])) (copyTree (disk.depth + 1)
          source.dropLast sourceName dest.dropLast destName : MetadataIo γ Unit) :=
        copyTree_confines _ _ _ _ _
      rw [← eq_snoc_of_getLast? hdest] at htree
      exact htree

/-- A copy that comes to its end. -/
theorem copy_copies (happart : Apart source dest) (before : MetadataDisk γ) :
    Ensures (copy source dest) before
      (fun _ after => Copied source dest before after ∧
        before.node source.dropLast = some .directory) fun _ => True := by
  unfold copy
  cases hsourceName : source.getLast? with
  | none => exact Ensures.fail trivial
  | some sourceName =>
    cases hdestName : dest.getLast? with
    | none => exact Ensures.fail trivial
    | some destName =>
      have hsource := eq_snoc_of_getLast? hsourceName
      have hdest := eq_snoc_of_getLast? hdestName
      apply Ensures.seq (openParents_source before [] _ Disk.node_root)
      rintro _ _ ⟨rfl, hparent⟩
      have hopened : Confines (fun _ => False)
          (openParents true [] dest.dropLast : MetadataIo γ Unit) :=
        openParents_relates Confined.put_directory true [] dest.dropLast
      refine Ensures.seq ((hopened _).mono (fun _ _ hafter => hafter) fun _ _ => trivial) ?_
      intro _ opened hopened
      refine Ensures.bind (Ensures.getState ?_)
      rw [hsource, hdest] at happart
      refine (copyTree_copies _ _ _ _ _ happart opened).mono ?_ fun _ _ => trivial
      intro _ after hafter
      rw [← hsource, ← hdest] at hafter
      refine ⟨⟨?_, ?_⟩, hparent⟩
      · exact (hopened.mono fun _ hfalse => hfalse.elim).trans hafter.confined
      · intro rest
        rw [hafter.content rest, hopened.elsewhere _ id, Disk.fileAt_congr (hopened.elsewhere _ id)]

/-- Nothing is copied from where nothing is. -/
theorem copied_absent (habsent : before.exists_ source = false) :
    Copied source dest before before where
  confined := .refl before
  content := by
    intro rest
    have hplain : ∀ found, before.node source = some found →
        ∃ absolute target, found = .link absolute target := by
      intro found hfound
      by_contra hno
      simp only [not_exists] at hno
      have hreal := Disk.realPath_plain hfound hno
      unfold Disk.exists_ at habsent
      rw [hreal] at habsent
      cases habsent
    have hnone : before.fileAt (source ++ rest) = none := by
      by_cases hrest : rest = []
      · subst hrest
        rw [List.append_nil]
        unfold Disk.fileAt Disk.contentAt
        cases hfound : before.node source with
        | none => rfl
        | some found =>
          obtain ⟨absolute, target, rfl⟩ := hplain found hfound
          rfl
      · apply Disk.fileAt_of_contentAt_none
        apply Disk.contentAt_below _ hrest
        intro hdirectory
        obtain ⟨absolute, target, hlink⟩ := hplain _ hdirectory
        cases hlink
    rw [hnone, Option.none_or]

theorem copyExisting_copies (happart : Apart source dest) (before : MetadataDisk γ) :
    Ensures (copyExisting source dest) before (fun _ after => Copied source dest before after)
      fun _ => True := by
  refine .read ?_
  cases hexists : before.exists_ source with
  | false => exact .pure (copied_absent hexists)
  | true =>
    rw [if_pos rfl]
    exact (copy_copies happart before).mono (fun _ _ hafter => hafter.1) fun _ _ => trivial

theorem copyExisting_confines (source dest : Path) :
    Confines (Below dest) (copyExisting source dest : MetadataIo γ Unit) := by
  apply Relates.bind .getState
  intro disk
  split
  · exact copy_confines source dest
  · exact .pure

/-! ## Copies of new objects -/

/-- Nothing that is held anywhere changes, and files are made only below a path. -/
structure Extended (dest : Path) (before after : MetadataDisk γ) : Prop where
  confined : Confined (Below dest) before after
  unchanged : ∀ path content, before.contentAt path = some content →
    after.contentAt path = some content

instance (dest : Path) : Std.Refl (Extended dest : MetadataDisk γ → MetadataDisk γ → Prop) :=
  ⟨fun disk => ⟨.refl disk, fun _ _ hcontent => hcontent⟩⟩

instance (dest : Path) : IsTrans (MetadataDisk γ) (Extended dest) :=
  ⟨fun _ _ _ hfirst hsecond => ⟨hfirst.confined.trans hsecond.confined,
    fun path content hcontent =>
      hsecond.unchanged path content (hfirst.unchanged path content hcontent)⟩⟩

theorem Extended.mono (h : Extended dest before after) (hpath : path <+: dest) :
    Extended path before after :=
  ⟨h.confined.mono fun _ hbelow => hpath.trans hbelow, h.unchanged⟩

theorem Extended.put_directory (before : MetadataDisk γ) (path : Path) (name : Text) :
    Extended dest before (before.put path name .directory) :=
  ⟨.put_directory before path name, fun other _ hcontent =>
    (Disk.contentAt_put_directory other).trans hcontent⟩

/-- A single file is made where none was. -/
theorem extended_of_made (hconfined : Confined (· = dest) before after)
    (hdest : ∀ inode, before.node dest ≠ some (.file inode)) : Extended dest before after where
  confined := Confined.below hconfined
  unchanged := by
    intro path content hcontent
    by_cases hsame : path = dest
    · subst hsame
      have hnode : ∃ absolute target, before.node path = some (.link absolute target) := by
        unfold Disk.contentAt at hcontent
        cases hfound : before.node path with
        | none =>
          rw [hfound] at hcontent
          cases hcontent
        | some found =>
          rw [hfound] at hcontent
          cases found with
          | file inode => exact absurd hfound (hdest inode)
          | link absolute target => exact ⟨absolute, target, rfl⟩
          | directory | special => cases hcontent
      obtain ⟨absolute, target, hlink⟩ := hnode
      unfold Disk.contentAt at hcontent ⊢
      rw [hconfined.kept _ _ hlink]
      rw [hlink] at hcontent
      exact hcontent
    · rw [hconfined.elsewhere path hsame]
      exact hcontent

theorem createDirAll_relates {r : MetadataDisk γ → MetadataDisk γ → Prop} [Std.Refl r]
    [IsTrans (MetadataDisk γ) r]
    (hput : ∀ (disk : MetadataDisk γ) path name, r disk (disk.put path name .directory)) (path : Path) :
    Relates r (createDirAll path : MetadataIo γ Unit) := by
  have hagain : ∀ path made, Relates r (makeDirectoryAgain path made : MetadataIo γ Unit) := by
    intro path made
    unfold makeDirectoryAgain
    split
    · exact .pure
    · apply Relates.bind .getState
      intro disk
      split
      · exact .pure
      · exact .fail
  induction path with
  | nil => exact .pure
  | cons name above ih =>
    apply Relates.bind (relates_makeDirectoryAt hput _ name)
    intro made
    split
    · apply Relates.bind ih
      intro _
      exact Relates.bind (relates_makeDirectoryAt hput _ name) fun _ => hagain _ _
    · exact hagain _ _

/-- What is no directory is copied to where no file is. -/
theorem copy_extends {found : Node Text} (hsource : before.node source = some found)
    (hfound : found ≠ .directory) (hdest : ∀ inode, before.node dest ≠ some (.file inode)) :
    Ensures (copy source dest) before (fun _ after => Extended dest before after)
      (Extended dest before) := by
  unfold copy
  cases hsourceName : source.getLast? with
  | none => exact .fail (Std.Refl.refl before)
  | some sourceName =>
    cases hdestName : dest.getLast? with
    | none => exact .fail (Std.Refl.refl before)
    | some destName =>
      have hopens : ∀ create path, Relates (Confined fun _ => False)
          (openParents create [] path : MetadataIo γ Unit) :=
        fun create path => openParents_relates Confined.put_directory create [] path
      have hweaker : ∀ {before after : MetadataDisk γ}, Confined (fun _ => False) before after →
          Extended dest before after := by
        intro before after hconfined
        refine ⟨hconfined.mono fun _ hfalse => hfalse.elim, ?_⟩
        intro path content hcontent
        rw [hconfined.elsewhere path id]
        exact hcontent
      have hrest : ∀ (state disk : MetadataDisk γ), Confined (fun _ => False) before disk →
          Ensures (copyTree (state.depth + 1) source.dropLast sourceName dest.dropLast destName) disk
            (fun _ after => Extended dest disk after) (Extended dest disk) := by
        intro state disk hdisk
        have hkept : disk.node (source.dropLast ++ [sourceName]) = some found := by
          rw [← eq_snoc_of_getLast? hsourceName]
          exact hdisk.kept _ _ hsource
        have hnofile : ∀ inode, disk.node dest ≠ some (.file inode) := by
          intro inode hfile
          have hcontent := hdisk.elsewhere dest id
          rw [Disk.contentAt_file hfile] at hcontent
          obtain ⟨other, hother⟩ := Disk.exists_inode_of_contentAt hcontent.symm
          exact hdest other hother
        have hmakes := @copyTree_makes γ disk (state.depth + 1) source.dropLast sourceName
          dest.dropLast destName (by
            rw [hkept]
            simpa using hfound)
        rw [← eq_snoc_of_getLast? hdestName] at hmakes
        exact hmakes.mono (fun _ _ hafter => extended_of_made hafter hnofile)
          fun _ hafter => extended_of_made hafter hnofile
      refine Relates.afterwards ((hopens false _ before).mono (fun _ _ hstate => hstate)
        fun _ hstate => hweaker hstate) (fun _ _ hstate => hweaker hstate) ?_
      intro _ first hfirst
      refine Relates.afterwards ((hopens true _ first).mono (fun _ _ hstate => hstate)
        fun _ hstate => hweaker hstate) (fun _ _ hstate => hweaker hstate) ?_
      intro _ second hsecond
      exact .read (hrest second second (hfirst.trans hsecond))

/-- New objects replace nothing. -/
theorem copyNewObjects_extends (depth : Nat) (source dest : Path) :
    Relates (Extended dest) (copyNewObjects depth source dest : MetadataIo γ Unit) := by
  induction depth generalizing source dest with
  | zero => exact .wait
  | succ depth ih =>
    intro before
    refine Ensures.bind (ensures_attempt ?_ (Std.Refl.refl before))
    refine Ensures.bind (Ensures.getState ?_)
    cases hsource : before.node source with
    | none => exact Ensures.fail (Std.Refl.refl before)
    | some found =>
      cases found with
      | directory =>
        refine Relates.bind (createDirAll_relates Extended.put_directory dest.reverse) ?_ before
        intro _
        apply Relates.bind .getState
        intro disk
        apply Relates.forEach
        intro name _
        exact (ih (source ++ [name]) (dest ++ [name])).mono fun _ _ hafter =>
          hafter.mono (List.prefix_append dest [name])
      | file | link | special =>
        refine Ensures.bind (ensures_tryExists ?_ ?_ (Std.Refl.refl before))
        · exact Ensures.pure (Std.Refl.refl before)
        · intro hmissing
          refine copy_extends hsource (by simp) ?_
          intro inode hfile
          rw [Disk.realPath_plain hfile (by simp)] at hmissing
          cases hmissing

end Awman.GitMetadata
