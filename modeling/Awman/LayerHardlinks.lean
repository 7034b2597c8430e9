import Awman.LayerSymlinks
import Mathlib.Data.List.Induction

/-!
# Hardlinks inside a layer

The checker keeps two sets of paths for a layer: its symlinks, and the entries that a hardlink may
have for its target.  An entry that is put in the place of a directory takes the entries below it
away, which the sets do not follow.
-/

namespace Awman.Oci

open Awman.Utf8Text Awman.FileTrees

/-- The path that a change puts an entry at. -/
def putAt {α : Type} : Change α → Option (List α)
  | .create path _ => some path
  | .link path _ => some path
  | _ => none

/-- The change puts an entry that is no directory above the path, which takes the path away. -/
def Displaces {α : Type} (change : Change α) (path : List α) : Prop :=
  match change with
  | .create at' kind => at' <+: path ∧ at' ≠ path ∧ kind ≠ .directory
  | .link at' _ => at' <+: path ∧ at' ≠ path
  | _ => False

/-- What some entries put.  Their whiteouts act on lower layers, of which an empty directory has
nothing. -/
def additions (entries : List LayerEntry) : List (Change (List UInt8)) :=
  (layerChanges entries).filter (! ·.isRemoval)

/-- What some entries make of an empty directory. -/
def layerTree (entries : List LayerEntry) : FileTree (List UInt8) :=
  FileTree.empty.run (additions entries)

/-- Every hardlink of the layer, with the entries before it and its target. -/
def Hardlink (entries before : List LayerEntry) (target : List (List UInt8)) : Prop :=
  ∃ entry after path, entries = before ++ entry :: after ∧ entry.change = some (.link path target)

/-- The target of a hardlink is a file and is not reached through a symlink. -/
structure TargetHeld (tree : FileTree (List UInt8)) (target : List (List UInt8)) : Prop where
  file : tree target = some .file
  direct : ∀ ancestor, ancestor ≠ [] → ancestor <+: target → ancestor ≠ target →
    tree ancestor ≠ some .symlink

/-- Every hardlink of the layer has its target among what the entries before it make. -/
def HardlinksHeld (entries : List LayerEntry) : Prop :=
  ∀ before target, Hardlink entries before target → TargetHeld (layerTree before) target

/-- Among the changes only the path itself is named by a name that reads like it. -/
def Owned (changes : List (Change (List UInt8))) (path : List (List UInt8)) : Prop :=
  ∀ change ∈ changes, ∀ other, putAt change = some other →
    other.map fromUtf8Lossy = path.map fromUtf8Lossy → other = path

/-- No name before a hardlink is confused with its target or a directory above it. -/
def Unconfused (entries : List LayerEntry) : Prop :=
  ∀ before target, Hardlink entries before target →
    ∀ ancestor, ancestor <+: target → Owned (additions before) ancestor

/-- The path is taken away, and nothing is put there again. -/
def Displaced (changes : List (Change (List UInt8))) (path : List (List UInt8)) : Prop :=
  ∃ front change back, changes = front ++ change :: back ∧ Displaces change path ∧
    ∀ later ∈ back, putAt later ≠ some path

/-- No target of a hardlink was taken away before it by an entry put above it. -/
def Undisplaced (entries : List LayerEntry) : Prop :=
  ∀ before target, Hardlink entries before target → ¬ Displaced (additions before) target

/-! ## What the checker lets pass -/

/-- A hardlink's target is not below a symlink of the layer. -/
def LayerSets.Direct (sets : LayerSets) : Change Text → Prop
  | .link _ target => symlinkPrefix sets.symlinks target = none
  | _ => True

section Checks

variable {checker after : LayerChecker} {entry : LayerEntry}

theorem check_direct (h : checker.check entry = .ok after) :
    ∀ change, entry.change = some change → checker.sets.Direct (decoded change) := by
  intro change hchange
  cases change with
  | create | remove | clear => trivial
  | link path target =>
    have hentry : entry.entryType = .link ∧ target = rawParts (entry.linkNameBytes.getD []) ∧
        ∃ base, (rawParts entry.pathBytes).getLast? = some base ∧
          ¬ asciiBytes whiteoutMark <+: base := by
      unfold LayerEntry.change at hchange
      dsimp only at hchange
      split at hchange
      · cases hchange
      · rename_i base hbase
        split at hchange
        · split at hchange <;> cases hchange
        · rename_i hmark
          split at hchange
          · cases hchange
          · cases hchange
          · rename_i htype
            have hparts := Option.some.inj hchange
            rw [Change.link.injEq] at hparts
            exact ⟨htype, hparts.2.symm, base, hbase, hmark⟩
          · cases hchange
    obtain ⟨htype, htarget, base, hbase, hmark⟩ := hentry
    simp only [LayerChecker.check] at h
    split at h
    · cases h
    simp only [Checks.bind_eq_ok] at h
    obtain ⟨named, hnamed, h⟩ := h
    obtain ⟨hparts, hroot⟩ := normalizeLayerPath_ok hnamed
    cases named with
    | none =>
      rw [hroot.mp rfl] at hbase
      cases hbase
    | some named =>
      obtain rfl : named = (rawParts entry.pathBytes).map fromUtf8Lossy := hparts
      dsimp only at h
      split at h
      · cases h
      rw [decoded_getLast hbase, if_neg (fun heq => hmark (whiteoutMark_decoded.mp heq))] at h
      simp only [LayerChecker.checkEntry, htype, Checks.bind_eq_ok] at h
      obtain ⟨_, hchecked, _⟩ := h
      rw [htarget]
      exact (checkTarget_ok hchecked).2.2

/-- The sets that some changes are noted in. -/
def noted (changes : List (Change (List UInt8))) : LayerSets :=
  (changes.map decoded).foldl LayerSets.note {}

theorem noted_append (front back : List (Change (List UInt8))) :
    noted (front ++ back) = (back.map decoded).foldl LayerSets.note (noted front) := by
  rw [noted, List.map_append, List.foldl_append]
  rfl

/-- Every entry of an accepted layer was allowed by the sets of the entries before it. -/
theorem checkEntries_allows {reject : String → ScanError} {entries : List (Except ReadFailure LayerEntry)}
    (h : checkEntries reject checker entries = .ok after) :
    ∀ before entry rest, entries.filterMap (·.toOption) = before ++ entry :: rest →
      ∀ change, entry.change = some change →
        let sets := ((layerChanges before).map decoded).foldl LayerSets.note checker.sets
        sets.Allows (decoded change) ∧ sets.Direct (decoded change) := by
  induction entries generalizing checker with
  | nil =>
    intro before entry rest hsplit
    exact absurd hsplit.symm (by simp)
  | cons first others ih =>
    cases first with
    | error failure =>
      simp only [checkEntries] at h
      split at h <;> cases h
    | ok own =>
      simp only [checkEntries] at h
      cases hcheck : checker.check own with
      | error reason =>
        rw [hcheck] at h
        cases h
      | ok next =>
        rw [hcheck] at h
        have hnotes := check_ok hcheck
        intro before entry rest hsplit change hchange
        have hread : (Except.ok own :: others).filterMap (·.toOption) =
            own :: others.filterMap (·.toOption) := rfl
        rw [hread] at hsplit
        cases before with
        | nil =>
          rw [List.nil_append, List.cons.injEq] at hsplit
          rw [← hsplit.1] at hchange
          rw [hchange] at hnotes
          exact ⟨hnotes.2.2, check_direct hcheck change hchange⟩
        | cons head middle =>
          rw [List.cons_append, List.cons.injEq] at hsplit
          have hlater := ih h middle entry rest hsplit.2 change hchange
          rw [← hsplit.1]
          cases hown : own.change with
          | none =>
            rw [hown] at hnotes
            have hskip : layerChanges (own :: middle) = layerChanges middle :=
              List.filterMap_cons_none hown
            rw [hnotes.2] at hlater
            rw [hskip]
            exact hlater
          | some done =>
            rw [hown] at hnotes
            have htake : layerChanges (own :: middle) = done :: layerChanges middle :=
              List.filterMap_cons_some hown
            rw [hnotes.2.1] at hlater
            rw [htake, List.map_cons, List.foldl_cons]
            exact hlater

/-- Whiteouts are not noted. -/
theorem noted_additions (changes : List (Change (List UInt8))) :
    noted (changes.filter (! ·.isRemoval)) = noted changes := by
  induction changes using List.reverseRecOn with
  | nil => rfl
  | append_singleton front last ih =>
    rw [List.filter_append, noted_append, noted_append, ih]
    cases last <;> rfl

end Checks

/-! ## The sets and the tree -/

section Tracking

variable {tree : FileTree (List UInt8)} {change : Change (List UInt8)}
  {changes front : List (Change (List UInt8))} {path target : List (List UInt8)} {kind : Kind}
  {sets : LayerSets}

theorem apply_displaced (h : Displaces change path) : tree.apply change path = none := by
  cases change with
  | create at' kind =>
    have hne : ¬ path = at' := fun heq => h.2.1 heq.symm
    simp [FileTree.apply, FileTree.create, hne, h.1, h.2.2]
  | link at' target =>
    have hne : ¬ path = at' := fun heq => h.2 heq.symm
    simp only [FileTree.apply, FileTree.create, hne, if_false]
    rw [if_pos]
    refine ⟨h.1, ?_⟩
    split <;> decide
  | remove | clear => exact h.elim

theorem apply_absent (h : tree path = none) (hput : putAt change ≠ some path) :
    tree.apply change path = none := by
  have hcreate : ∀ at' kind, at' ≠ path → tree.create at' kind path = none := by
    intro at' kind hne
    unfold FileTree.create
    rw [if_neg (fun heq => hne heq.symm), h]
    split <;> rfl
  cases change with
  | create at' kind => exact hcreate at' kind fun heq => hput (by rw [putAt, heq])
  | link at' target => exact hcreate at' _ fun heq => hput (by rw [putAt, heq])
  | remove | clear =>
    simp only [FileTree.apply, h]
    split <;> rfl

/-- What was taken away is gone. -/
theorem run_displaced (h : Displaced changes path) : tree.run changes path = none := by
  obtain ⟨front, change, back, hsplit, hdisplaces, hback⟩ := h
  have habsent : ∀ back : List (Change (List UInt8)), (∀ later ∈ back, putAt later ≠ some path) →
      ∀ tree : FileTree (List UInt8), tree path = none → tree.run back path = none := by
    intro back hlater
    induction back with
    | nil => exact fun tree hnone => hnone
    | cons first rest ih =>
      intro tree hnone
      rw [FileTree.run_cons]
      refine ih (fun later hmem => hlater later (List.mem_cons_of_mem _ hmem)) _ ?_
      exact apply_absent hnone (hlater first (List.mem_cons_self ..))
  rw [hsplit, FileTree.run_append, FileTree.run_cons]
  exact habsent back hback _ (apply_displaced hdisplaces)

theorem Displaced.snoc (h : Displaced front path) (hput : putAt change ≠ some path) :
    Displaced (front ++ [change]) path := by
  obtain ⟨first, other, back, hsplit, hdisplaces, hback⟩ := h
  refine ⟨first, other, back ++ [change], ?_, hdisplaces, ?_⟩
  · rw [hsplit, List.append_assoc, List.cons_append]
  · intro later hmem
    cases List.mem_append.mp hmem with
    | inl hbefore => exact hback later hbefore
    | inr hlast =>
      rw [List.mem_singleton.mp hlast]
      exact hput

theorem displaced_snoc (h : Displaces change path) : Displaced (front ++ [change]) path :=
  ⟨front, change, [], rfl, h, by simp⟩

/-- The sets tell what stands at a path, unless it was taken away. -/
structure Tracks (changes : List (Change (List UInt8))) (path : List (List UInt8)) : Prop where
  symlink : FileTree.empty.run changes path = some .symlink →
    path.map fromUtf8Lossy ∈ (noted changes).symlinks
  file : path.map fromUtf8Lossy ∈ (noted changes).files →
    path.map fromUtf8Lossy ∉ (noted changes).symlinks →
    FileTree.empty.run changes path = some .file ∨ Displaced changes path

/-- An entry put at a path is tracked, if no other path reads like it. -/
theorem Tracks.put (tracks : Tracks front path) (at' : List (List UInt8))
    (happly : ((FileTree.empty.run front).apply change) = (FileTree.empty.run front).create at' kind)
    (hnote : (noted front).note (decoded change) =
      (noted front).note (.create (at'.map fromUtf8Lossy) kind))
    (hput : putAt change = some at')
    (hdisplaces : at' <+: path → at' ≠ path → kind ≠ .directory → Displaces change path)
    (howned : at'.map fromUtf8Lossy = path.map fromUtf8Lossy → at' = path) :
    Tracks (front ++ [change]) path := by
  have hrun : FileTree.empty.run (front ++ [change]) = (FileTree.empty.run front).create at' kind := by
    rw [FileTree.run_append, FileTree.run_cons, FileTree.run_nil, happly]
  have hnoted : noted (front ++ [change]) =
      (noted front).note (.create (at'.map fromUtf8Lossy) kind) := by
    rw [noted_append, ← hnote]
    rfl
  by_cases hsame : at' = path
  · have htree : FileTree.empty.run (front ++ [change]) path = some kind := by
      rw [hrun, hsame, FileTree.create, if_pos rfl]
    rw [hsame] at hnoted
    constructor
    · intro hlink
      rw [htree, Option.some.injEq] at hlink
      rw [hnoted, hlink]
      exact Finset.mem_insert_self _ _
    · intro hfile hnot
      rw [htree]
      cases kind with
      | file => exact Or.inl rfl
      | symlink =>
        rw [hnoted] at hnot
        exact absurd (Finset.mem_insert_self _ _) hnot
      | directory =>
        rw [hnoted] at hfile
        exact absurd hfile (Finset.notMem_erase _ _)
  · have hother : ¬ path = at' := fun heq => hsame heq.symm
    have hdecoded : path.map fromUtf8Lossy ≠ at'.map fromUtf8Lossy :=
      fun heq => hsame (howned heq.symm)
    have hsets : (path.map fromUtf8Lossy ∈ (noted (front ++ [change])).symlinks ↔
          path.map fromUtf8Lossy ∈ (noted front).symlinks) ∧
        (path.map fromUtf8Lossy ∈ (noted (front ++ [change])).files ↔
          path.map fromUtf8Lossy ∈ (noted front).files) := by
      rw [hnoted]
      cases kind <;> simp [LayerSets.note, hdecoded]
    have hnotPut : putAt change ≠ some path := by
      rw [hput, ne_eq, Option.some.injEq]
      exact hsame
    by_cases htaken : at' <+: path ∧ kind ≠ .directory
    · have hgone : Displaced (front ++ [change]) path :=
        displaced_snoc (hdisplaces htaken.1 hsame htaken.2)
      have htree : FileTree.empty.run (front ++ [change]) path = none := run_displaced hgone
      constructor
      · intro hlink
        rw [htree] at hlink
        cases hlink
      · exact fun _ _ => Or.inr hgone
    · have htree : FileTree.empty.run (front ++ [change]) path = FileTree.empty.run front path := by
        rw [hrun, FileTree.create, if_neg hother, if_neg htaken]
      constructor
      · intro hlink
        rw [htree] at hlink
        exact hsets.1.mpr (tracks.symlink hlink)
      · intro hfile hnot
        rw [htree]
        cases tracks.file (hsets.2.mp hfile) (fun hmem => hnot (hsets.1.mpr hmem)) with
        | inl hthere => exact Or.inl hthere
        | inr hgone => exact Or.inr (hgone.snoc hnotPut)

/-- Every path that no other one reads like is tracked, if the hardlinks among the changes were made
to no symlink. -/
theorem tracks_of_links (hadditions : ∀ change ∈ changes, change.isRemoval = false)
    (hlinks : ∀ front at' target back, changes = front ++ .link at' target :: back →
      Owned front target ∧ target.map fromUtf8Lossy ∉ (noted front).symlinks) :
    ∀ path, Owned changes path → Tracks changes path := by
  induction changes using List.reverseRecOn with
  | nil =>
    intro path howned
    constructor
    · intro hlink
      cases hlink
    · intro hfile
      cases hfile
  | append_singleton front last ih =>
    have hfront : ∀ path, Owned front path → Tracks front path := by
      refine ih (fun change hmem => hadditions change (List.mem_append_left _ hmem)) ?_
      intro first at' target back hsplit
      apply hlinks first at' target (back ++ [last])
      rw [hsplit, List.append_assoc, List.cons_append]
    intro path howned
    have hlast : ∀ other, putAt last = some other →
        other.map fromUtf8Lossy = path.map fromUtf8Lossy → other = path :=
      howned last (List.mem_append_right _ (List.mem_singleton_self _))
    have tracks := hfront path fun change hmem => howned change (List.mem_append_left _ hmem)
    have hremoval := hadditions last (List.mem_append_right _ (List.mem_singleton_self _))
    cases last with
    | remove | clear => cases hremoval
    | create at' kind =>
      exact tracks.put at' rfl rfl rfl (fun hbelow hne hkind => ⟨hbelow, hne, hkind⟩)
        (hlast at' rfl)
    | link at' target =>
      obtain ⟨hown, hnot⟩ := hlinks front at' target [] rfl
      have hkind : FileTree.empty.run front target ≠ some .symlink :=
        fun hlink => hnot ((hfront target hown).symlink hlink)
      have happly : (FileTree.empty.run front).apply (.link at' target) =
          (FileTree.empty.run front).create at' .file := by
        rw [FileTree.apply, if_neg hkind]
      exact tracks.put at' happly rfl rfl (fun hbelow hne _ => ⟨hbelow, hne⟩) (hlast at' rfl)

end Tracking

/-! ## Hardlinks of an accepted layer -/

section Layers

variable {reject : String → ScanError} {stream : List (Except ReadFailure LayerEntry)}
  {checker : LayerChecker} {entries before : List LayerEntry} {target : List (List UInt8)}

theorem additions_eq (entries : List LayerEntry) :
    additions entries = entries.filterMap fun entry => entry.change.filter (! ·.isRemoval) := by
  rw [additions, layerChanges, List.filter_filterMap]

/-- A hardlink among what the entries before another one put is a hardlink of the layer. -/
theorem hardlink_of_additions {rest : List LayerEntry} {front back : List (Change (List UInt8))}
    {at' : List (List UInt8)} (hentries : entries = before ++ rest)
    (hsplit : additions before = front ++ .link at' target :: back) :
    ∃ earlier, Hardlink entries earlier target ∧ additions earlier = front := by
  rw [additions_eq] at hsplit
  obtain ⟨first, others, hbefore, hfirst, hothers⟩ := List.filterMap_eq_append_iff.mp hsplit
  obtain ⟨skipped, entry, later, hlater, hskipped, hentry, -⟩ :=
    List.filterMap_eq_cons_iff.mp hothers
  have hchange := (Option.filter_eq_some_iff.mp hentry).1
  refine ⟨first ++ skipped, ⟨entry, later ++ rest, at', ?_, hchange⟩, ?_⟩
  · rw [hentries, hbefore, hlater]
    simp
  · rw [additions_eq, List.filterMap_append, hfirst, List.filterMap_eq_nil_iff.mpr hskipped,
      List.append_nil]

/-- What the sets say at a hardlink of an accepted layer. -/
theorem hardlink_allowed (h : checkEntries reject {} stream = .ok checker)
    (hlink : Hardlink (stream.filterMap (·.toOption)) before target) :
    target.map fromUtf8Lossy ∈ (noted (additions before)).files ∧
      target.map fromUtf8Lossy ∉ (noted (additions before)).symlinks ∧
      symlinkPrefix (noted (additions before)).symlinks (target.map fromUtf8Lossy) = none := by
  obtain ⟨entry, after, path, hsplit, hchange⟩ := hlink
  obtain ⟨hallows, hdirect⟩ := checkEntries_allows h before entry after hsplit _ hchange
  rw [additions, noted_additions]
  exact ⟨hallows.1, hallows.2, hdirect⟩

/-- In a layer whose names are not confused the hardlinks stay inside exactly when no target was taken
away by an entry put above it. -/
theorem hardlinks_held_iff (h : checkEntries reject {} stream = .ok checker)
    (hnames : Unconfused (stream.filterMap (·.toOption))) :
    HardlinksHeld (stream.filterMap (·.toOption)) ↔
      Undisplaced (stream.filterMap (·.toOption)) := by
  constructor
  · intro hheld before target hlink hdisplaced
    have hfile := (hheld before target hlink).file
    rw [layerTree, run_displaced hdisplaced] at hfile
    cases hfile
  · intro hundisplaced before target hlink
    obtain ⟨hfiles, hnot, hdirect⟩ := hardlink_allowed h hlink
    have htracks : ∀ path, Owned (additions before) path → Tracks (additions before) path := by
      refine tracks_of_links ?_ ?_
      · intro change hmem
        simpa using (List.mem_filter.mp hmem).2
      · intro front at' other back hsplit
        obtain ⟨entry, after, path, hentries, -⟩ := hlink
        obtain ⟨earlier, hearlier, hadditions⟩ := hardlink_of_additions hentries hsplit
        have howned := hnames earlier other hearlier other (List.prefix_refl _)
        have hallowed := hardlink_allowed h hearlier
        rw [hadditions] at howned hallowed
        exact ⟨howned, hallowed.2.1⟩
    constructor
    · have htarget := htracks target (hnames before target hlink target (List.prefix_refl _))
      cases htarget.file hfiles hnot with
      | inl hthere => exact hthere
      | inr hgone => exact absurd hgone (hundisplaced before target hlink)
    · intro ancestor hroot habove hne hsymlink
      have hmem := (htracks ancestor (hnames before target hlink ancestor habove)).symlink hsymlink
      refine symlinkPrefix_eq_none.mp hdirect _ (mem_ancestors.mpr ⟨?_, ?_, ?_⟩) hmem
      · exact habove.map _
      · simpa using hroot
      · intro heq
        have hlength := congrArg List.length heq
        rw [List.length_map, List.length_map] at hlength
        exact hne (habove.eq_of_length hlength)

end Layers

/-- A text in ASCII. -/
def named (text : String) : List UInt8 := asciiBytes text.toList

/-- A file in a directory, the directory once more, and a hardlink to the file. -/
def linkedLayer : List LayerEntry :=
  [⟨named "d/x", .regular, none⟩, ⟨named "d", .directory, none⟩,
    ⟨named "l", .link, some (named "d/x")⟩]

/-- A file in a directory, a file in the place of the directory, and a hardlink to the first. -/
def replacedLayer : List LayerEntry :=
  [⟨named "d/x", .regular, none⟩, ⟨named "d", .regular, none⟩,
    ⟨named "l", .link, some (named "d/x")⟩]

/-- What the checker makes of a layer. -/
def checkedLayer (entries : List LayerEntry) : Except ScanError LayerChecker :=
  checkEntries .imageArchiveRejected {} (entries.map .ok)

theorem read_map_ok (entries : List LayerEntry) :
    (entries.map (Except.ok : LayerEntry → Except ReadFailure LayerEntry)).filterMap (·.toOption) =
      entries := by
  rw [List.filterMap_map]
  exact List.filterMap_some

theorem linkedLayer_hardlink {before : List LayerEntry} {target : List (List UInt8)}
    (h : Hardlink linkedLayer before target) :
    additions before = [.create [named "d", named "x"] .file, .create [named "d"] .directory] ∧
      target = [named "d", named "x"] := by
  obtain ⟨entry, after, path, hsplit, hchange⟩ := h
  have hlink : (⟨named "l", .link, some (named "d/x")⟩ : LayerEntry).change =
      some (.link [named "l"] [named "d", named "x"]) := by
    decide +kernel
  rcases before with _ | ⟨first, _ | ⟨second, _ | ⟨third, rest⟩⟩⟩ <;>
    simp only [linkedLayer, List.nil_append, List.cons_append, List.cons.injEq] at hsplit
  · obtain ⟨rfl, -⟩ := hsplit
    cases hchange
  · obtain ⟨-, rfl, -⟩ := hsplit
    cases hchange
  · obtain ⟨rfl, rfl, rfl, -⟩ := hsplit
    rw [hlink, Option.some.injEq, Change.link.injEq] at hchange
    exact ⟨by decide +kernel, hchange.2.symm⟩
  · simp at hsplit

theorem hardlinks_held_linkedLayer : HardlinksHeld linkedLayer := by
  have hsome : (checkedLayer linkedLayer).toOption.isSome = true := by decide +kernel
  have hread := read_map_ok linkedLayer
  rw [← hread]
  refine (hardlinks_held_iff (Checks.toOption_get hsome) ?_).mpr ?_
  · rw [hread]
    intro before target hlink ancestor habove change hmem other hput hreads
    obtain ⟨hadditions, htarget⟩ := linkedLayer_hardlink hlink
    rw [htarget] at habove
    have hlength := congrArg List.length hreads
    rw [List.length_map, List.length_map] at hlength
    have hother : other <+: [named "d", named "x"] := by
      rw [hadditions] at hmem
      cases List.mem_cons.mp hmem with
      | inl heq =>
        rw [heq, putAt, Option.some.injEq] at hput
        rw [hput]
      | inr hrest =>
        rw [List.mem_singleton.mp hrest, putAt, Option.some.injEq] at hput
        rw [← hput]
        exact ⟨[named "x"], rfl⟩
    exact (List.prefix_of_prefix_length_le hother habove (Nat.le_of_eq hlength)).eq_of_length hlength
  · rw [hread]
    intro before target hlink hdisplaced
    obtain ⟨hadditions, htarget⟩ := linkedLayer_hardlink hlink
    obtain ⟨front, change, back, hsplit, hdisplaces, -⟩ := hdisplaced
    rw [hadditions] at hsplit
    have hmem : change ∈ [(.create [named "d", named "x"] .file : Change (List UInt8)),
        .create [named "d"] .directory] := by
      rw [hsplit]
      exact List.mem_append_right _ (List.mem_cons_self ..)
    cases List.mem_cons.mp hmem with
    | inl heq =>
      rw [heq, htarget] at hdisplaces
      exact hdisplaces.2.1 rfl
    | inr hrest =>
      rw [List.mem_singleton.mp hrest] at hdisplaces
      exact hdisplaces.2.2 rfl

/-- The file that takes the place of a directory takes the target of an accepted hardlink away. -/
theorem target_taken_away :
    ∃ checker, checkEntries .imageArchiveRejected {} (replacedLayer.map .ok) = .ok checker ∧
      ¬ HardlinksHeld replacedLayer := by
  have hsome : (checkedLayer replacedLayer).toOption.isSome = true := by decide +kernel
  refine ⟨_, Checks.toOption_get hsome, ?_⟩
  intro hheld
  have hlink : Hardlink replacedLayer (replacedLayer.take 2) [named "d", named "x"] :=
    ⟨⟨named "l", .link, some (named "d/x")⟩, [], [named "l"], rfl, by decide +kernel⟩
  have hnone : layerTree (replacedLayer.take 2) [named "d", named "x"] = none := by decide +kernel
  have hfile := (hheld _ _ hlink).file
  rw [hnone] at hfile
  cases hfile

end Awman.Oci
