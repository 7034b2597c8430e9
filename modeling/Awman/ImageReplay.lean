import Awman.LayerSymlinks

/-!
# The replay of an accepted image

The layers of an accepted image, replayed bottom first onto an empty root, each with its removals
made first or at their place.
-/

namespace Awman.Oci

open Awman.Utf8Text Awman.FileTrees

/-- The layers of an image, each with the order in which its removals are made. -/
abbrev OrderedLayers := List (RemovalOrder × List LayerEntry)

/-- What the layers do one after another. -/
def imageChanges (layers : OrderedLayers) : List (Change (List UInt8)) :=
  layers.flatMap fun layer => layer.1.arrange (layerChanges layer.2)

/-- Every layer has the property on what the layers below it have left. -/
def EveryLayer (property : FileTree (List UInt8) → RemovalOrder → List (Change (List UInt8)) → Prop) :
    FileTree (List UInt8) → OrderedLayers → Prop
  | _, [] => True
  | tree, layer :: upper =>
    property tree layer.1 (layerChanges layer.2) ∧
      EveryLayer property (tree.run (layer.1.arrange (layerChanges layer.2))) upper

/-- In every layer the change that replaces a symlink of the lower layers comes before any change
below the symlink. -/
abbrev LayersInTime (tree : FileTree (List UInt8)) (layers : OrderedLayers) : Prop :=
  EveryLayer (fun tree order changes => InTime tree (order.arrange changes)) tree layers

/-- In no layer is a change confused with another. -/
abbrev LayersApart (tree : FileTree (List UInt8)) (layers : OrderedLayers) : Prop :=
  EveryLayer LayerApart tree layers

/-- The name of an entry of the outer archive. -/
def outerName (entry : Except String ArchiveEntry) : Option Text :=
  match entry with
  | .error _ => none
  | .ok entry =>
    match normalizeOuterName entry.pathBytes with
    | .ok name => name
    | .error _ => none

/-- The layer that the entry of that name holds. -/
def archiveLayer (archive : List (Except String ArchiveEntry)) (name : Text) : List LayerEntry :=
  match archive.find? fun entry => decide (outerName entry = some name) with
  | some (.ok entry) => entry.layer.read
  | _ => []

/-- The layers of the selected image, bottom first. -/
def imageLayers (archive : List (Except String ArchiveEntry)) (selected : Selected) :
    List (List LayerEntry) :=
  match scanOuter archive with
  | .error _ => []
  | .ok outer => selected.layers.map fun layer =>
    match outer.resolveFile layer with
    | none => []
    | some real => archiveLayer archive real

section Image

variable {archive : List (Except String ArchiveEntry)} {outer before after : OuterScan}
  {selected : Selected} {name : Text}

/-- A scanned archive names each entry once, and its entries are the names. -/
theorem scanOuterEntries_ok (h : scanOuterEntries before archive = .ok after) :
    (archive.filterMap outerName).Nodup ∧
      (∀ name ∈ archive.filterMap outerName, name ∉ before.entries) ∧
      ∀ name, name ∈ after.entries ↔ name ∈ before.entries ∨ name ∈ archive.filterMap outerName := by
  induction archive generalizing before with
  | nil =>
    cases h
    simp
  | cons first rest ih =>
    cases first with
    | error failure => cases h
    | ok entry =>
      simp only [scanOuterEntries] at h
      split at h
      · cases h
      · simp only [Checks.bind_eq_ok, Checks.mapError_eq_ok] at h
        obtain ⟨name, hname, h⟩ := h
        have houter : outerName (.ok entry) = name := by simp [outerName, hname]
        cases name with
        | none =>
          rw [List.filterMap_cons_none houter]
          exact ih h
        | some name =>
          dsimp only at h
          split at h
          · cases h
          · rename_i hfresh
            simp only [Checks.bind_eq_ok] at h
            obtain ⟨kind, _, h⟩ := h
            obtain ⟨hnodup, hapart, hkeys⟩ := ih h
            rw [List.filterMap_cons_some houter]
            refine ⟨List.nodup_cons.mpr ⟨?_, hnodup⟩, ?_, ?_⟩
            · intro hmem
              exact hapart name hmem ((AList.mem_insert _).mpr (Or.inl rfl))
            · intro other hother
              rcases List.mem_cons.mp hother with rfl | hother
              · exact hfresh
              · exact fun hold => hapart other hother ((AList.mem_insert _).mpr (Or.inr hold))
            · intro other
              rw [hkeys other, List.mem_cons]
              simp only [AList.mem_insert]
              tauto

theorem scanOuter_ok (h : scanOuter archive = .ok outer) : scanOuterEntries {} archive = .ok outer := by
  simp only [scanOuter, Checks.bind_eq_ok] at h
  obtain ⟨found, hfound, h⟩ := h
  split at h
  · cases h
  · cases h
    exact hfound

/-- The entry that a name resolves to is in the archive. -/
theorem resolveFile_mem {real : Text} (h : scanOuter archive = .ok outer)
    (hreal : outer.resolveFile name = some real) : real ∈ archive.filterMap outerName := by
  have hlookup : outer.entries.lookup real = some .file := by
    unfold OuterScan.resolveFile at hreal
    split at hreal
    · rename_i hfile
      cases hreal
      exact hfile
    · rename_i target _
      split at hreal
      · rename_i htarget
        cases hreal
        exact htarget
      · cases hreal
    · cases hreal
  have hmem : real ∈ outer.entries := by
    rw [← AList.lookup_isSome, hlookup]
    rfl
  have hkeys := (scanOuterEntries_ok (scanOuter_ok h)).2.2 real
  rcases hkeys.mp hmem with hnone | hsome
  · exact absurd hnone (AList.notMem_empty real)
  · exact hsome

section

variable {path : String} {wanted : AList (fun _ : Text => Finset String)} {pass found : LayerPass}

theorem scanArchive_cons {first : Except String ArchiveEntry} {rest : List (Except String ArchiveEntry)}
    (h : scanArchive path wanted pass (first :: rest) = .ok found) :
    ∃ entry, first = .ok entry ∧
      ((∀ name, outerName first = some name → wanted.lookup name = none) ∧
          scanArchive path wanted pass rest = .ok found ∨
        ∃ name sha ops, outerName first = some name ∧
          scanLayer name entry.layer = .ok (sha, ops) ∧
          scanArchive path wanted ⟨pass.seen + 1, pass.summaries.insert name ops⟩ rest =
            .ok found) := by
  cases first with
  | error failure => cases h
  | ok entry =>
    refine ⟨entry, rfl, ?_⟩
    simp only [scanArchive] at h
    split at h
    · rename_i name hname
      have houter : outerName (.ok entry) = some name := by simp [outerName, hname]
      cases hwanted : wanted.lookup name with
      | none =>
        rw [hwanted] at h
        refine Or.inl ⟨?_, h⟩
        intro other hother
        rw [houter] at hother
        cases hother
        exact hwanted
      | some diffIds =>
        rw [hwanted] at h
        simp only [Checks.bind_eq_ok] at h
        obtain ⟨⟨sha, ops⟩, hscanned, h⟩ := h
        split at h
        · cases h
        · exact Or.inr ⟨name, sha, ops, houter, hscanned, h⟩
    · rename_i hnone
      refine Or.inl ⟨?_, h⟩
      intro name hname
      simp only [outerName] at hname
      split at hname
      · rename_i found hfound
        exact absurd (hname ▸ hfound) (hnone name)
      · cases hname

theorem scanArchive_other (h : scanArchive path wanted pass archive = .ok found)
    (hname : name ∉ archive.filterMap outerName) :
    found.summaries.lookup name = pass.summaries.lookup name := by
  induction archive generalizing pass with
  | nil =>
    cases h
    rfl
  | cons first rest ih =>
    have hrest : name ∉ rest.filterMap outerName := fun hmem =>
      hname (List.mem_filterMap.mpr
        ((List.mem_filterMap.mp hmem).imp fun _ hentry => ⟨List.mem_cons_of_mem _ hentry.1,
          hentry.2⟩))
    obtain ⟨entry, rfl, ⟨_, hskip⟩ | ⟨other, sha, ops, hother, _, htake⟩⟩ := scanArchive_cons h
    · exact ih hskip hrest
    · have hne : name ≠ other := by
        rintro rfl
        exact hname (List.mem_filterMap.mpr ⟨_, List.mem_cons_self, hother⟩)
      rw [ih htake hrest, AList.lookup_insert_ne hne]

/-- The operations that are kept for a wanted entry are those of the layer it holds. -/
theorem scanArchive_ok {entry : ArchiveEntry} (h : scanArchive path wanted pass archive = .ok found)
    (hnodup : (archive.filterMap outerName).Nodup) (hentry : .ok entry ∈ archive)
    (hname : outerName (.ok entry) = some name) (hwanted : (wanted.lookup name).isSome) :
    ∃ sha ops, scanLayer name entry.layer = .ok (sha, ops) ∧
      found.summaries.lookup name = some ops := by
  induction archive generalizing pass with
  | nil => cases hentry
  | cons first rest ih =>
    obtain ⟨head, rfl, ⟨hunwanted, hskip⟩ | ⟨other, sha, ops, hother, hscanned, htake⟩⟩ :=
      scanArchive_cons h
    · have hne : entry ≠ head := by
        rintro rfl
        rw [hunwanted name hname] at hwanted
        cases hwanted
      have hrest : .ok entry ∈ rest := by
        rcases List.mem_cons.mp hentry with heq | hrest
        · exact absurd (Except.ok.inj heq) hne
        · exact hrest
      refine ih hskip ?_ hrest
      cases houter : outerName (.ok head) with
      | none => rwa [List.filterMap_cons_none houter] at hnodup
      | some found =>
        rw [List.filterMap_cons_some houter] at hnodup
        exact (List.nodup_cons.mp hnodup).2
    · rw [List.filterMap_cons_some hother, List.nodup_cons] at hnodup
      obtain ⟨hfresh, hnodup⟩ := hnodup
      rcases List.mem_cons.mp hentry with heq | hrest
      · cases heq
        rw [hname] at hother
        cases hother
        refine ⟨sha, ops, hscanned, ?_⟩
        rw [scanArchive_other htake hfresh, AList.lookup_insert]
      · exact ih htake hnodup hrest

end

theorem wantedLayers_foldlM {pairs : List (Text × String)}
    {start wanted : AList (fun _ : Text => Finset String)}
    (h : pairs.foldlM (fun wanted layer =>
      match outer.resolveFile layer.1 with
      | none => .error (.panicked "layers were resolved during selection")
      | some real =>
        .ok (wanted.insert real (insert layer.2 ((wanted.lookup real).getD ∅)))) start =
        (.ok wanted : Except ScanError _)) :
    (∀ name ∈ start, name ∈ wanted) ∧
      ∀ pair ∈ pairs, ∃ real, outer.resolveFile pair.1 = some real ∧ real ∈ wanted := by
  induction pairs generalizing start with
  | nil =>
    cases h
    exact ⟨fun _ hname => hname, fun _ hpair => (nomatch hpair)⟩
  | cons pair rest ih =>
    rw [List.foldlM_cons] at h
    obtain ⟨next, hstep, hrest⟩ := Checks.bind_eq_ok.mp h
    obtain ⟨hkept, hpairs⟩ := ih hrest
    cases hreal : outer.resolveFile pair.1 with
    | none =>
      rw [hreal] at hstep
      cases hstep
    | some real =>
      rw [hreal] at hstep
      cases hstep
      constructor
      · exact fun name hname => hkept name ((AList.mem_insert _).mpr (Or.inr hname))
      · intro other hother
        rcases List.mem_cons.mp hother with rfl | hother
        · exact ⟨real, hreal, hkept real ((AList.mem_insert _).mpr (Or.inl rfl))⟩
        · exact hpairs other hother

/-- Every layer of the selected image is wanted. -/
theorem wantedLayers_ok {wanted : AList (fun _ : Text => Finset String)}
    (h : wantedLayers outer selected = .ok wanted)
    (hlength : selected.layers.length = selected.diffIds.length) :
    ∀ layer ∈ selected.layers, ∃ real, outer.resolveFile layer = some real ∧
      (wanted.lookup real).isSome := by
  intro layer hlayer
  have hfirst : (selected.layers.zip selected.diffIds).map Prod.fst = selected.layers :=
    List.map_fst_zip hlength.le
  rw [← hfirst] at hlayer
  obtain ⟨pair, hpair, rfl⟩ := List.mem_map.mp hlayer
  obtain ⟨real, hreal, hmem⟩ := (wantedLayers_foldlM h).2 pair hpair
  exact ⟨real, hreal, AList.lookup_isSome.mpr hmem⟩

theorem archiveLayer_eq (hname : name ∈ archive.filterMap outerName) :
    ∃ entry, .ok entry ∈ archive ∧ outerName (.ok entry) = some name ∧
      archiveLayer archive name = entry.layer.read := by
  obtain ⟨first, hfirst, hnamed⟩ := List.mem_filterMap.mp hname
  cases hfound : archive.find? fun entry => decide (outerName entry = some name) with
  | none =>
    have hnone := List.find?_eq_none.mp hfound first hfirst
    exact absurd (decide_eq_true hnamed) hnone
  | some found =>
    have hmem := List.mem_of_find?_eq_some hfound
    have hfoundName : outerName found = some name := by
      have hholds := List.find?_some hfound
      simpa using hholds
    cases found with
    | error failure => cases hfoundName
    | ok entry =>
      refine ⟨entry, hmem, hfoundName, ?_⟩
      rw [archiveLayer, hfound]

/-- The layer that the entry named by a selected layer holds. -/
def resolvedLayer (archive : List (Except String ArchiveEntry)) (outer : OuterScan)
    (layer : Text) : List LayerEntry :=
  match outer.resolveFile layer with
  | none => []
  | some real => archiveLayer archive real

/-- The layers of an image that was replayed, none of whose changes is confused with another. -/
theorem replayLayers_ok {summaries : AList (fun _ : Text => List PathOp)}
    {graph last : SymlinkGraph} {names : List Text} {layers : OrderedLayers}
    {tree : FileTree (List UInt8)} (hrecorded : Recorded tree graph.symlinks)
    (hlayers : layers.map Prod.snd = names.map (resolvedLayer archive outer))
    (hops : ∀ layer ∈ names, ∃ real, outer.resolveFile layer = some real ∧
      let changes := (layerChanges (archiveLayer archive real)).map decoded
      summaries.lookup real = some (changes.map .ofChange) ∧
        (⟨∅, ∅⟩ : LayerSets).AllowsAll changes)
    (h : replayLayers outer summaries graph names = .ok last) (hapart : LayersApart tree layers) :
    NeverThrough tree (imageChanges layers) ↔ LayersInTime tree layers := by
  induction names generalizing layers tree graph with
  | nil =>
    obtain rfl : layers = [] := by simpa using hlayers
    refine iff_of_true ?_ trivial
    intro before change later hsplit
    simp [imageChanges] at hsplit
  | cons layer rest ih =>
    cases layers with
    | nil => cases hlayers
    | cons first upper =>
      obtain ⟨hfirst, hupper⟩ := List.cons.inj hlayers
      obtain ⟨real, hreal, hsummary, hallows⟩ := hops layer List.mem_cons_self
      have hread : first.2 = archiveLayer archive real := by
        rw [hfirst, resolvedLayer, hreal]
      rw [← hread] at hsummary hallows
      simp only [replayLayers, hreal, hsummary, Option.getD_some] at h
      cases happly : graph.apply
          (((layerChanges first.2).map decoded).map PathOp.ofChange) with
      | error reason =>
        rw [happly] at h
        cases h
      | ok next =>
        rw [happly] at h
        obtain ⟨hthis, hrest⟩ := hapart
        obtain ⟨hnext, hiff⟩ := layer_replayed hrecorded hallows happly hthis
        have hlater := ih hnext hupper
          (fun other hother => hops other (List.mem_cons_of_mem _ hother)) h hrest
        have hsplit : imageChanges (first :: upper) =
            first.1.arrange (layerChanges first.2) ++ imageChanges upper := by
          simp [imageChanges]
        rw [hsplit, neverThrough_append, hiff, hlater]
        rfl

/-- An image that is accepted, replayed layer by layer onto an empty root, its removals first or at
their place in each layer.  If no change is confused with another for its name, then nothing is
made, replaced or removed below a symlink exactly when the change of a layer that replaces a
symlink of the lower layers comes before any change below it. -/
theorem validate_neverThrough {path : String} {limits : AcquireLimits}
    {select : OuterScan → Except ScanError Selected} {layers : OrderedLayers}
    (h : validate path limits select archive = .ok selected)
    (hlayers : layers.map Prod.snd = imageLayers archive selected) (hapart : LayersApart .empty layers) :
    NeverThrough .empty (imageChanges layers) ↔ LayersInTime .empty layers := by
  simp only [validate, Checks.bind_eq_ok] at h
  obtain ⟨outer, houter, chosen, hselected, h⟩ := h
  split at h
  · cases h
  split at h
  · cases h
  rename_i hlength
  simp only [Checks.bind_eq_ok] at h
  obtain ⟨_, hscan, heq⟩ := h
  obtain rfl := Except.ok.inj heq
  simp only [scanLayers, Checks.bind_eq_ok] at hscan
  obtain ⟨wanted, hwanted, pass, hpass, hscan⟩ := hscan
  split at hscan
  · cases hscan
  simp only [Checks.bind_eq_ok] at hscan
  obtain ⟨last, hreplay, _⟩ := hscan
  have hnodup := (scanOuterEntries_ok (scanOuter_ok houter)).1
  have hresolved : imageLayers archive chosen =
      chosen.layers.map (resolvedLayer archive outer) := by
    simp only [imageLayers, houter]
    rfl
  rw [hresolved] at hlayers
  refine replayLayers_ok ?_ hlayers ?_ hreplay hapart
  · exact fun _ _ hlink => by cases hlink
  · intro layer hlayer
    obtain ⟨real, hreal, hisWanted⟩ := wantedLayers_ok hwanted (not_not.mp hlength) layer hlayer
    obtain ⟨entry, hentry, hname, hlayerEq⟩ := archiveLayer_eq (resolveFile_mem houter hreal)
    obtain ⟨sha, ops, hscanned, hlookup⟩ :=
      scanArchive_ok hpass hnodup hentry hname hisWanted
    obtain ⟨hops, hallows⟩ := scanLayer_ok hscanned
    refine ⟨real, hreal, ?_⟩
    rw [hlayerEq, hlookup, hops]
    exact ⟨rfl, hallows⟩

end Image

section Examples

/-- The bytes of an ASCII name. -/
def ascii (name : String) : List UInt8 :=
  asciiBytes name.toList

/-- A layer of an archive. -/
def layerFile (name : String) (entries : List LayerEntry) : Except String ArchiveEntry :=
  .ok { pathBytes := ascii name, entryType := .regular,
        layer := { entries := entries.map .ok, finished := .ok name } }

/-- Select the named layers; the name of each stands for its digest. -/
def selectLayers (names : List String) : Selected where
  layers := names.map String.toList
  diffIds := names

/-- A layer that makes a symlink. -/
def linkLayer : List LayerEntry :=
  [{ pathBytes := ascii "a", entryType := .symlink, linkNameBytes := some (ascii "/etc") }]

/-- A layer that removes the symlink and then writes a file in a directory of its name. -/
def replacingLayer : List LayerEntry :=
  [{ pathBytes := ascii ".wh.a", entryType := .regular },
    { pathBytes := ascii "a/passwd", entryType := .regular }]

theorem linkLayer_symlinks {path : List (List UInt8)}
    (h : (FileTree.empty.run (layerChanges linkLayer)) path = some .symlink) : path = [[0x61]] := by
  have hchanges : layerChanges linkLayer = [.create [[0x61]] .symlink] := by decide +kernel
  rw [hchanges, FileTree.run_cons, FileTree.run_nil] at h
  rcases apply_eq_symlink h with ⟨hempty, _⟩ | hput | ⟨target, hlink, _⟩
  · cases hempty
  · cases hput
    rfl
  · cases hlink

theorem replacing_layers :
    layerChanges linkLayer = [.create [[0x61]] .symlink] ∧
      layerChanges replacingLayer =
        [.remove [[0x61]], .create [[0x61], ascii "passwd"] .file] := by
  decide +kernel

theorem removed_symlinks {path : List (List UInt8)} :
    (FileTree.empty.run (layerChanges linkLayer)).run [.remove [[0x61]]] path ≠ some .symlink := by
  intro hlink
  obtain ⟨hbefore, hkept⟩ := run_removals (by simp [Change.isRemoval]) hlink
  obtain rfl := linkLayer_symlinks hbefore
  exact hkept _ List.mem_cons_self (List.prefix_refl _)

theorem replaced_apart :
    LayersApart .empty [(.inPlace, linkLayer), (.inPlace, replacingLayer)] := by
  obtain ⟨hlink, hreplacing⟩ := replacing_layers
  refine ⟨⟨?_, ?_⟩, ⟨?_, ?_⟩, trivial⟩
  · intro change hchange hkind
    rw [hlink, List.mem_singleton] at hchange
    rw [hchange] at hkind
    cases hkind
  · intro before change later hsplit _ path hnone
    have hchange : change = .create [[0x61]] .symlink := by
      have hmem : change ∈ layerChanges linkLayer := by
        rw [show layerChanges linkLayer = _ from hsplit]
        exact List.mem_append_right before List.mem_cons_self
      rwa [hlink, List.mem_singleton] at hmem
    rw [hchange]
    exact fun hends => hends.elim
  · intro change hchange hkind path hpath _
    obtain rfl := linkLayer_symlinks hpath
    rw [hreplacing] at hchange
    rcases List.mem_cons.mp hchange with rfl | hcreate
    · exact List.prefix_refl _
    · rw [List.mem_singleton.mp hcreate] at hkind
      cases hkind
  · intro before change later hsplit hkind path hpath
    rw [show RemovalOrder.inPlace.arrange (layerChanges replacingLayer) = _ from hreplacing] at hsplit
    rcases before with _ | ⟨first, _ | ⟨second, before⟩⟩ <;> simp at hsplit
    · obtain ⟨rfl, -⟩ := hsplit
      cases hkind
    · obtain ⟨rfl, -⟩ := hsplit
      exact absurd hpath removed_symlinks

theorem replaced_inTime :
    LayersInTime .empty [(.inPlace, linkLayer), (.inPlace, replacingLayer)] := by
  obtain ⟨_, hreplacing⟩ := replacing_layers
  refine ⟨?_, ?_, trivial⟩
  · intro before change later path _ _ hnone
    cases hnone
  · intro before change later path hsplit _ hpath hbelow _
    obtain rfl := linkLayer_symlinks hpath
    rw [show RemovalOrder.inPlace.arrange (layerChanges replacingLayer) = _ from hreplacing] at hsplit
    cases before with
    | nil =>
      obtain ⟨rfl, -⟩ := List.cons.inj hsplit
      exact absurd rfl hbelow.2
    | cons first before =>
      obtain ⟨rfl, -⟩ := List.cons.inj hsplit
      exact ⟨_, List.mem_cons_self, List.prefix_refl _⟩

theorem validate_neverThrough_replaced :
    NeverThrough .empty (imageChanges [(.inPlace, linkLayer), (.inPlace, replacingLayer)]) := by
  have hvalid : (validate "image.tar" ⟨8⟩ (fun _ => .ok (selectLayers ["1.tar", "2.tar"]))
      [layerFile "1.tar" linkLayer, layerFile "2.tar" replacingLayer]).toOption =
        some (selectLayers ["1.tar", "2.tar"]) := by
    decide +kernel
  have hlayers :
      [(RemovalOrder.inPlace, linkLayer), (RemovalOrder.inPlace, replacingLayer)].map Prod.snd =
        imageLayers [layerFile "1.tar" linkLayer, layerFile "2.tar" replacingLayer]
          (selectLayers ["1.tar", "2.tar"]) := by
    decide +kernel
  exact (validate_neverThrough (Checks.ok_of_toOption hvalid) hlayers replaced_apart).mpr
    replaced_inTime

/-- A symlink, a file whose name decodes to the same text, and a file below the symlink. -/
def lossyLayer : List LayerEntry :=
  [{ pathBytes := [0x80], entryType := .symlink, linkNameBytes := some (ascii "/etc") },
    { pathBytes := [0x81], entryType := .regular },
    { pathBytes := 0x80 :: ascii "/passwd", entryType := .regular }]

/-- A layer that writes below the symlink of the layer beneath it and then removes it. -/
def lateLayer : List LayerEntry :=
  [{ pathBytes := ascii "a/passwd", entryType := .regular },
    { pathBytes := ascii ".wh.a", entryType := .regular }]

/-- Two accepted images that write through a symlink: one whichever way its removals are made, one
if they are made at their place. -/
theorem validate_writes_through :
    (validate "image.tar" ⟨8⟩ (fun _ => .ok (selectLayers ["1.tar"]))
        [layerFile "1.tar" lossyLayer]).toOption = some (selectLayers ["1.tar"]) ∧
      imageLayers [layerFile "1.tar" lossyLayer] (selectLayers ["1.tar"]) = [lossyLayer] ∧
      (∀ order, ¬ NeverThrough .empty (imageChanges [(order, lossyLayer)])) ∧
      (validate "image.tar" ⟨8⟩ (fun _ => .ok (selectLayers ["1.tar", "2.tar"]))
        [layerFile "1.tar" linkLayer, layerFile "2.tar" lateLayer]).toOption =
          some (selectLayers ["1.tar", "2.tar"]) ∧
      imageLayers [layerFile "1.tar" linkLayer, layerFile "2.tar" lateLayer]
        (selectLayers ["1.tar", "2.tar"]) = [linkLayer, lateLayer] ∧
      ¬ NeverThrough .empty (imageChanges [(.inPlace, linkLayer), (.inPlace, lateLayer)]) := by
  refine ⟨?_, ?_, ?_, ?_, ?_, ?_⟩
  · decide +kernel
  · decide +kernel
  · intro order hnever
    have hchanges : imageChanges [(order, lossyLayer)] =
        [.create [[0x80]] .symlink, .create [[0x81]] .file] ++
          .create [[0x80], ascii "passwd"] .file :: [] := by
      cases order <;> decide +kernel
    refine hnever _ _ _ hchanges ⟨[[0x80]], by decide, rfl, ?_, by decide⟩
    exact ⟨[ascii "passwd"], rfl⟩
  · decide +kernel
  · decide +kernel
  · intro hnever
    have hchanges : imageChanges [(.inPlace, linkLayer), (.inPlace, lateLayer)] =
        [.create [[0x61]] .symlink] ++
          .create [[0x61], ascii "passwd"] .file :: [.remove [[0x61]]] := by
      decide +kernel
    refine hnever _ _ _ hchanges ⟨[[0x61]], by decide, rfl, ?_, by decide⟩
    exact ⟨[ascii "passwd"], rfl⟩

end Examples

end Awman.Oci
