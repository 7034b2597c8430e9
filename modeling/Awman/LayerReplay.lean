import Awman.ImageLayers
import Awman.Library.Checks

/-!
# Layers replayed by their raw names

What an entry of a layer does to a root file system, where names are bytes, and how far the checks,
which see decoded names, keep the replay of an accepted image from going through a symlink.
-/

namespace Awman.Oci

open Awman.Utf8Text Awman.FileTrees

/-- The components of a raw name, without the empty ones and the single dots. -/
def rawParts (raw : List UInt8) : List (List UInt8) :=
  (raw.splitOn 0x2F).filter fun part => part ≠ [] ∧ part ≠ [0x2E]

/-- What an entry does to the root file system; an entry for the root does nothing. -/
def LayerEntry.change (entry : LayerEntry) : Option (Change (List UInt8)) :=
  let path := rawParts entry.pathBytes
  match path.getLast? with
  | none => none
  | some base =>
    if asciiBytes whiteoutMark <+: base then
      let rest := base.drop whiteoutMark.length
      if rest = asciiBytes opaqueMark then some (.clear path.dropLast)
      else some (.remove (path.dropLast ++ [rest]))
    else match entry.entryType with
      | .directory => some (.create path .directory)
      | .symlink => some (.create path .symlink)
      | .link => some (.link path (rawParts (entry.linkNameBytes.getD [])))
      | _ => some (.create path .file)

/-- What an entry does in the decoded names. -/
abbrev decoded (change : Change (List UInt8)) : Change Text :=
  change.map fromUtf8Lossy

/-- The operation that is noted for a change. -/
def PathOp.ofChange : Change Text → PathOp
  | .create path .symlink => .symlink path
  | .create path _ => .plain path
  | .link path _ => .plain path
  | .remove path => .whiteout path
  | .clear dir => .opaqueDir dir

section Names

variable {raw : List UInt8}

theorem parts_fromUtf8Lossy (raw : List UInt8) :
    parts (fromUtf8Lossy raw) = (rawParts raw).map fromUtf8Lossy := by
  have hslash : (0x2F : UInt8) < 0x80 := by decide
  have hsplit : (fromUtf8Lossy raw).splitOn '/' = (raw.splitOn 0x2F).map fromUtf8Lossy :=
    splitOn_fromUtf8Lossy hslash raw
  have hdot : ∀ part, fromUtf8Lossy part = ['.'] ↔ part = [0x2E] := fun part =>
    fromUtf8Lossy_eq_ascii (by decide)
  unfold parts rawParts
  rw [hsplit, List.filter_map]
  congr 1
  refine List.filter_congr fun part _ => ?_
  simp only [Function.comp, ne_eq, fromUtf8Lossy_eq_nil, hdot]

/-- An accepted name is decoded component by component. -/
theorem normalizeLayerPath_ok {path : Option LayerPath} (h : normalizeLayerPath raw = .ok path) :
    path.getD [] = (rawParts raw).map fromUtf8Lossy ∧ (path = none ↔ rawParts raw = []) := by
  simp only [normalizeLayerPath, parts_fromUtf8Lossy] at h
  split at h
  · cases h
  split at h
  · cases h
  split at h
  · cases h
  split at h
  · rename_i hempty
    cases h
    exact ⟨hempty.symm, by simpa using hempty⟩
  · rename_i hnonempty
    cases h
    exact ⟨rfl, by simpa using hnonempty⟩

end Names

/-- The symlinks of a layer and its entries that can be the target of a hardlink. -/
structure LayerSets where
  symlinks : Finset LayerPath := ∅
  /-- The entries that can be a target. -/
  files : Finset LayerPath := ∅

/-- How a change is noted in the sets. -/
def LayerSets.note (sets : LayerSets) : Change Text → LayerSets
  | .create path .directory => ⟨sets.symlinks.erase path, sets.files.erase path⟩
  | .create path .file => ⟨sets.symlinks.erase path, insert path sets.files⟩
  | .create path .symlink => ⟨insert path sets.symlinks, insert path sets.files⟩
  | .link path _ => ⟨sets.symlinks.erase path, insert path sets.files⟩
  | _ => sets

/-- A hardlink is made to a file of the layer only. -/
def LayerSets.Allows (sets : LayerSets) : Change Text → Prop
  | .link _ target => target ∈ sets.files ∧ target ∉ sets.symlinks
  | _ => True

/-- All hardlinks of some changes are. -/
def LayerSets.AllowsAll (sets : LayerSets) : List (Change Text) → Prop
  | [] => True
  | change :: rest => sets.Allows change ∧ (sets.note change).AllowsAll rest

/-- What the checker holds about a layer. -/
def LayerChecker.sets (checker : LayerChecker) : LayerSets :=
  ⟨checker.symlinks, checker.files⟩

section Checks

variable {checker after : LayerChecker} {entry : LayerEntry}

theorem checkTarget_ok {path : LayerPath} {linkNameBytes : Option (List UInt8)}
    (h : checker.checkTarget path linkNameBytes = .ok ()) :
    let target := (rawParts (linkNameBytes.getD [])).map fromUtf8Lossy
    target ∈ checker.files ∧ target ∉ checker.symlinks ∧
      symlinkPrefix checker.symlinks target = none := by
  unfold LayerChecker.checkTarget at h
  cases linkNameBytes with
  | none => cases h
  | some raw =>
    simp only [Checks.bind_eq_ok] at h
    obtain ⟨target, htarget, h⟩ := h
    obtain ⟨hparts, _⟩ := normalizeLayerPath_ok htarget
    cases target with
    | none => cases h
    | some target =>
      obtain rfl : target = (rawParts raw).map fromUtf8Lossy := hparts
      dsimp only at h
      split at h
      · cases h
      · rename_i hfile
        split at h
        · cases h
        · rename_i hlink
          refine ⟨not_not.mp hfile, fun hmem => hlink (Or.inl hmem), ?_⟩
          exact Option.not_isSome_iff_eq_none.mp fun hsome => hlink (Or.inr hsome)

/-- What an accepted entry does is noted. -/
def Notes (checker after : LayerChecker) (change : Change Text) : Prop :=
  after.ops = checker.ops ++ [.ofChange change] ∧ after.sets = checker.sets.note change ∧
    checker.sets.Allows change

theorem checkWhiteout_ok {path parent : LayerPath} {rest : Text} {entryType : EntryType}
    (h : checker.checkWhiteout path parent rest entryType = .ok after) :
    Notes checker after
      (if rest = opaqueMark then .clear parent else .remove (parent ++ [rest])) := by
  unfold LayerChecker.checkWhiteout at h
  split at h
  · cases h
  split at h
  · rename_i hopaque
    cases h
    rw [if_pos hopaque]
    exact ⟨rfl, rfl, trivial⟩
  · rename_i hopaque
    split at h
    · cases h
    · cases h
      rw [if_neg hopaque]
      exact ⟨rfl, rfl, trivial⟩

/-- What an entry that is no whiteout does at its decoded path. -/
def entryChange (path : LayerPath) (entry : LayerEntry) : Change Text :=
  match entry.entryType with
  | .directory => .create path .directory
  | .symlink => .create path .symlink
  | .link => .link path ((rawParts (entry.linkNameBytes.getD [])).map fromUtf8Lossy)
  | _ => .create path .file

theorem checkEntry_ok {path : LayerPath} (h : checker.checkEntry path entry = .ok after) :
    Notes checker after (entryChange path entry) := by
  obtain ⟨pathBytes, entryType, linkNameBytes⟩ := entry
  cases entryType with
  | regular | continuous | directory | fifo =>
    cases h
    exact ⟨rfl, rfl, trivial⟩
  | symlink =>
    simp only [LayerChecker.checkEntry] at h
    split at h
    · cases h
    · cases h
      exact ⟨rfl, rfl, trivial⟩
  | link =>
    simp only [LayerChecker.checkEntry, Checks.bind_eq_ok] at h
    obtain ⟨_, htarget, h⟩ := h
    cases h
    obtain ⟨hfile, hlink, _⟩ := checkTarget_ok htarget
    exact ⟨rfl, rfl, hfile, hlink⟩
  | char | block | other => cases h

theorem decoded_getLast {path : List (List UInt8)} {base : List UInt8} (h : path.getLast? = some base) :
    (path.map fromUtf8Lossy).getLast?.getD [] = fromUtf8Lossy base := by
  rw [List.getLast?_map, h]
  rfl

/-- A decoded component is marked exactly when its bytes are. -/
theorem whiteoutMark_decoded {base : List UInt8} :
    whiteoutMark <+: fromUtf8Lossy base ↔ asciiBytes whiteoutMark <+: base := by
  have hascii : Ascii whiteoutMark := by decide
  constructor
  · rintro ⟨text, htext⟩
    obtain ⟨rest, hrest, _⟩ := (fromUtf8Lossy_eq_append hascii).mp htext.symm
    exact ⟨rest, hrest.symm⟩
  · rintro ⟨rest, rfl⟩
    have hback := (fromUtf8Lossy_eq_append hascii).mpr ⟨rest, rfl, rfl⟩
    exact ⟨fromUtf8Lossy rest, hback.symm⟩

theorem drop_whiteoutMark {base : List UInt8} (h : asciiBytes whiteoutMark <+: base) :
    (fromUtf8Lossy base).drop whiteoutMark.length =
      fromUtf8Lossy (base.drop whiteoutMark.length) := by
  have hascii : Ascii whiteoutMark := by decide
  obtain ⟨rest, rfl⟩ := h
  have hback := (fromUtf8Lossy_eq_append hascii).mpr ⟨rest, rfl, rfl⟩
  have hlength : (asciiBytes whiteoutMark).length = whiteoutMark.length := rfl
  rw [hback, List.drop_left, ← hlength, List.drop_left]

/-- An accepted entry is noted as what it does in the decoded names. -/
theorem check_ok (h : checker.check entry = .ok after) :
    match entry.change with
    | none => after.ops = checker.ops ∧ after.sets = checker.sets
    | some change => Notes checker after (decoded change) := by
  simp only [LayerChecker.check] at h
  split at h
  · cases h
  simp only [Checks.bind_eq_ok] at h
  obtain ⟨path, hpath, h⟩ := h
  obtain ⟨hparts, hroot⟩ := normalizeLayerPath_ok hpath
  cases path with
  | none =>
    cases h
    have hempty : rawParts entry.pathBytes = [] := hroot.mp rfl
    have hchange : entry.change = none := by simp [LayerEntry.change, hempty]
    rw [hchange]
    exact ⟨rfl, rfl⟩
  | some path =>
    obtain rfl : path = (rawParts entry.pathBytes).map fromUtf8Lossy := hparts
    have hnonempty : rawParts entry.pathBytes ≠ [] := fun hempty => by cases hroot.mpr hempty
    obtain ⟨base, hbase⟩ : ∃ base, (rawParts entry.pathBytes).getLast? = some base :=
      Option.isSome_iff_exists.mp (by simp [hnonempty])
    dsimp only at h
    split at h
    · cases h
    rw [decoded_getLast hbase, ← List.map_dropLast] at h
    by_cases hmark : asciiBytes whiteoutMark <+: base
    · rw [if_pos (whiteoutMark_decoded.mpr hmark), drop_whiteoutMark hmark] at h
      have hnotes := checkWhiteout_ok h
      have hmarked : (fromUtf8Lossy (base.drop whiteoutMark.length) = opaqueMark) ↔
          base.drop whiteoutMark.length = asciiBytes opaqueMark :=
        fromUtf8Lossy_eq_ascii (by decide)
      simp only [LayerEntry.change, hbase, if_pos hmark]
      by_cases hopaque : base.drop whiteoutMark.length = asciiBytes opaqueMark
      · rw [if_pos (hmarked.mpr hopaque)] at hnotes
        rw [if_pos hopaque]
        exact hnotes
      · rw [if_neg (fun heq => hopaque (hmarked.mp heq))] at hnotes
        rw [if_neg hopaque]
        dsimp only [decoded, Change.map]
        rw [List.map_append, List.map_singleton]
        exact hnotes
    · rw [if_neg (fun heq => hmark (whiteoutMark_decoded.mp heq))] at h
      have hnotes := checkEntry_ok h
      simp only [LayerEntry.change, hbase, if_neg hmark]
      unfold entryChange at hnotes
      cases htype : entry.entryType <;> rw [htype] at hnotes <;> exact hnotes

/-- What the entries of a layer do, in their order. -/
def layerChanges (entries : List LayerEntry) : List (Change (List UInt8)) :=
  entries.filterMap (·.change)

/-- The entries that were read from a stream. -/
def LayerStream.read (layer : LayerStream) : List LayerEntry :=
  layer.entries.filterMap (·.toOption)

theorem checkEntries_ok {reject : String → ScanError} {entries : List (Except ReadFailure LayerEntry)}
    (h : checkEntries reject checker entries = .ok after) :
    let changes := (layerChanges (entries.filterMap (·.toOption))).map decoded
    after.ops = checker.ops ++ changes.map .ofChange ∧ checker.sets.AllowsAll changes := by
  induction entries generalizing checker with
  | nil =>
    cases h
    simp [layerChanges, LayerSets.AllowsAll]
  | cons first rest ih =>
    cases first with
    | error failure =>
      simp only [checkEntries] at h
      split at h <;> cases h
    | ok entry =>
      simp only [checkEntries] at h
      cases hcheck : checker.check entry with
      | error reason =>
        rw [hcheck] at h
        cases h
      | ok next =>
        rw [hcheck] at h
        obtain ⟨hops, hallowed⟩ := ih h
        have hnotes := check_ok hcheck
        have hread : (Except.ok entry :: rest).filterMap (·.toOption) =
            entry :: rest.filterMap (·.toOption) := rfl
        rw [hread]
        cases hchange : entry.change with
        | none =>
          rw [hchange] at hnotes
          obtain ⟨hsame, hsets⟩ := hnotes
          rw [hsame] at hops
          rw [hsets] at hallowed
          have hskip : layerChanges (entry :: rest.filterMap (·.toOption)) =
              layerChanges (rest.filterMap (·.toOption)) :=
            List.filterMap_cons_none hchange
          rw [hskip]
          exact ⟨hops, hallowed⟩
        | some change =>
          rw [hchange] at hnotes
          obtain ⟨hnoted, hsets, hallows⟩ := hnotes
          rw [hnoted] at hops
          rw [hsets] at hallowed
          have htake : layerChanges (entry :: rest.filterMap (·.toOption)) =
              change :: layerChanges (rest.filterMap (·.toOption)) :=
            List.filterMap_cons_some hchange
          rw [htake]
          refine ⟨?_, hallows, hallowed⟩
          rw [hops, List.append_assoc]
          rfl

/-- The operations of an accepted layer are what its entries do, and its hardlinks are made to its
own files. -/
theorem scanLayer_ok {name : Text} {layer : LayerStream} {sha : String} {ops : List PathOp}
    (h : scanLayer name layer = .ok (sha, ops)) :
    let changes := (layerChanges layer.read).map decoded
    ops = changes.map .ofChange ∧ (⟨∅, ∅⟩ : LayerSets).AllowsAll changes := by
  simp only [scanLayer, Checks.bind_eq_ok] at h
  obtain ⟨_, _, checker, hchecked, h⟩ := h
  obtain ⟨hops, hallowed⟩ := checkEntries_ok hchecked
  split at h
  · obtain ⟨_, rfl⟩ := Prod.mk.inj (Except.ok.inj h)
    exact ⟨hops, hallowed⟩
  · split at h <;> cases h

end Checks

end Awman.Oci
