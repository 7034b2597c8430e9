import Awman.Library.Interaction
import Mathlib.Data.List.Infix
import Mathlib.Algebra.Order.BigOperators.Group.List
import Mathlib.Algebra.Order.Group.Nat
import Mathlib.Algebra.GroupWithZero.Nat

/-!
# Disks with links

A disk says what stands at each path: a directory, a file that may have several names, a symbolic
link or something else.  Programs over disks ask the operating system for one operation at a time,
and each one may fail.  `Confined` says that an operation changes and makes files only below some
paths, whatever links stand there.
-/

namespace Awman.Disks

open Awman.Interaction

/-- One component of the target of a link. -/
inductive Step (ν : Type) where
  | up
  | down (name : ν)
deriving DecidableEq

/-- What stands at a path. -/
inductive Node (ν : Type) where
  | directory
  | file (inode : Nat)
  | link (absolute : Bool) (target : List (Step ν))
  | special
deriving DecidableEq

/-- What a file holds, or where a link leads. -/
inductive Content (ν γ : Type) where
  | bytes (data : List γ)
  | link (absolute : Bool) (target : List (Step ν))
deriving DecidableEq

/-- Why an operation fails. -/
inductive IoError where
  | notFound
  | notDirectory
  | tooManyLinks
  | exists
  | unusable
  /-- The operating system refuses it. -/
  | refused
deriving DecidableEq

variable {ν γ : Type} [DecidableEq ν]

/-- The entry at a path; the root is a directory. -/
def nodeIn (entries : List (List ν × Node ν)) (path : List ν) : Option (Node ν) :=
  if path = [] then some .directory
  else (entries.find? fun entry => entry.1 = path).map (·.2)

/-- What stands at each path. -/
structure Disk (ν γ : Type) [DecidableEq ν] where
  entries : List (List ν × Node ν)
  /-- What each file holds. -/
  data : Nat → List γ
  /-- Entries stand in directories. -/
  closed : ∀ path name, nodeIn entries (path ++ [name]) ≠ none →
    nodeIn entries path = some .directory

namespace Disk

variable (disk : Disk ν γ)

/-- What stands at a path. -/
def node (path : List ν) : Option (Node ν) := nodeIn disk.entries path

/-- What the file or the link at a path holds. -/
def contentAt (path : List ν) : Option (Content ν γ) :=
  match disk.node path with
  | some (.file inode) => some (.bytes (disk.data inode))
  | some (.link absolute target) => some (.link absolute target)
  | _ => none

/-- What the file at a path holds. -/
def fileAt (path : List ν) : Option (Content ν γ) :=
  match disk.contentAt path with
  | some (.bytes data) => some (.bytes data)
  | _ => none

/-- How many names a file has. -/
def links (inode : Nat) : Nat := disk.entries.countP fun entry => entry.2 = .file inode

/-- The number of a file; other entries have none. -/
def inodeOf : Node ν → Nat
  | .file inode => inode
  | _ => 0

/-- A number that no file has. -/
def unused : Nat := (disk.entries.map fun entry => inodeOf entry.2).sum + 1

/-- No path is longer. -/
def depth : Nat := (disk.entries.map fun entry => entry.1.length).sum

/-- The names in a directory. -/
def children (path : List ν) : List ν :=
  disk.entries.filterMap fun entry =>
    if entry.1 ≠ [] ∧ entry.1.dropLast = path then entry.1.getLast? else none

/-- Change what a file holds. -/
def write (inode : Nat) (content : List γ) : Disk ν γ :=
  { disk with data := fun other => if other = inode then content else disk.data other }

theorem nodeIn_append (entries : List (List ν × Node ν)) (path : List ν) (node : Node ν)
    (hpath : path ≠ []) (hnew : nodeIn entries path = none) (other : List ν) :
    nodeIn (entries ++ [(path, node)]) other =
      if other = path then some node else nodeIn entries other := by
  unfold nodeIn at hnew ⊢
  rw [if_neg hpath] at hnew
  by_cases hroot : other = []
  · rw [if_pos hroot, if_pos hroot, if_neg (fun hsame : other = path => hpath (hsame ▸ hroot))]
  rw [if_neg hroot, if_neg hroot, List.find?_append]
  by_cases hsame : other = path
  · subst hsame
    rw [if_pos rfl, Option.map_eq_none_iff.mp hnew]
    simp
  · rw [if_neg hsame]
    have hlast : ([(path, node)] : List (List ν × Node ν)).find?
        (fun entry => entry.1 = other) = none := by
      simp [Ne.symm hsame]
    rw [hlast, Option.or_none]

/-- It is enough that the entries that are there stand in directories. -/
theorem closed_of_entries {entries : List (List ν × Node ν)}
    (h : ∀ entry ∈ entries, nodeIn entries entry.1.dropLast = some .directory) (path : List ν) (name : ν)
    (hnode : nodeIn entries (path ++ [name]) ≠ none) :
    nodeIn entries path = some .directory := by
  unfold nodeIn at hnode
  rw [if_neg (by simp), Ne, Option.map_eq_none_iff] at hnode
  obtain ⟨entry, hfound⟩ := Option.ne_none_iff_exists'.mp hnode
  have hkey : entry.1 = path ++ [name] := by simpa using List.find?_some hfound
  have hparent := h entry (List.mem_of_find?_eq_some hfound)
  rw [hkey, List.dropLast_concat] at hparent
  exact hparent

/-- Make an entry, if its directory is there and it is not. -/
def put (path : List ν) (name : ν) (node : Node ν) : Disk ν γ :=
  if h : disk.node path = some .directory ∧ disk.node (path ++ [name]) = none then
    { entries := disk.entries ++ [(path ++ [name], node)]
      data := disk.data
      closed := by
        intro other child hchild
        have hadd := nodeIn_append disk.entries (path ++ [name]) node (by simp) h.2
        rw [hadd] at hchild
        rw [hadd]
        have hparent : nodeIn disk.entries other = some .directory := by
          by_cases hsame : other ++ [child] = path ++ [name]
          · obtain ⟨rfl, -⟩ := List.append_inj' hsame rfl
            exact h.1
          · rw [if_neg hsame] at hchild
            exact disk.closed other child hchild
        rw [if_neg]
        · exact hparent
        · intro hsame
          rw [hsame] at hparent
          have hnone : nodeIn disk.entries (path ++ [name]) = none := h.2
          rw [hnone] at hparent
          cases hparent }
  else disk

variable {disk} {path other rest : List ν} {name : ν} {node : Node ν} {inode : Nat}

@[simp] theorem node_root : disk.node [] = some .directory := rfl

/-- Putting a node changes only its own path. -/
theorem node_put (hparent : disk.node path = some .directory) (hnew : disk.node (path ++ [name]) = none)
    (other : List ν) :
    (disk.put path name node).node other =
      if other = path ++ [name] then some node else disk.node other := by
  unfold put
  rw [dif_pos ⟨hparent, hnew⟩]
  exact nodeIn_append disk.entries (path ++ [name]) node (by simp) hnew other

/-- A put without a free place in a directory does nothing. -/
theorem put_eq_self (h : ¬(disk.node path = some .directory ∧ disk.node (path ++ [name]) = none)) :
    disk.put path name node = disk := dif_neg h

@[simp] theorem data_put : (disk.put path name node).data = disk.data := by
  unfold put
  split <;> rfl

/-- What stands above an entry is a directory. -/
theorem directory_above (h : disk.node (path ++ rest) ≠ none) (hrest : rest ≠ []) :
    disk.node path = some .directory := by
  induction rest using List.reverseRecOn with
  | nil => exact absurd rfl hrest
  | append_singleton front last ih =>
    rw [← List.append_assoc] at h
    have hfront : disk.node (path ++ front) = some .directory := disk.closed _ _ h
    by_cases hempty : front = []
    · subst hempty
      rw [List.append_nil] at hfront
      exact hfront
    · apply ih _ hempty
      rw [hfront]
      simp

/-- Nothing stands below what is not a directory. -/
theorem node_below (h : disk.node path ≠ some .directory) (hrest : rest ≠ []) :
    disk.node (path ++ rest) = none := by
  by_contra hsome
  exact h (directory_above hsome hrest)

theorem mem_entries_of_node (hpath : path ≠ []) (h : disk.node path = some node) :
    (path, node) ∈ disk.entries := by
  unfold Disk.node nodeIn at h
  rw [if_neg hpath] at h
  obtain ⟨entry, hfound, hnode⟩ := Option.map_eq_some_iff.mp h
  have hkey : entry.1 = path := by simpa using List.find?_some hfound
  have hentry : entry = (path, node) := Prod.ext hkey hnode
  rw [← hentry]
  exact List.mem_of_find?_eq_some hfound

theorem mem_entries_of_file (h : disk.node path = some (.file inode)) :
    (path, Node.file inode) ∈ disk.entries := by
  refine mem_entries_of_node ?_ h
  rintro rfl
  simp at h

/-- The children are the names with a node. -/
theorem mem_children : name ∈ disk.children path ↔ disk.node (path ++ [name]) ≠ none := by
  unfold children
  rw [List.mem_filterMap]
  constructor
  · intro hmem
    obtain ⟨entry, hentry, hname⟩ := hmem
    split_ifs at hname with hchild
    have hkey : entry.1 = path ++ [name] := by
      rw [← hchild.2]
      exact (List.dropLast_append_getLast? name hname).symm
    unfold Disk.node nodeIn
    rw [if_neg (by simp)]
    rw [Ne, Option.map_eq_none_iff, List.find?_eq_none]
    intro hall
    have hno := hall entry hentry
    simp [hkey] at hno
  · intro hnode
    obtain ⟨found, hfound⟩ := Option.ne_none_iff_exists'.mp hnode
    refine ⟨(path ++ [name], found), mem_entries_of_node (by simp) hfound, ?_⟩
    simp

/-- A file with one name has no other one. -/
theorem eq_of_links (hlinks : disk.links inode = 1) (hpath : disk.node path = some (.file inode))
    (hother : disk.node other = some (.file inode)) : path = other := by
  unfold links at hlinks
  rw [List.countP_eq_length_filter] at hlinks
  obtain ⟨only, honly⟩ := List.length_eq_one_iff.mp hlinks
  have hmem : ∀ {path : List ν}, disk.node path = some (.file inode) →
      (path, Node.file inode) = only := by
    intro path hfile
    have hin : (path, Node.file inode) ∈ disk.entries.filter fun entry =>
        entry.2 = .file inode := by
      rw [List.mem_filter]
      exact ⟨mem_entries_of_file hfile, by simp⟩
    rw [honly] at hin
    exact List.mem_singleton.mp hin
  exact congrArg Prod.fst ((hmem hpath).trans (hmem hother).symm)

/-! ## Contents -/

theorem contentAt_file (h : disk.node path = some (.file inode)) :
    disk.contentAt path = some (.bytes (disk.data inode)) := by
  unfold contentAt
  rw [h]

theorem contentAt_directory (h : disk.node path = some .directory) : disk.contentAt path = none := by
  unfold contentAt
  rw [h]

theorem contentAt_absent (h : disk.node path = none) : disk.contentAt path = none := by
  unfold contentAt
  rw [h]

/-- Nothing lies below what is no directory. -/
theorem contentAt_below (h : disk.node path ≠ some .directory) (hrest : rest ≠ []) :
    disk.contentAt (path ++ rest) = none := contentAt_absent (node_below h hrest)

theorem exists_inode_of_contentAt {data : List γ} (h : disk.contentAt path = some (.bytes data)) :
    ∃ inode, disk.node path = some (.file inode) := by
  unfold contentAt at h
  split at h
  · next inode hfile => exact ⟨inode, hfile⟩
  · cases h
  · cases h

/-- Nothing is held at or below a path at which nothing stands. -/
theorem contentAt_under_absent (h : disk.node path = none) (rest : List ν) :
    disk.contentAt (path ++ rest) = none := by
  by_cases hrest : rest = []
  · subst hrest
    rw [List.append_nil]
    exact contentAt_absent h
  · apply contentAt_below _ hrest
    rw [h]
    simp

theorem fileAt_file (h : disk.node path = some (.file inode)) :
    disk.fileAt path = some (.bytes (disk.data inode)) := by
  unfold fileAt
  rw [contentAt_file h]

theorem fileAt_of_contentAt_none (h : disk.contentAt path = none) : disk.fileAt path = none := by
  unfold fileAt
  rw [h]

/-- Equal contents read as equal files. -/
theorem fileAt_congr {after : Disk ν γ} (h : after.contentAt path = disk.contentAt path) :
    after.fileAt path = disk.fileAt path := by
  unfold fileAt
  rw [h]

theorem contentAt_congr {after : Disk ν γ} (hnode : after.node path = disk.node path)
    (hdata : ∀ inode, disk.node path = some (.file inode) → after.data inode = disk.data inode) :
    after.contentAt path = disk.contentAt path := by
  unfold contentAt
  rw [hnode]
  cases hfound : disk.node path with
  | none => rfl
  | some found =>
    cases found with
    | file inode =>
      dsimp only
      rw [hdata inode hfound]
    | directory | link | special => rfl

/-- A new directory holds nothing. -/
@[simp] theorem contentAt_put_directory (other : List ν) :
    (disk.put path name .directory).contentAt other = disk.contentAt other := by
  by_cases h : disk.node path = some .directory ∧ disk.node (path ++ [name]) = none
  · by_cases hsame : other = path ++ [name]
    · subst hsame
      rw [contentAt_absent h.2]
      apply contentAt_directory
      rw [node_put h.1 h.2, if_pos rfl]
    · apply contentAt_congr
      · rw [node_put h.1 h.2, if_neg hsame]
      · intro inode _
        rw [data_put]
  · rw [put_eq_self h]

/-- What is there stays. -/
theorem node_put_kept {found : Node ν} (h : disk.node other = some found) :
    (disk.put path name node).node other = some found := by
  by_cases hput : disk.node path = some .directory ∧ disk.node (path ++ [name]) = none
  · rw [node_put hput.1 hput.2, if_neg]
    · exact h
    · intro hsame
      rw [hsame, hput.2] at h
      cases h
  · rw [put_eq_self hput]
    exact h

/-! ## Paths through links -/

/-- Walk along a path; `again` walks on from a link. -/
def followWith (disk : Disk ν γ) (again : List ν → List (Step ν) → Except IoError (List ν)) :
    List ν → List (Step ν) → Except IoError (List ν)
  | base, [] => .ok base
  | base, .up :: rest => followWith disk again base.dropLast rest
  | base, .down name :: rest =>
    match disk.node (base ++ [name]) with
    | some .directory => followWith disk again (base ++ [name]) rest
    | some (.link absolute target) => again (if absolute then [] else base) (target ++ rest)
    | some _ => if rest = [] then .ok (base ++ [name]) else .error .notDirectory
    | none => .error .notFound

/-- Walk along a path through a bounded number of links. -/
def follow (disk : Disk ν γ) : Nat → List ν → List (Step ν) → Except IoError (List ν)
  | 0 => followWith disk fun _ _ => .error .tooManyLinks
  | budget + 1 => followWith disk (follow disk budget)

/-- How many links the operating system follows. -/
def maxLinks : Nat := 40

/-- Where a path leads. -/
def realPath (disk : Disk ν γ) (path : List ν) : Except IoError (List ν) :=
  disk.follow maxLinks [] (path.map .down)

/-- Something stands where a path leads. -/
def exists_ (disk : Disk ν γ) (path : List ν) : Bool := (disk.realPath path).isOk

/-- A path leads to a directory. -/
def isDirectory (disk : Disk ν γ) (path : List ν) : Bool :=
  match disk.realPath path with
  | .ok real => disk.node real = some .directory
  | .error _ => false

/-- A path without a link at its end is followed as it is. -/
theorem followWith_plain {again : List ν → List (Step ν) → Except IoError (List ν)} (base : List ν)
    (hnode : disk.node (base ++ path) = some node)
    (hplain : ∀ absolute target, node ≠ .link absolute target) :
    disk.followWith again base (path.map .down) = .ok (base ++ path) := by
  induction path generalizing base with
  | nil =>
    rw [List.append_nil]
    rfl
  | cons first rest ih =>
    have hsplit : base ++ first :: rest = (base ++ [first]) ++ rest := by simp
    rw [hsplit] at hnode ⊢
    have hrest := ih (base ++ [first]) hnode
    rw [List.map_cons]
    unfold followWith
    by_cases hlast : rest = []
    · subst hlast
      rw [List.append_nil] at hnode ⊢
      rw [List.append_nil] at hrest
      rw [hnode]
      cases node with
      | directory => exact hrest
      | link absolute target => exact absurd rfl (hplain absolute target)
      | file | special => rfl
    · have hdirectory : disk.node (base ++ [first]) = some .directory := by
        apply directory_above _ hlast
        rw [hnode]
        simp
      rw [hdirectory]
      exact hrest

/-- A path of what is no link leads there. -/
theorem realPath_plain (hnode : disk.node path = some node)
    (hplain : ∀ absolute target, node ≠ .link absolute target) : disk.realPath path = .ok path :=
  followWith_plain [] hnode hplain

end Disk

/-! ## Operations -/

/-- What a program does to a disk; each operation may fail, or be the last before a crash. -/
abbrev Io (ν γ : Type) [DecidableEq ν] (α : Type) : Type := Program Bool (Disk ν γ) IoError α

/-- Ask the operating system for an operation. -/
def attempt : Io ν γ Unit := do
  let done ← receive some
  if done then pure () else fail .refused

/-- Open a directory that is no link. -/
def openDirectory (path : List ν) : Io ν γ Unit := do
  attempt
  let disk ← getState
  if disk.node path = some .directory then pure () else fail .notDirectory

/-- Make a directory; one that is there already will do. -/
def makeDirectory (parent : List ν) (name : ν) : Io ν γ Unit := do
  attempt
  modifyState fun disk => disk.put parent name .directory

/-- Make a directory where a path through links leads. -/
def makeDirectoryAt (parent : List ν) (name : ν) : Io ν γ (Except IoError Unit) := do
  attempt
  let disk ← getState
  match disk.realPath parent with
  | .error error => pure (.error error)
  | .ok real =>
    if disk.node real ≠ some .directory then pure (.error .notDirectory)
    else if disk.node (real ++ [name]) ≠ none then pure (.error .exists)
    else do
      modifyState fun disk => disk.put real name .directory
      pure (.ok ())

/-- Something stands where a path leads, as far as this can be said. -/
def tryExists (path : List ν) : Io ν γ Bool := do
  attempt
  let disk ← getState
  match disk.realPath path with
  | .ok _ => pure true
  | .error .notFound => pure false
  | .error error => fail error

/-! ## Confinement -/

/-- What is there stays, and only below some paths a file changes or is made. -/
structure Confined (roots : List ν → Prop) (before after : Disk ν γ) : Prop where
  kept : ∀ path node, before.node path = some node → after.node path = some node
  elsewhere : ∀ path, ¬ roots path → after.contentAt path = before.contentAt path

namespace Confined

variable {roots wider : List ν → Prop} {before middle after : Disk ν γ}

theorem refl (disk : Disk ν γ) : Confined roots disk disk :=
  ⟨fun _ _ hnode => hnode, fun _ _ => rfl⟩

/-- Confinement composes. -/
theorem trans (hfirst : Confined roots before middle) (hsecond : Confined roots middle after) :
    Confined roots before after where
  kept := fun path node hnode => hsecond.kept path node (hfirst.kept path node hnode)
  elsewhere := fun path houtside =>
    (hsecond.elsewhere path houtside).trans (hfirst.elsewhere path houtside)

/-- Wider roots confine too. -/
theorem mono (h : Confined roots before after) (hwider : ∀ path, roots path → wider path) :
    Confined wider before after where
  kept := h.kept
  elsewhere := fun path houtside => h.elsewhere path fun hroot => houtside (hwider path hroot)

theorem put_directory (before : Disk ν γ) (path : List ν) (name : ν) :
    Confined roots before (before.put path name .directory) :=
  ⟨fun _ _ hnode => Disk.node_put_kept hnode, fun other _ => Disk.contentAt_put_directory other⟩

end Confined

instance (roots : List ν → Prop) :
    Std.Refl (Confined roots : Disk ν γ → Disk ν γ → Prop) := ⟨Confined.refl⟩

instance (roots : List ν → Prop) : IsTrans (Disk ν γ) (Confined roots) :=
  ⟨fun _ _ _ hfirst hsecond => hfirst.trans hsecond⟩

/-- Wherever a program stops, it has changed and made files only below some paths. -/
abbrev Confines {α : Type} (roots : List ν → Prop) (program : Io ν γ α) : Prop :=
  Relates (Confined roots) program

section relating

variable {r : Disk ν γ → Disk ν γ → Prop} [Std.Refl r] [IsTrans (Disk ν γ) r]

theorem relates_attempt : Relates r (attempt : Io ν γ Unit) := by
  apply Relates.bind .receive
  intro done
  cases done with
  | true => exact .pure
  | false => exact .fail

theorem relates_openDirectory (path : List ν) : Relates r (openDirectory path : Io ν γ Unit) := by
  apply Relates.bind relates_attempt
  intro _
  apply Relates.bind .getState
  intro disk
  split
  · exact .pure
  · exact .fail

variable (hput : ∀ (disk : Disk ν γ) path name, r disk (disk.put path name .directory))
include hput

theorem relates_makeDirectory (path : List ν) (name : ν) :
    Relates r (makeDirectory path name : Io ν γ Unit) :=
  Relates.bind relates_attempt fun _ before => Ensures.modifyState (hput before path name)

theorem relates_makeDirectoryAt (path : List ν) (name : ν) :
    Relates r (makeDirectoryAt path name : Io ν γ (Except IoError Unit)) := by
  apply Relates.bind relates_attempt
  intro _
  apply Relates.bind .getState
  intro disk
  split
  · exact .pure
  split
  · exact .pure
  split
  · exact .pure
  · exact Relates.bind (fun before => Ensures.modifyState (hput before _ name)) fun _ => .pure

end relating

section ensuring

variable {before : Disk ν γ} {halt : Disk ν γ → Prop} {path : List ν} {name : ν}

theorem ensures_attempt {post : Unit → Disk ν γ → Prop} (hpost : post () before) (hhalt : halt before) :
    Ensures attempt before post halt := by
  refine .bind (.receive hhalt ?_)
  intro done
  cases done with
  | true => exact .pure hpost
  | false => exact .fail hhalt

theorem ensures_openDirectory {post : Unit → Disk ν γ → Prop}
    (hpost : before.node path = some .directory → post () before) (hhalt : halt before) :
    Ensures (openDirectory path) before post halt := by
  refine .bind (ensures_attempt ?_ hhalt)
  refine .read ?_
  by_cases hdirectory : before.node path = some .directory
  · rw [if_pos hdirectory]
    exact .pure (hpost hdirectory)
  · rw [if_neg hdirectory]
    exact .fail hhalt

theorem ensures_tryExists {post : Bool → Disk ν γ → Prop} (hthere : post true before)
    (hmissing : before.realPath path = .error .notFound → post false before) (hhalt : halt before) :
    Ensures (tryExists path) before post halt := by
  refine .bind (ensures_attempt ?_ hhalt)
  refine .read ?_
  split
  · exact .pure hthere
  · next hreal => exact .pure (hmissing hreal)
  · exact .fail hhalt

theorem ensures_makeDirectory {post : Unit → Disk ν γ → Prop}
    (hpost : post () (before.put path name .directory)) (hhalt : halt before) :
    Ensures (makeDirectory path name) before post halt :=
  Ensures.bind (ensures_attempt (.modifyState hpost) hhalt)

end ensuring

end Awman.Disks
