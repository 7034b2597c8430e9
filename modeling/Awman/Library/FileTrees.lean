import Mathlib.Data.List.Infix

/-!
# Trees of named entries

A tree says what kind of entry stands at each path, and is changed by layers of changes laid on top
of each other.  The removals of a layer may come before its entries or at their place between them.
What matters is whether a change acts below a symlink: whoever makes it would follow the link.
-/

namespace Awman.FileTrees

/-- The kind of an entry. -/
inductive Kind where
  | directory
  | file
  | symlink
  deriving DecidableEq, Repr

/-- A change of a tree whose paths have components of type `α`. -/
inductive Change (α : Type) where
  /-- Put an entry in the place of what is at the path. -/
  | create (path : List α) (kind : Kind)
  /-- Put another name for an entry in the place of what is at the path. -/
  | link (path target : List α)
  | remove (path : List α)
  /-- Remove what is below the directory. -/
  | clear (dir : List α)
  deriving DecidableEq

/-- What stands at each path. -/
abbrev FileTree (α : Type) := List α → Option Kind

variable {α : Type} [DecidableEq α]

/-- A tree with no entry. -/
def FileTree.empty : FileTree α := fun _ => none

/-- Put an entry at a path; only a directory leaves what is below it. -/
def FileTree.create (tree : FileTree α) (path : List α) (kind : Kind) : FileTree α := fun other =>
  if other = path then some kind
  else if path <+: other ∧ kind ≠ .directory then none
  else tree other

/-- Make a change. -/
def FileTree.apply (tree : FileTree α) : Change α → FileTree α
  | .create path kind => tree.create path kind
  | .link path target =>
    tree.create path (if tree target = some .symlink then .symlink else .file)
  | .remove path => fun other => if path <+: other then none else tree other
  | .clear dir => fun other => if dir <+: other ∧ other ≠ dir then none else tree other

/-- Make some changes in order. -/
def FileTree.run (tree : FileTree α) (changes : List (Change α)) : FileTree α :=
  changes.foldl FileTree.apply tree

@[simp]
theorem FileTree.run_nil (tree : FileTree α) : tree.run [] = tree := rfl

@[simp]
theorem FileTree.run_cons (tree : FileTree α) (change : Change α) (changes : List (Change α)) :
    tree.run (change :: changes) = (tree.apply change).run changes := rfl

theorem FileTree.run_append (tree : FileTree α) (front back : List (Change α)) :
    tree.run (front ++ back) = (tree.run front).run back :=
  List.foldl_append

/-- The change acts below the path. -/
def Change.Below (change : Change α) (path : List α) : Prop :=
  match change with
  | .create at' _ => path <+: at' ∧ path ≠ at'
  | .link at' _ => path <+: at' ∧ path ≠ at'
  | .remove at' => path <+: at' ∧ path ≠ at'
  | .clear dir => path <+: dir

/-- The change removes what is at the path or puts something else in its place. -/
def Change.Replaces (change : Change α) (path : List α) : Prop :=
  match change with
  | .create at' .directory => path = at'
  | .create at' .file => at' <+: path
  | .create at' .symlink => at' <+: path ∧ path ≠ at'
  | .link at' _ => at' <+: path
  | .remove at' => at' <+: path
  | .clear dir => dir <+: path ∧ path ≠ dir

/-- The change leaves no symlink at the path where one may have been. -/
def Change.Ends (change : Change α) (path : List α) : Prop :=
  match change with
  | .create _ .symlink => False
  | .create at' _ => path = at'
  | .link at' _ => path = at'
  | .remove at' => at' <+: path
  | .clear dir => dir <+: path ∧ path ≠ dir

/-- The same change of a tree whose names are written in another way. -/
def Change.map {β : Type} (write : α → β) : Change α → Change β
  | .create path kind => .create (path.map write) kind
  | .link path target => .link (path.map write) (target.map write)
  | .remove path => .remove (path.map write)
  | .clear dir => .clear (dir.map write)

/-- The change takes something away and puts nothing. -/
def Change.isRemoval : Change α → Bool
  | .remove _ => true
  | .clear _ => true
  | _ => false

/-- The change acts below a symlink of the tree, which is an entry below the root. -/
def Through (tree : FileTree α) (change : Change α) : Prop :=
  ∃ path, path ≠ [] ∧ tree path = some .symlink ∧ change.Below path

/-- None of the changes acts below what is then a symlink. -/
def NeverThrough (tree : FileTree α) (changes : List (Change α)) : Prop :=
  ∀ before change after, changes = before ++ change :: after → ¬ Through (tree.run before) change

/-- A change below a symlink of the tree comes after one that replaces the symlink, if there is
one that does. -/
def InTime (tree : FileTree α) (changes : List (Change α)) : Prop :=
  ∀ before change after path, changes = before ++ change :: after → path ≠ [] →
    tree path = some .symlink → change.Below path →
    (∃ other ∈ changes, other.Replaces path) → ∃ other ∈ before, other.Replaces path

/-- When the removals of a layer are made. -/
inductive RemovalOrder where
  /-- Before its other changes. -/
  | removalsFirst
  /-- At their place between the others. -/
  | inPlace
  deriving DecidableEq, Repr

/-- The changes of a layer in the order in which they are made. -/
def RemovalOrder.arrange (order : RemovalOrder) (changes : List (Change α)) : List (Change α) :=
  match order with
  | .removalsFirst => changes.filter (·.isRemoval) ++ changes.filter (! ·.isRemoval)
  | .inPlace => changes

omit [DecidableEq α] in
theorem mem_arrange {order : RemovalOrder} {changes : List (Change α)} {change : Change α} :
    change ∈ order.arrange changes ↔ change ∈ changes := by
  cases order with
  | inPlace => rfl
  | removalsFirst =>
    simp only [RemovalOrder.arrange, List.mem_append, List.mem_filter]
    cases change.isRemoval <;> simp

section Symlinks

variable {tree : FileTree α} {change : Change α} {path : List α} {changes : List (Change α)}

theorem create_eq_symlink {at' : List α} {kind : Kind} (h : tree.create at' kind path = some .symlink) :
    tree path = some .symlink ∧ ¬ (Change.create at' kind).Replaces path ∨
      path = at' ∧ kind = .symlink := by
  unfold FileTree.create at h
  split at h
  · rename_i heq
    exact Or.inr ⟨heq, Option.some.inj h⟩
  · rename_i hne
    split at h
    · cases h
    · rename_i hkept
      refine Or.inl ⟨h, ?_⟩
      cases kind with
      | directory => exact hne
      | file => exact fun hbelow => hkept ⟨hbelow, by decide⟩
      | symlink => exact fun hbelow => hkept ⟨hbelow.1, by decide⟩

/-- A symlink was there before, or the change put it there. -/
theorem apply_eq_symlink (h : tree.apply change path = some .symlink) :
    tree path = some .symlink ∧ ¬ change.Replaces path ∨
      change = .create path .symlink ∨
      ∃ target, change = .link path target ∧ tree target = some .symlink := by
  cases change with
  | create at' kind =>
    rcases create_eq_symlink h with hkept | ⟨rfl, rfl⟩
    · exact Or.inl hkept
    · exact Or.inr (Or.inl rfl)
  | link at' target =>
    by_cases htarget : tree target = some .symlink
    · rw [FileTree.apply, if_pos htarget] at h
      rcases create_eq_symlink h with ⟨hbefore, hkept⟩ | ⟨rfl, _⟩
      · by_cases heq : path = at'
        · rw [heq]
          exact Or.inr (Or.inr ⟨target, rfl, htarget⟩)
        · exact Or.inl ⟨hbefore, fun hbelow => hkept ⟨hbelow, heq⟩⟩
      · exact Or.inr (Or.inr ⟨target, rfl, htarget⟩)
    · rw [FileTree.apply, if_neg htarget] at h
      rcases create_eq_symlink h with hkept | ⟨_, hkind⟩
      · exact Or.inl hkept
      · cases hkind
  | remove at' =>
    simp only [FileTree.apply] at h
    split at h
    · cases h
    · rename_i hkept
      exact Or.inl ⟨h, hkept⟩
  | clear dir =>
    simp only [FileTree.apply] at h
    split at h
    · cases h
    · rename_i hkept
      exact Or.inl ⟨h, hkept⟩

/-- A symlink stays that no change replaces. -/
theorem apply_symlink (h : tree path = some .symlink) (hkept : ¬ change.Replaces path) :
    tree.apply change path = some .symlink := by
  cases change with
  | create at' kind =>
    simp only [FileTree.apply, FileTree.create]
    cases kind with
    | directory =>
      have hne : ¬ path = at' := hkept
      simp [hne, h]
    | file =>
      have hapart : ¬ at' <+: path := hkept
      have hne : ¬ path = at' := fun heq => hapart (heq ▸ List.prefix_refl _)
      simp [hne, hapart, h]
    | symlink =>
      by_cases heq : path = at'
      · simp [heq]
      · have hapart : ¬ at' <+: path := fun hbelow => hkept ⟨hbelow, heq⟩
        simp [heq, hapart, h]
  | link at' target =>
    have hapart : ¬ at' <+: path := hkept
    have hne : ¬ path = at' := fun heq => hapart (heq ▸ List.prefix_refl _)
    simp [FileTree.apply, FileTree.create, hne, hapart, h]
  | remove at' =>
    have hapart : ¬ at' <+: path := hkept
    simp [FileTree.apply, hapart, h]
  | clear dir =>
    have hapart : ¬ (dir <+: path ∧ path ≠ dir) := hkept
    simp only [FileTree.apply, if_neg hapart, h]

theorem run_symlink (h : tree path = some .symlink) (hkept : ∀ change ∈ changes, ¬ change.Replaces path) :
    tree.run changes path = some .symlink := by
  induction changes generalizing tree with
  | nil => exact h
  | cons change rest ih =>
    have happly := apply_symlink h (hkept change List.mem_cons_self)
    exact ih happly fun other hother => hkept other (List.mem_cons_of_mem _ hother)

/-- Removals put no symlink. -/
theorem run_removals (hremovals : ∀ change ∈ changes, change.isRemoval = true)
    (h : tree.run changes path = some .symlink) :
    tree path = some .symlink ∧ ∀ change ∈ changes, ¬ change.Replaces path := by
  induction changes generalizing tree with
  | nil => exact ⟨h, fun _ hmem => nomatch hmem⟩
  | cons change rest ih =>
    obtain ⟨happly, hrest⟩ :=
      ih (fun other hother => hremovals other (List.mem_cons_of_mem _ hother)) h
    have hremoval := hremovals change List.mem_cons_self
    rcases apply_eq_symlink happly with ⟨hbefore, hkept⟩ | rfl | ⟨target, rfl, _⟩
    · refine ⟨hbefore, fun other hother => ?_⟩
      rcases List.mem_cons.mp hother with rfl | hother
      · exact hkept
      · exact hrest other hother
    · cases hremoval
    · cases hremoval

/-- Where no change acts below a symlink, a symlink is replaced before anything comes below it. -/
theorem NeverThrough.inTime (h : NeverThrough tree changes) : InTime tree changes := by
  intro before change after path hsplit hroot hlink hbelow _
  by_contra hnone
  have hkept : ∀ other ∈ before, ¬ other.Replaces path :=
    fun other hother hreplaces => hnone ⟨other, hother, hreplaces⟩
  exact h before change after hsplit ⟨path, hroot, run_symlink hlink hkept, hbelow⟩

omit [DecidableEq α] in
theorem Change.Ends.replaces (h : change.Ends path) : change.Replaces path := by
  cases change with
  | create at' kind =>
    cases kind with
    | directory => exact h
    | file =>
      obtain rfl : path = at' := h
      exact List.prefix_refl path
    | symlink => exact h.elim
  | link at' target =>
    obtain rfl : path = at' := h
    exact List.prefix_refl path
  | remove | clear => exact h

theorem neverThrough_append {front back : List (Change α)} :
    NeverThrough tree (front ++ back) ↔
      NeverThrough tree front ∧ NeverThrough (tree.run front) back := by
  constructor
  · intro h
    constructor
    · intro before change after hsplit
      apply h before change (after ++ back)
      rw [hsplit, List.append_assoc, List.cons_append]
    · intro before change after hsplit
      rw [← FileTree.run_append]
      apply h (front ++ before) change after
      rw [hsplit, List.append_assoc]
  · rintro ⟨hfront, hback⟩ before change after hsplit
    rcases List.append_eq_append_iff.mp hsplit with ⟨more, hbefore, hrest⟩ | ⟨more, hmore, hrest⟩
    · rw [hbefore, FileTree.run_append]
      exact hback more change after hrest
    · cases more with
      | nil =>
        rw [List.append_nil] at hmore
        have hlater := hback [] change after (by simpa using hrest.symm)
        rw [← hmore]
        exact hlater
      | cons first more =>
        obtain ⟨rfl, _⟩ := List.cons.inj hrest
        exact hfront before change more hmore

end Symlinks

end Awman.FileTrees
