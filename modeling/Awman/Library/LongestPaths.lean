import Mathlib.Data.List.Chain
import Mathlib.Data.List.Perm.Subperm
import Mathlib.Logic.Function.Basic
import Mathlib.Logic.Relation
import Mathlib.Order.Bounds.Basic
import Mathlib.Order.MinMax

/-!
# Longest paths by relaxation

The edges of a graph are relaxed in passes: the depth of a node is raised above the depth of a node it
depends on.  Every depth reached on the way is the length of a path, and after as many passes as a path
has edges the depth of its first node is no less than its length.  Where nothing depends on itself no
path is longer than the number of nodes, so that many passes make every depth the length of a longest
path.
-/

namespace Awman.LongestPaths

variable {ι : Type*} {edges : List (ι × ι)} {node dep : ι} {path : List ι}

/-- The first node of an edge depends on the second. -/
def Edge (edges : List (ι × ι)) (node dep : ι) : Prop :=
  (node, dep) ∈ edges

/-- From the node, each node of the path depends on the next. -/
def IsPath (edges : List (ι × ι)) (node : ι) (path : List ι) : Prop :=
  (node :: path).IsChain (Edge edges)

/-- The lengths of the paths from a node. -/
def pathLengths (edges : List (ι × ι)) (node : ι) : Set ℕ :=
  { length | ∃ path, IsPath edges node path ∧ path.length = length }

/-- No node depends on itself, directly or not. -/
def Acyclic (edges : List (ι × ι)) : Prop :=
  ∀ node, ¬Relation.TransGen (Edge edges) node node

/-! ## Paths -/

theorem IsPath.nil : IsPath edges node [] :=
  List.isChain_singleton node

theorem isPath_cons : IsPath edges node (dep :: path) ↔ (node, dep) ∈ edges ∧ IsPath edges dep path :=
  List.isChain_cons_cons

theorem zero_mem_pathLengths : 0 ∈ pathLengths edges node :=
  ⟨[], .nil, rfl⟩

theorem succ_mem_pathLengths {length : ℕ} :
    length + 1 ∈ pathLengths edges node ↔
      ∃ dep, (node, dep) ∈ edges ∧ length ∈ pathLengths edges dep := by
  constructor
  · rintro ⟨path, hpath, hlength⟩
    cases path with
    | nil => simp at hlength
    | cons dep path =>
      obtain ⟨hedge, hrest⟩ := isPath_cons.mp hpath
      exact ⟨dep, hedge, path, hrest, by simpa using hlength⟩
  · rintro ⟨dep, hedge, path, hpath, rfl⟩
    exact ⟨dep :: path, isPath_cons.mpr ⟨hedge, hpath⟩, rfl⟩

/-- Where nothing depends on itself a path meets no node twice. -/
theorem IsPath.nodup (hacyclic : Acyclic edges) (h : IsPath edges node path) : (node :: path).Nodup := by
  have hchain : (node :: path).IsChain (Relation.TransGen (Edge edges)) :=
    h.imp fun _ _ hedge => .single hedge
  apply hchain.pairwise.imp
  intro first second htrans heq
  rw [heq] at htrans
  exact hacyclic second htrans

/-- Where nothing depends on itself a path has fewer edges than there are nodes. -/
theorem IsPath.length_lt (hacyclic : Acyclic edges) {nodes : List ι}
    (hnodes : ∀ edge ∈ edges, edge.2 ∈ nodes) (hnode : node ∈ nodes) (h : IsPath edges node path) :
    path.length < nodes.length := by
  have hmem : ∀ {node : ι} {path : List ι}, node ∈ nodes → IsPath edges node path →
      node :: path ⊆ nodes := by
    intro node path
    induction path generalizing node with
    | nil =>
      intro hnode _
      exact List.cons_subset.mpr ⟨hnode, List.nil_subset _⟩
    | cons dep path ih =>
      intro hnode hpath
      obtain ⟨hedge, hrest⟩ := isPath_cons.mp hpath
      exact List.cons_subset.mpr ⟨hnode, ih (hnodes _ hedge) hrest⟩
  have hle := ((h.nodup hacyclic).subperm (hmem hnode h)).length_le
  rw [List.length_cons] at hle
  omega

/-- A dependency's longest path is shorter. -/
theorem isGreatest_lt {length shorter : ℕ} (hedge : (node, dep) ∈ edges)
    (h : IsGreatest (pathLengths edges node) length) (hdep : IsGreatest (pathLengths edges dep) shorter) :
    shorter < length := by
  have hlonger : shorter + 1 ∈ pathLengths edges node := succ_mem_pathLengths.mpr ⟨dep, hedge, hdep.1⟩
  have hle := h.2 hlonger
  omega

/-- A node whose longest path has an edge depends on one whose longest path is one edge shorter. -/
theorem exists_dep_of_isGreatest {length : ℕ} (h : IsGreatest (pathLengths edges node) (length + 1)) :
    ∃ dep, (node, dep) ∈ edges ∧ IsGreatest (pathLengths edges dep) length := by
  obtain ⟨dep, hedge, hdep⟩ := succ_mem_pathLengths.mp h.1
  refine ⟨dep, hedge, hdep, ?_⟩
  intro other hother
  have hlonger : other + 1 ∈ pathLengths edges node := succ_mem_pathLengths.mpr ⟨dep, hedge, hother⟩
  have hle := h.2 hlonger
  omega

/-! ## Relaxation -/

variable [DecidableEq ι]

/-- Raise the depth of a node above the depth of a node it depends on, and note that a depth
changed. -/
def relax (marks : (ι → ℕ) × Bool) (edge : ι × ι) : (ι → ℕ) × Bool :=
  if marks.1 edge.2 + 1 > marks.1 edge.1 then
    (Function.update marks.1 edge.1 (marks.1 edge.2 + 1), true)
  else
    marks

/-- Relax every edge in turn. -/
def pass (edges : List (ι × ι)) (depth : ι → ℕ) : (ι → ℕ) × Bool :=
  edges.foldl relax (depth, false)

/-- Pass over the edges until nothing changes, or the passes are used up. -/
def settle (edges : List (ι × ι)) : ℕ → (ι → ℕ) → ι → ℕ
  | 0, depth => depth
  | passes + 1, depth =>
    if (pass edges depth).2 then
      settle edges passes (pass edges depth).1
    else
      (pass edges depth).1

/-- Every depth is the length of a path. -/
def Attained (edges : List (ι × ι)) (depth : ι → ℕ) : Prop :=
  ∀ node, depth node ∈ pathLengths edges node

/-- Every path of this length or a smaller one is no longer than the depth of its first node. -/
def Covers (edges : List (ι × ι)) (length : ℕ) (depth : ι → ℕ) : Prop :=
  ∀ node path, IsPath edges node path → path.length ≤ length → path.length ≤ depth node

variable {marks : (ι → ℕ) × Bool} {depth : ι → ℕ} {edge : ι × ι}

/-- Relaxing an edge raises the depth of its first node, if at all. -/
theorem relax_apply (node : ι) :
    (relax marks edge).1 node =
      if node = edge.1 then max (marks.1 edge.1) (marks.1 edge.2 + 1) else marks.1 node := by
  unfold relax
  split
  · simp only [Function.update_apply]
    split
    · omega
    · rfl
  · split
    · rename_i hless hsame
      rw [hsame]
      omega
    · rfl

theorem le_relax (node : ι) : marks.1 node ≤ (relax marks edge).1 node := by
  rw [relax_apply]
  split
  · rename_i hsame
    rw [hsame]
    omega
  · exact Nat.le_refl _

theorem relax_edge : marks.1 edge.2 + 1 ≤ (relax marks edge).1 edge.1 := by
  rw [relax_apply, if_pos rfl]
  omega

theorem relax_flag (h : (relax marks edge).2 = false) : relax marks edge = marks := by
  unfold relax at h ⊢
  split at h
  · cases h
  · rename_i hless
    rw [if_neg hless]

theorem Attained.relax (hedge : edge ∈ edges) (h : Attained edges marks.1) :
    Attained edges (relax marks edge).1 := by
  intro node
  rw [relax_apply]
  split
  · rename_i hsame
    rw [hsame]
    rcases max_choice (marks.1 edge.1) (marks.1 edge.2 + 1) with hown | hraised
    · rw [hown]
      exact h edge.1
    · rw [hraised]
      exact succ_mem_pathLengths.mpr ⟨edge.2, hedge, h edge.2⟩
  · exact h node

section

variable (part : List (ι × ι)) (marks : (ι → ℕ) × Bool)

theorem le_foldl (node : ι) : marks.1 node ≤ (part.foldl relax marks).1 node := by
  induction part generalizing marks with
  | nil => exact Nat.le_refl _
  | cons first rest ih => exact (le_relax node).trans (ih (relax marks first))

theorem foldl_edge (hedge : edge ∈ part) : marks.1 edge.2 + 1 ≤ (part.foldl relax marks).1 edge.1 := by
  induction part generalizing marks with
  | nil => cases hedge
  | cons first rest ih =>
    rcases List.mem_cons.mp hedge with rfl | hrest
    · exact relax_edge.trans (le_foldl rest (relax marks edge) edge.1)
    · have hgrown : marks.1 edge.2 ≤ (relax marks first).1 edge.2 := le_relax edge.2
      have hlater := ih (relax marks first) hrest
      rw [List.foldl_cons]
      omega

theorem foldl_flag (h : (part.foldl relax marks).2 = false) : part.foldl relax marks = marks := by
  induction part generalizing marks with
  | nil => rfl
  | cons first rest ih =>
    rw [List.foldl_cons] at h ⊢
    have hrest := ih (relax marks first) h
    rw [hrest] at h ⊢
    exact relax_flag h

end

theorem Attained.foldl (part : List (ι × ι)) (hpart : part ⊆ edges) (marks : (ι → ℕ) × Bool)
    (h : Attained edges marks.1) : Attained edges (part.foldl LongestPaths.relax marks).1 := by
  induction part generalizing marks with
  | nil => exact h
  | cons first rest ih =>
    have hfirst := List.cons_subset.mp hpart
    exact ih hfirst.2 (LongestPaths.relax marks first) (h.relax hfirst.1)

/-- A pass covers the paths that are one edge longer. -/
theorem Covers.pass {length : ℕ} (h : Covers edges length depth) :
    Covers edges (length + 1) (pass edges depth).1 := by
  intro node path hpath hlength
  cases path with
  | nil => exact Nat.zero_le _
  | cons dep path =>
    obtain ⟨hedge, hrest⟩ := isPath_cons.mp hpath
    rw [List.length_cons] at hlength ⊢
    have hbefore := h dep path hrest (by omega)
    have hraised := foldl_edge edges (depth, false) hedge
    simp only [LongestPaths.pass] at hraised ⊢
    omega

/-- When a pass changes nothing every path is covered. -/
theorem covers_of_unchanged (h : (pass edges depth).2 = false) (length : ℕ) :
    Covers edges length (pass edges depth).1 := by
  have hsame : pass edges depth = (depth, false) := foldl_flag edges (depth, false) h
  rw [hsame]
  intro node path
  induction path generalizing node with
  | nil =>
    intro _ _
    exact Nat.zero_le _
  | cons dep path ih =>
    intro hpath hlength
    obtain ⟨hedge, hrest⟩ := isPath_cons.mp hpath
    rw [List.length_cons] at hlength ⊢
    have hbefore := ih dep hrest (by omega)
    have hraised := foldl_edge edges (depth, false) hedge
    rw [← pass, hsame] at hraised
    simp only at hbefore hraised ⊢
    omega

theorem Attained.settle (h : Attained edges depth) (passes : ℕ) :
    Attained edges (settle edges passes depth) := by
  induction passes generalizing depth with
  | zero => exact h
  | succ passes ih =>
    have hpass : Attained edges (LongestPaths.pass edges depth).1 :=
      h.foldl edges (List.Subset.refl _) (depth, false)
    unfold LongestPaths.settle
    split
    · exact ih hpass
    · exact hpass

theorem Covers.settle {length : ℕ} (h : Covers edges length depth) (passes : ℕ) :
    Covers edges (length + passes) (settle edges passes depth) := by
  induction passes generalizing depth length with
  | zero => exact h
  | succ passes ih =>
    unfold LongestPaths.settle
    split
    · have hrest := ih h.pass
      rw [Nat.add_right_comm] at hrest
      exact hrest
    · rename_i hflag
      exact covers_of_unchanged (Bool.not_eq_true _ ▸ hflag) (length + (passes + 1))

/-- Where nothing depends on itself, as many passes as there are nodes make every depth the length of
a longest path. -/
theorem settle_isGreatest (hacyclic : Acyclic edges) (nodes : List ι)
    (hnodes : ∀ edge ∈ edges, edge.2 ∈ nodes) {passes : ℕ} (hpasses : nodes.length ≤ passes)
    (hnode : node ∈ nodes) :
    IsGreatest (pathLengths edges node) (settle edges passes (fun _ => 0) node) := by
  have hstart : Attained edges (fun _ => 0) := fun _ => zero_mem_pathLengths
  have hnone : Covers edges 0 (fun _ => 0) := fun _ _ _ hlength => hlength
  refine ⟨hstart.settle passes node, ?_⟩
  rintro length ⟨path, hpath, rfl⟩
  have hless := hpath.length_lt hacyclic hnodes hnode
  exact hnone.settle passes node path hpath (by omega)

end Awman.LongestPaths
