import Awman.Library.LongestPaths
import Mathlib.Data.List.AList
import Mathlib.Data.List.GetD

/-!
# The stages of a workflow

Steps are grouped by depth: a step lies one stage below its deepest dependency.  The depths come from a
bounded number of passes over the dependencies, whatever order the steps are listed in.  Every list of
steps is divided into stages that are not empty; when no step depends on itself the stage of a step is
the length of its longest dependency path.
-/

namespace Awman.Engine

open Awman.LongestPaths

variable {steps : List (String × List String)} {depths : List ℕ} {node dep index : ℕ}

/-- The last step of each name. -/
def indexOf (steps : List (String × List String)) : AList fun _ : String => ℕ :=
  steps.zipIdx.foldl (fun indices entry => indices.insert entry.1.1 entry.2) ∅

/-- Raise the depth of a step above the depth of the step a dependency names, if it names one. -/
def raiseDepth (steps : List (String × List String)) (node : ℕ) (marks : List ℕ × Bool)
    (dep : String) : List ℕ × Bool :=
  match (indexOf steps).lookup dep with
  | none => marks
  | some d =>
    if marks.1.getD d 0 + 1 > marks.1.getD node 0 then
      (marks.1.set node (marks.1.getD d 0 + 1), true)
    else
      marks

/-- Raise the depth of each step in turn, and say whether one changed. -/
def raiseDepths (steps : List (String × List String)) (depths : List ℕ) : List ℕ × Bool :=
  steps.zipIdx.foldl (fun marks entry => entry.1.2.foldl (raiseDepth steps entry.2) marks)
    (depths, false)

/-- Raise depths until nothing changes, or the passes are used up. -/
def settleDepths (steps : List (String × List String)) : ℕ → List ℕ → List ℕ
  | 0, depths => depths
  | passes + 1, depths =>
    if (raiseDepths steps depths).2 then
      settleDepths steps passes (raiseDepths steps depths).1
    else
      (raiseDepths steps depths).1

/-- The depths the stages are read from. -/
def stepDepths (steps : List (String × List String)) : List ℕ :=
  settleDepths steps (steps.length + 1) (List.replicate steps.length 0)

/-- The steps of one depth, in definition order. -/
def stepsAtDepth (steps : List (String × List String)) (depth : ℕ) : List ℕ :=
  (List.range steps.length).filter fun index => (stepDepths steps).getD index 0 = depth

/-- Group steps, given by name and dependencies, into stages by depth. -/
def groupStages (steps : List (String × List String)) : List (List ℕ) :=
  ((List.range ((stepDepths steps).max?.getD 0 + 1)).map (stepsAtDepth steps)).filter
    fun stage => !stage.isEmpty

/-- The dependencies that name a step: the first step of each pair depends on the second. -/
def dependencyEdges (steps : List (String × List String)) : List (ℕ × ℕ) :=
  steps.zipIdx.flatMap fun entry => entry.1.2.filterMap fun dep =>
    ((indexOf steps).lookup dep).map fun d => (entry.2, d)

/-! ## Names and dependencies -/

theorem lookup_indexOf_some {name : String} (h : (indexOf steps).lookup name = some index) :
    ∃ deps, steps[index]? = some (name, deps) := by
  suffices haux : ∀ (part : List ((String × List String) × ℕ)) (indices : AList fun _ : String => ℕ),
      (∀ entry ∈ part, steps[entry.2]? = some entry.1) →
      (∀ other place, indices.lookup other = some place →
        ∃ deps, steps[place]? = some (other, deps)) →
      ∀ other place,
        (part.foldl (fun indices entry => indices.insert entry.1.1 entry.2) indices).lookup other =
          some place → ∃ deps, steps[place]? = some (other, deps) by
    refine haux steps.zipIdx ∅ ?_ ?_ name index h
    · intro entry hentry
      exact List.mem_zipIdx_iff_getElem?.mp hentry
    · intro other place hnone
      rw [AList.lookup_empty] at hnone
      cases hnone
  intro part
  induction part with
  | nil =>
    intro indices _ hindices
    exact hindices
  | cons first rest ih =>
    intro indices hpart hindices
    refine ih _ (fun entry hentry => hpart entry (List.mem_cons_of_mem _ hentry)) ?_
    intro other place hplace
    by_cases hsame : other = first.1.1
    · rw [hsame, AList.lookup_insert] at hplace
      obtain rfl : first.2 = place := Option.some.inj hplace
      exact ⟨first.1.2, by rw [hsame]; exact hpart first List.mem_cons_self⟩
    · rw [AList.lookup_insert_ne hsame] at hplace
      exact hindices other place hplace

/-- A step depends on the last step that has the name of a dependency. -/
theorem mem_dependencyEdges :
    (node, dep) ∈ dependencyEdges steps ↔
      ∃ step, steps[node]? = some step ∧
        ∃ name ∈ step.2, (indexOf steps).lookup name = some dep := by
  simp only [dependencyEdges, List.mem_flatMap, List.mem_filterMap, Option.map_eq_some_iff]
  constructor
  · rintro ⟨entry, hentry, name, hname, found, hfound, hpair⟩
    cases hpair
    exact ⟨entry.1, List.mem_zipIdx_iff_getElem?.mp hentry, name, hname, hfound⟩
  · rintro ⟨step, hstep, name, hname, hfound⟩
    exact ⟨(step, node), List.mem_zipIdx_iff_getElem?.mpr hstep, name, hname, dep, hfound, rfl⟩

theorem dependencyEdges_lt (h : (node, dep) ∈ dependencyEdges steps) :
    node < steps.length ∧ dep < steps.length := by
  obtain ⟨step, hstep, name, -, hfound⟩ := mem_dependencyEdges.mp h
  obtain ⟨deps, hdep⟩ := lookup_indexOf_some hfound
  exact ⟨(List.getElem?_eq_some_iff.mp hstep).1, (List.getElem?_eq_some_iff.mp hdep).1⟩

/-! ## The depths -/

/-- Depths in a list, as a function of the step. -/
def marksAt (marks : List ℕ × Bool) : (ℕ → ℕ) × Bool :=
  (fun index => marks.1.getD index 0, marks.2)

theorem length_raiseDepth (steps : List (String × List String)) (node : ℕ) (marks : List ℕ × Bool)
    (name : String) :
    (raiseDepth steps node marks name).1.length = marks.1.length := by
  unfold raiseDepth
  split
  · rfl
  · split
    · exact List.length_set
    · rfl

theorem getD_set {value : ℕ} (hnode : node < depths.length) :
    (fun index => (depths.set node value).getD index 0) =
      Function.update (fun index => depths.getD index 0) node value := by
  funext index
  rw [List.getD_eq_getElem?_getD, List.getElem?_set, Function.update_apply]
  by_cases hsame : index = node
  · rw [if_pos hsame.symm, if_pos hsame, if_pos hnode]
    rfl
  · rw [if_neg (Ne.symm hsame), if_neg hsame, List.getD_eq_getElem?_getD]

theorem marksAt_raiseDepth (steps : List (String × List String)) {marks : List ℕ × Bool}
    (hnode : node < marks.1.length) (name : String) :
    marksAt (raiseDepth steps node marks name) =
      match ((indexOf steps).lookup name).map fun d => (node, d) with
      | none => marksAt marks
      | some edge => relax (marksAt marks) edge := by
  unfold raiseDepth
  cases (indexOf steps).lookup name with
  | none => rfl
  | some d =>
    by_cases hraise : marks.1.getD d 0 + 1 > marks.1.getD node 0
    · have hrelax : relax (marksAt marks) (node, d) =
          (Function.update (marksAt marks).1 node (marks.1.getD d 0 + 1), true) := if_pos hraise
      simp only [Option.map_some, if_pos hraise]
      rw [hrelax, marksAt, getD_set hnode]
      rfl
    · have hrelax : relax (marksAt marks) (node, d) = marksAt marks := if_neg hraise
      simp only [Option.map_some, hrelax, if_neg hraise]

theorem marksAt_raiseDepth_foldl (steps : List (String × List String)) (deps : List String)
    {marks : List ℕ × Bool} (hnode : node < marks.1.length) :
    (deps.foldl (raiseDepth steps node) marks).1.length = marks.1.length ∧
      marksAt (deps.foldl (raiseDepth steps node) marks) =
        (deps.filterMap fun dep => ((indexOf steps).lookup dep).map fun d => (node, d)).foldl relax
          (marksAt marks) := by
  induction deps generalizing marks with
  | nil => exact ⟨rfl, rfl⟩
  | cons first rest ih =>
    have hlength := length_raiseDepth steps node marks first
    have hfirst := marksAt_raiseDepth steps hnode first
    have hnext : node < (raiseDepth steps node marks first).1.length := by omega
    obtain ⟨hrest, hmarks⟩ := ih hnext
    refine ⟨hrest.trans hlength, ?_⟩
    rw [List.foldl_cons, hmarks, hfirst, List.filterMap_cons]
    cases ((indexOf steps).lookup first).map fun d => (node, d) with
    | none | some => rfl

theorem marksAt_raiseDepths (hdepths : depths.length = steps.length) :
    (raiseDepths steps depths).1.length = steps.length ∧
      marksAt (raiseDepths steps depths) =
        pass (dependencyEdges steps) fun index => depths.getD index 0 := by
  suffices haux : ∀ (part : List ((String × List String) × ℕ)) (marks : List ℕ × Bool),
      (∀ entry ∈ part, entry.2 < steps.length) → marks.1.length = steps.length →
      (part.foldl (fun marks entry => entry.1.2.foldl (raiseDepth steps entry.2) marks)
          marks).1.length = steps.length ∧
        marksAt (part.foldl (fun marks entry => entry.1.2.foldl (raiseDepth steps entry.2) marks)
            marks) =
          (part.flatMap fun entry => entry.1.2.filterMap fun dep =>
            ((indexOf steps).lookup dep).map fun d => (entry.2, d)).foldl relax (marksAt marks) by
    refine haux steps.zipIdx (depths, false) ?_ hdepths
    intro entry hentry
    exact (List.getElem?_eq_some_iff.mp (List.mem_zipIdx_iff_getElem?.mp hentry)).1
  intro part
  induction part with
  | nil =>
    intro marks _ hmarks
    exact ⟨hmarks, rfl⟩
  | cons first rest ih =>
    intro marks hpart hmarks
    have hnode := hpart first List.mem_cons_self
    have hbound : first.2 < marks.1.length := by omega
    obtain ⟨hlength, hfirst⟩ := marksAt_raiseDepth_foldl steps first.1.2 hbound
    rw [List.foldl_cons, List.flatMap_cons, List.foldl_append, ← hfirst]
    exact ih _ (fun entry hentry => hpart entry (List.mem_cons_of_mem _ hentry))
      (hlength.trans hmarks)

theorem getD_settleDepths (passes : ℕ) (hdepths : depths.length = steps.length) :
    (settleDepths steps passes depths).length = steps.length ∧
      (fun index => (settleDepths steps passes depths).getD index 0) =
        settle (dependencyEdges steps) passes fun index => depths.getD index 0 := by
  induction passes generalizing depths with
  | zero => exact ⟨hdepths, rfl⟩
  | succ passes ih =>
    obtain ⟨hlength, hmarks⟩ := marksAt_raiseDepths hdepths
    have hflag := congrArg Prod.snd hmarks
    have hdepth := congrArg Prod.fst hmarks
    simp only [marksAt] at hflag hdepth
    by_cases hchanged : (raiseDepths steps depths).2 = true
    · rw [settleDepths, settle, if_pos hchanged, if_pos (hflag ▸ hchanged), ← hdepth]
      exact ih hlength
    · rw [settleDepths, settle, if_neg hchanged, if_neg (hflag ▸ hchanged), ← hdepth]
      exact ⟨hlength, rfl⟩

theorem length_stepDepths : (stepDepths steps).length = steps.length :=
  (getD_settleDepths _ List.length_replicate).1

theorem getD_stepDepths (index : ℕ) :
    (stepDepths steps).getD index 0 =
      settle (dependencyEdges steps) (steps.length + 1) (fun _ => 0) index := by
  have hlength : (List.replicate steps.length 0).length = steps.length := List.length_replicate
  have hsettled := (getD_settleDepths (steps.length + 1) hlength).2
  have hzero : (fun index => (List.replicate steps.length 0).getD index 0) = fun _ => 0 := by
    funext index
    simp [List.getD_eq_getElem?_getD, List.getElem?_replicate]
    split <;> rfl
  rw [hzero] at hsettled
  exact congrFun hsettled index

/-- Where no step depends on itself the depth of a step is the length of its longest path. -/
theorem stepDepths_isGreatest (hacyclic : Acyclic (dependencyEdges steps))
    (hindex : index < steps.length) :
    IsGreatest (pathLengths (dependencyEdges steps) index) ((stepDepths steps).getD index 0) := by
  rw [getD_stepDepths]
  refine settle_isGreatest hacyclic (List.range steps.length) ?_ ?_ ?_
  · intro edge hedge
    exact List.mem_range.mpr (dependencyEdges_lt hedge).2
  · rw [List.length_range]
    omega
  · exact List.mem_range.mpr hindex

/-! ## The stages -/

theorem mem_stepsAtDepth {depth : ℕ} :
    index ∈ stepsAtDepth steps depth ↔
      index < steps.length ∧ (stepDepths steps).getD index 0 = depth := by
  rw [stepsAtDepth, List.mem_filter, List.mem_range, decide_eq_true_eq]

theorem stepDepths_le_max (hindex : index < steps.length) :
    (stepDepths steps).getD index 0 ≤ (stepDepths steps).max?.getD 0 := by
  have hbound : index < (stepDepths steps).length := length_stepDepths.symm ▸ hindex
  rw [List.getD_eq_getElem _ _ hbound]
  exact List.le_max?_getD_of_mem (List.getElem_mem hbound)

/-- Every step lies in exactly one stage. -/
theorem groupStages_perm : (groupStages steps).flatten.Perm (List.range steps.length) := by
  have hdisjoint : (groupStages steps).Pairwise List.Disjoint := by
    refine List.Pairwise.filter _ (List.pairwise_map.mpr ?_)
    refine List.nodup_range.imp ?_
    intro first second hne index hfirst hsecond
    exact hne ((mem_stepsAtDepth.mp hfirst).2.symm.trans (mem_stepsAtDepth.mp hsecond).2)
  have hnodup : (groupStages steps).flatten.Nodup := by
    refine List.nodup_flatten.mpr ⟨?_, hdisjoint⟩
    intro stage hstage
    obtain ⟨depth, -, rfl⟩ := List.mem_map.mp (List.mem_of_mem_filter hstage)
    exact List.nodup_range.filter _
  refine (List.perm_ext_iff_of_nodup hnodup List.nodup_range).mpr fun index => ?_
  rw [List.mem_flatten, List.mem_range]
  constructor
  · rintro ⟨stage, hstage, hindex⟩
    obtain ⟨depth, -, rfl⟩ := List.mem_map.mp (List.mem_of_mem_filter hstage)
    exact (mem_stepsAtDepth.mp hindex).1
  · intro hindex
    have hmem : index ∈ stepsAtDepth steps ((stepDepths steps).getD index 0) :=
      mem_stepsAtDepth.mpr ⟨hindex, rfl⟩
    have hle := stepDepths_le_max hindex
    refine ⟨_, List.mem_filter.mpr ⟨List.mem_map.mpr ⟨_, List.mem_range.mpr (by omega), rfl⟩, ?_⟩, hmem⟩
    rw [Bool.not_eq_true', List.isEmpty_eq_false_iff]
    exact List.ne_nil_of_mem hmem

/-- Where no step depends on itself no depth is skipped. -/
theorem exists_step_at_depth (hacyclic : Acyclic (dependencyEdges steps)) (depth : ℕ)
    (hindex : index < steps.length) (hdepth : depth ≤ (stepDepths steps).getD index 0) :
    ∃ other, other ∈ stepsAtDepth steps depth := by
  generalize hown : (stepDepths steps).getD index 0 = own at hdepth
  induction own generalizing index with
  | zero =>
    obtain rfl : depth = 0 := by omega
    exact ⟨index, mem_stepsAtDepth.mpr ⟨hindex, hown⟩⟩
  | succ own ih =>
    by_cases hsame : depth = own + 1
    · exact ⟨index, mem_stepsAtDepth.mpr ⟨hindex, hown.trans hsame.symm⟩⟩
    · have hgreatest := stepDepths_isGreatest hacyclic hindex
      rw [hown] at hgreatest
      obtain ⟨dep, hedge, hdep⟩ := exists_dep_of_isGreatest hgreatest
      have hbound := (dependencyEdges_lt hedge).2
      have hdeeper := (stepDepths_isGreatest hacyclic hbound).unique hdep
      exact ih hbound hdeeper (by omega)

/-- Where no step depends on itself the stages are the depths. -/
theorem groupStages_getElem? (hacyclic : Acyclic (dependencyEdges steps)) {depth : ℕ} {stage : List ℕ}
    (h : (groupStages steps)[depth]? = some stage) :
    stage = stepsAtDepth steps depth := by
  by_cases hnone : steps = []
  · subst hnone
    cases h
  · have hlong : (stepDepths steps) ≠ [] := by
      rw [← List.length_pos_iff, length_stepDepths]
      exact List.length_pos_iff.mpr hnone
    have hall : ∀ stage ∈ (List.range ((stepDepths steps).max?.getD 0 + 1)).map (stepsAtDepth steps),
        (!stage.isEmpty) = true := by
      intro stage hstage
      obtain ⟨depth, hdepth, rfl⟩ := List.mem_map.mp hstage
      obtain ⟨deepest, hdeepest⟩ := Option.ne_none_iff_exists'.mp (mt List.max?_eq_none_iff.mp hlong)
      have hmem := (List.max?_eq_some_iff.mp hdeepest).1
      obtain ⟨index, hbound, hvalue⟩ := List.getElem_of_mem hmem
      rw [List.mem_range, hdeepest, Option.getD_some] at hdepth
      have hindex : index < steps.length := length_stepDepths ▸ hbound
      have hvalueD : (stepDepths steps).getD index 0 = deepest := by
        rw [List.getD_eq_getElem _ _ hbound, hvalue]
      obtain ⟨other, hother⟩ := exists_step_at_depth hacyclic depth hindex (by omega)
      rw [Bool.not_eq_true', List.isEmpty_eq_false_iff]
      exact List.ne_nil_of_mem hother
    rw [groupStages, List.filter_eq_self.mpr hall, List.getElem?_map, Option.map_eq_some_iff] at h
    obtain ⟨place, hplace, rfl⟩ := h
    obtain ⟨hless, hvalue⟩ := List.getElem?_eq_some_iff.mp hplace
    rw [List.getElem_range] at hvalue
    rw [hvalue]

/-- The stages divide the indices of the steps, none is empty and each is in definition order.  Where
no step depends on itself, the stage of a step is the length of its longest dependency path, and what it
depends on lies in an earlier stage. -/
theorem groupStages_spec (steps : List (String × List String)) :
    (groupStages steps).flatten.Perm (List.range steps.length) ∧
    (∀ stage ∈ groupStages steps, stage ≠ [] ∧ stage.Pairwise (· < ·)) ∧
    (Acyclic (dependencyEdges steps) →
      (∀ depth stage, (groupStages steps)[depth]? = some stage → ∀ index ∈ stage,
        IsGreatest (pathLengths (dependencyEdges steps) index) depth) ∧
      ∀ index dep, (index, dep) ∈ dependencyEdges steps →
        ∀ depth stage, (groupStages steps)[depth]? = some stage → index ∈ stage →
          ∃ (earlier : ℕ) (below : List ℕ), earlier < depth ∧
            (groupStages steps)[earlier]? = some below ∧ dep ∈ below) := by
  refine ⟨groupStages_perm, ?_, ?_⟩
  · intro stage hstage
    obtain ⟨hmem, hnonempty⟩ := List.mem_filter.mp hstage
    obtain ⟨depth, -, rfl⟩ := List.mem_map.mp hmem
    rw [Bool.not_eq_true', List.isEmpty_eq_false_iff] at hnonempty
    exact ⟨hnonempty, List.pairwise_lt_range.filter _⟩
  · intro hacyclic
    have hlongest : ∀ depth stage, (groupStages steps)[depth]? = some stage → ∀ index ∈ stage,
        IsGreatest (pathLengths (dependencyEdges steps) index) depth := by
      intro depth stage hstage index hindex
      rw [groupStages_getElem? hacyclic hstage] at hindex
      obtain ⟨hbound, hdepth⟩ := mem_stepsAtDepth.mp hindex
      have hgreatest := stepDepths_isGreatest hacyclic hbound
      rw [hdepth] at hgreatest
      exact hgreatest
    refine ⟨hlongest, ?_⟩
    intro index dep hedge depth stage hstage hindex
    have hbound := (dependencyEdges_lt hedge).2
    have hmem : dep ∈ (groupStages steps).flatten :=
      groupStages_perm.mem_iff.mpr (List.mem_range.mpr hbound)
    obtain ⟨below, hbelow, hdep⟩ := List.mem_flatten.mp hmem
    obtain ⟨earlier, hearlier⟩ := List.mem_iff_getElem?.mp hbelow
    have hless := isGreatest_lt hedge (hlongest depth stage hstage index hindex)
      (hlongest earlier below hearlier dep hdep)
    exact ⟨earlier, below, hless, hearlier, hdep⟩

/-- Steps listed from the last to the first: every pass but one raises a depth. -/
theorem groupStages_worst_order :
    let steps := [("c", ["b"]), ("b", ["a", "missing"]), ("a", [])]
    groupStages steps = [[2], [1], [0]] ∧
      IsGreatest (pathLengths (dependencyEdges steps) 0) 2 := by
  have hedges : dependencyEdges [("c", ["b"]), ("b", ["a", "missing"]), ("a", [])] =
      [(0, 1), (1, 2)] := by decide
  have hstages : groupStages [("c", ["b"]), ("b", ["a", "missing"]), ("a", [])] =
      [[2], [1], [0]] := by decide
  refine ⟨hstages, ((groupStages_spec _).2.2 ?_).1 2 [0] ?_ 0 (by simp)⟩
  · intro node hcycle
    have hless : ∀ first second, Relation.TransGen
        (Edge (dependencyEdges [("c", ["b"]), ("b", ["a", "missing"]), ("a", [])])) first second →
        first < second := by
      intro first second htrans
      induction htrans with
      | single hedge | tail _ hedge ih =>
        rw [Edge, hedges] at hedge
        simp at hedge
        omega
    exact (hless node node hcycle).false
  · rw [hstages]
    rfl

end Awman.Engine
