import Awman.WorkflowDag
import Mathlib.Data.List.Dedup

/-!
# Which step lists are accepted, and their order

A list of steps is accepted if and only if every dependency names a step and no chain of dependencies
returns to its start.  When several steps have one name, the last of them says what the name depends
on, though a name should stand for one step: only lists with distinct names are built as they are
declared.  The order lists every name once, after its dependencies, and completing ready steps in
any portions completes them all.
-/

namespace Awman.Engine

open Awman.Checks Awman.DepthFirst

variable {steps : List WorkflowStep} {dag : WorkflowDag} {name dep : String}

/-- The step a name stands for: the last one of that name. -/
def stepNamed (steps : List WorkflowStep) (name : String) : Option WorkflowStep :=
  steps.reverse.find? (·.name = name)

/-- The name depends directly on another. -/
def Depends (steps : List WorkflowStep) (dep name : String) : Prop :=
  ∃ step, stepNamed steps name = some step ∧ dep ∈ step.dependsOn

/-- A step of the name declares that it depends on another. -/
def Declares (steps : List WorkflowStep) (dep name : String) : Prop :=
  ∃ step ∈ steps, step.name = name ∧ dep ∈ step.dependsOn

/-- Every dependency names a step of the list. -/
def ReferencesSteps (steps : List WorkflowStep) : Prop :=
  ∀ step ∈ steps, ∀ dep ∈ step.dependsOn, dep ∈ steps.map WorkflowStep.name

/-- A step is completed, or several that are ready; nothing happens when none is ready. -/
def WorkflowDag.Completes (dag : WorkflowDag) (completed next : Finset String) : Prop :=
  dag.readySteps completed = [] ∧ next = completed ∨
    ∃ portion : Finset String, portion.Nonempty ∧ (∀ name ∈ portion, name ∈ dag.readySteps completed) ∧
      next = completed ∪ portion

/-! ## The dependencies of a name -/

/-- The recorded dependencies are those of the last step of the name. -/
theorem lookup_edgesOf_eq (steps : List WorkflowStep) (name : String) :
    (edgesOf steps).lookup name = (stepNamed steps name).map WorkflowStep.dependsOn := by
  suffices haux : ∀ (rest : List WorkflowStep) (edges : AList (fun _ : String => List String)),
      (rest.foldl (fun edges step => edges.insert step.name step.dependsOn) edges).lookup name =
        ((rest.reverse.find? (·.name = name)).map WorkflowStep.dependsOn).or
          (edges.lookup name) by
    have hstart := haux steps ∅
    rw [AList.lookup_empty, Option.or_none] at hstart
    exact hstart
  intro rest
  induction rest with
  | nil =>
    intro edges
    rfl
  | cons first rest ih =>
    intro edges
    rw [List.foldl_cons, ih, List.reverse_cons, List.find?_append]
    cases hfound : rest.reverse.find? (·.name = name) with
    | some step => rfl
    | none =>
      by_cases hname : first.name = name
      · rw [← hname, AList.lookup_insert]
        simp
      · rw [AList.lookup_insert_ne (Ne.symm hname)]
        simp [hname]

theorem steps_edgesOf_iff :
    Steps (dependenciesIn (edgesOf steps)) dep name ↔ Depends steps dep name := by
  rw [Steps, dependenciesIn, lookup_edgesOf_eq, Depends]
  cases stepNamed steps name with
  | none | some => simp

theorem mem_of_stepNamed {step : WorkflowStep} (h : stepNamed steps name = some step) :
    step ∈ steps ∧ step.name = name := by
  rw [stepNamed] at h
  have hname := List.find?_some h
  exact ⟨List.mem_reverse.mp (List.mem_of_find?_eq_some h), of_decide_eq_true hname⟩

/-- A name depends on nothing but what its steps declare. -/
theorem Depends.declares (h : Depends steps dep name) : Declares steps dep name := by
  obtain ⟨step, hstep, hdep⟩ := h
  obtain ⟨hmem, hname⟩ := mem_of_stepNamed hstep
  exact ⟨step, hmem, hname, hdep⟩

/-- When no two steps have one name, a name depends on what its step depends on. -/
theorem depends_iff_of_nodup (hnodup : (steps.map WorkflowStep.name).Nodup) :
    Depends steps dep name ↔ Declares steps dep name := by
  constructor
  · exact Depends.declares
  · rintro ⟨step, hstep, hname, hdep⟩
    cases hfound : stepNamed steps name with
    | none =>
      have hnot := List.find?_eq_none.mp hfound step (List.mem_reverse.mpr hstep)
      exact absurd (decide_eq_true hname) hnot
    | some found =>
      obtain ⟨hmem, hfoundName⟩ := mem_of_stepNamed hfound
      obtain rfl : step = found :=
        List.inj_on_of_nodup_map hnodup hstep hmem (hname.trans hfoundName.symm)
      exact ⟨step, hfound, hdep⟩

/-! ## Acceptance -/

theorem validateReferences_iff : validateReferences steps = .ok () ↔ ReferencesSteps steps := by
  constructor
  · exact validateReferences_ok
  · intro hrefs
    refine forM_ok.mpr fun step hstep => forM_ok.mpr fun dep hdep => ?_
    rw [if_pos (hrefs step hstep dep hdep)]

/-- With valid references, a cycle is found if and only if there is one. -/
theorem detectCycle_iff (hrefs : ReferencesSteps steps) :
    detectCycle steps = .ok () ↔ ∀ name, ¬Relation.TransGen (Depends steps) name name := by
  have hsame : Steps (dependenciesIn (edgesOf steps)) = Depends steps := by
    funext dep name
    exact propext steps_edgesOf_iff
  constructor
  · intro hok name hcycle
    have hwf := detectCycle_ok hok
    rw [hsame] at hwf
    exact hwf.transGen.irrefl.irrefl name hcycle
  · intro hacyclic
    rw [← hsame] at hacyclic
    have hclosed : ∀ name ∈ (steps.map WorkflowStep.name).toFinset,
        ∀ dep ∈ dependenciesIn (edgesOf steps) name,
          dep ∈ (steps.map WorkflowStep.name).toFinset := by
      intro name hname dep hdep
      obtain ⟨step, hstep, hmem⟩ := steps_edgesOf_iff.mp hdep
      exact List.mem_toFinset.mpr (hrefs step (mem_of_stepNamed hstep).1 dep hmem)
    have hcard : (steps.map WorkflowStep.name).toFinset.card ≤ steps.length + 1 := by
      have hle := List.toFinset_card_le (steps.map WorkflowStep.name)
      rw [List.length_map] at hle
      omega
    have hnames : ∀ name ∈ steps.map WorkflowStep.name,
        name ∈ (steps.map WorkflowStep.name).toFinset :=
      fun name hname => List.mem_toFinset.mpr hname
    obtain ⟨explored, hsearch⟩ := searchFrom_complete hacyclic hclosed hcard hnames
    rw [detectCycle, cycleDfs, hsearch]

/-- A list is accepted if and only if its references are valid and nothing depends on itself. -/
theorem WorkflowDag.build_iff :
    (∃ dag, WorkflowDag.build steps = .ok dag) ↔
      ReferencesSteps steps ∧ ∀ name, ¬Relation.TransGen (Depends steps) name name := by
  constructor
  · rintro ⟨dag, hbuild⟩
    unfold build at hbuild
    split at hbuild
    · cases hbuild
    · rename_i hrefs
      split at hbuild
      · cases hbuild
      · rename_i hcycle
        have hreferences := validateReferences_iff.mp hrefs
        exact ⟨hreferences, (detectCycle_iff hreferences).mp hcycle⟩
  · rintro ⟨hrefs, hacyclic⟩
    have hok := validateReferences_iff.mpr hrefs
    have hcycle := (detectCycle_iff hrefs).mpr hacyclic
    unfold build
    split
    · rename_i error herror
      rw [hok] at herror
      cases herror
    · split
      · rename_i error herror
        rw [hcycle] at herror
        cases herror
      · exact ⟨_, rfl⟩

namespace WorkflowDag

theorem mem_dependsOn_iff (h : build steps = .ok dag) :
    dep ∈ dag.dependsOn name ↔ Depends steps dep name := by
  rw [dependsOn, build_edges h]
  exact steps_edgesOf_iff

/-! ## The order -/

/-- The order lists each name once. -/
theorem topologicalOrder_perm (dag : WorkflowDag) : dag.topologicalOrder.Perm dag.order.dedup := by
  refine (List.perm_ext_iff_of_nodup dag.topologicalOrder_arranged.nodup
    (List.nodup_dedup dag.order)).mpr fun name => ?_
  rw [List.mem_dedup]
  exact mem_topologicalOrder

/-- The order lists a name after what it depends on. -/
theorem topologicalOrder_sorted {before after : List String}
    (hsplit : dag.topologicalOrder = before ++ name :: after) (hdep : dep ∈ dag.dependsOn name) :
    dep ∈ before := by
  refine dag.topologicalOrder_arranged.sorted hsplit dep hdep ?_
  rw [AList.lookup_isSome, dag.mem_edges]
  exact dag.closed name dep hdep

/-! ## Completing ready steps -/

/-- Steps that are completed stay completed. -/
theorem Completes.mono {completed next : Finset String} (h : dag.Completes completed next) :
    completed ⊆ next := by
  rcases h with ⟨-, rfl⟩ | ⟨portion, -, -, rfl⟩
  · exact Finset.Subset.refl _
  · exact Finset.subset_union_left

/-- As long as a step is not completed, a portion of ready steps leaves fewer. -/
theorem Completes.fewer {completed next : Finset String} (h : dag.Completes completed next)
    (hopen : (dag.order.toFinset \ completed).Nonempty) :
    (dag.order.toFinset \ next).card < (dag.order.toFinset \ completed).card := by
  obtain ⟨name, hname⟩ := hopen
  obtain ⟨hmem, hnot⟩ := Finset.mem_sdiff.mp hname
  rcases h with ⟨hnone, -⟩ | ⟨portion, ⟨first, hfirst⟩, hready, rfl⟩
  · exact absurd hnone (readySteps_ne_nil (List.mem_toFinset.mp hmem) hnot)
  · obtain ⟨hfirstMem, hfirstOpen, -⟩ := mem_readySteps.mp (hready first hfirst)
    refine Finset.card_lt_card ((Finset.ssubset_iff_of_subset ?_).mpr ⟨first, ?_, ?_⟩)
    · exact Finset.sdiff_subset_sdiff (Finset.Subset.refl _) Finset.subset_union_left
    · exact Finset.mem_sdiff.mpr ⟨List.mem_toFinset.mpr hfirstMem, hfirstOpen⟩
    · simp [hfirst]

/-- Completing ready steps in any portions completes every step, in as many portions as there are
steps at most. -/
theorem completes_all {states : Nat → Finset String}
    (hstates : ∀ count, dag.Completes (states count) (states (count + 1))) :
    dag.order.toFinset ⊆ states dag.order.length := by
  have hleft : ∀ count, (dag.order.toFinset \ states count).card + count ≤ dag.order.length ∨
      dag.order.toFinset ⊆ states count := by
    intro count
    induction count with
    | zero =>
      have hcard := Finset.card_le_card
        (Finset.sdiff_subset : dag.order.toFinset \ states 0 ⊆ dag.order.toFinset)
      have hle := List.toFinset_card_le dag.order
      exact Or.inl (by omega)
    | succ count ih =>
      by_cases hopen : (dag.order.toFinset \ states count).Nonempty
      · have hfewer := (hstates count).fewer hopen
        rcases ih with hcard | hall
        · exact Or.inl (by omega)
        · exact Or.inr (hall.trans (hstates count).mono)
      · rw [Finset.not_nonempty_iff_eq_empty, Finset.sdiff_eq_empty_iff_subset] at hopen
        exact Or.inr (hopen.trans (hstates count).mono)
  rcases hleft dag.order.length with hcard | hall
  · have hnone : (dag.order.toFinset \ states dag.order.length).card = 0 := by omega
    exact Finset.sdiff_eq_empty_iff_subset.mp (Finset.card_eq_zero.mp hnone)
  · exact hall

/-- A list of steps is accepted if and only if every dependency names a step and no name depends on
itself, where the last step of a name says what the name depends on; with distinct names that is what
its step says.  The order of an accepted list is a permutation of its names in which each comes after
its dependencies; a step that is not completed leaves a ready one, and completing ready steps in any
portions completes them all. -/
theorem build_spec (steps : List WorkflowStep) :
    ((∃ dag, build steps = .ok dag) ↔
      ReferencesSteps steps ∧ ∀ name, ¬Relation.TransGen (Depends steps) name name) ∧
    ((steps.map WorkflowStep.name).Nodup → ∀ dep name,
      Depends steps dep name ↔ Declares steps dep name) ∧
    ∀ dag, build steps = .ok dag →
      dag.topologicalOrder.Perm (steps.map WorkflowStep.name).dedup ∧
      (∀ before name after, dag.topologicalOrder = before ++ name :: after →
        ∀ dep, Depends steps dep name → dep ∈ before) ∧
      (∀ completed, (∃ step ∈ steps, step.name ∉ completed) → dag.readySteps completed ≠ []) ∧
      ∀ states : Nat → Finset String,
        (∀ count, dag.Completes (states count) (states (count + 1))) →
        ∀ step ∈ steps, step.name ∈ states steps.length := by
  refine ⟨build_iff, fun hnodup dep name => depends_iff_of_nodup hnodup, ?_⟩
  intro dag hbuild
  have horder := build_order hbuild
  refine ⟨?_, ?_, ?_, ?_⟩
  · rw [← horder]
    exact dag.topologicalOrder_perm
  · intro before name after hsplit dep hdep
    exact topologicalOrder_sorted hsplit ((mem_dependsOn_iff hbuild).mpr hdep)
  · rintro completed ⟨step, hstep, hopen⟩
    refine readySteps_ne_nil ?_ hopen
    rw [horder]
    exact List.mem_map_of_mem hstep
  · intro states hstates step hstep
    have hall := completes_all hstates
    rw [horder, List.length_map] at hall
    exact hall (List.mem_toFinset.mpr (List.mem_map_of_mem hstep))

/-- A list of steps is built as it is declared: it is accepted if and only if every dependency names a
step and no step depends on itself through others, and then the order is a permutation of the steps
in which each comes after its dependencies, a step that is not completed leaves a ready one, and
completing ready steps in any portions completes them all. -/
structure BuiltAsDeclared (steps : List WorkflowStep) : Prop where
  accepted : (∃ dag, build steps = .ok dag) ↔
    ReferencesSteps steps ∧ ∀ name, ¬Relation.TransGen (Declares steps) name name
  listed : ∀ dag, build steps = .ok dag →
    dag.topologicalOrder.Perm (steps.map WorkflowStep.name)
  sorted : ∀ dag, build steps = .ok dag → ∀ before name after,
    dag.topologicalOrder = before ++ name :: after → ∀ dep, Declares steps dep name → dep ∈ before
  ready : ∀ dag, build steps = .ok dag → ∀ completed,
    (∃ step ∈ steps, step.name ∉ completed) → dag.readySteps completed ≠ []
  /-- Completing portions of ready steps comes to an end with every step completed. -/
  completing : ∀ dag, build steps = .ok dag → ∀ states : Nat → Finset String,
    (∀ count, dag.Completes (states count) (states (count + 1))) →
    ∀ step ∈ steps, step.name ∈ states steps.length

/-- A list of steps is built as it is declared if and only if its names are distinct, or the last
steps of its names are enough to reject it. -/
theorem builtAsDeclared_iff (steps : List WorkflowStep) :
    BuiltAsDeclared steps ↔ (steps.map WorkflowStep.name).Nodup ∨
      ¬(ReferencesSteps steps ∧ ∀ name, ¬Relation.TransGen (Depends steps) name name) := by
  obtain ⟨haccepted, hdistinct, hbuilt⟩ := build_spec steps
  constructor
  · intro h
    by_cases hok : ReferencesSteps steps ∧ ∀ name, ¬Relation.TransGen (Depends steps) name name
    · obtain ⟨dag, hbuild⟩ := haccepted.mpr hok
      exact Or.inl ((h.listed dag hbuild).nodup_iff.mp dag.topologicalOrder_arranged.nodup)
    · exact Or.inr hok
  · rintro (hnodup | hrejected)
    · have hsame : Depends steps = Declares steps := by
        funext dep name
        exact propext (hdistinct hnodup dep name)
      rw [hsame] at haccepted hbuilt
      refine ⟨haccepted, ?_, ?_, ?_, ?_⟩
      · intro dag hbuild
        rw [← List.dedup_eq_self.mpr hnodup]
        exact (hbuilt dag hbuild).1
      · exact fun dag hbuild => (hbuilt dag hbuild).2.1
      · exact fun dag hbuild => (hbuilt dag hbuild).2.2.1
      · exact fun dag hbuild => (hbuilt dag hbuild).2.2.2
    · have hnone : ∀ dag, build steps ≠ .ok dag :=
        fun dag hbuild => hrejected (haccepted.mp ⟨dag, hbuild⟩)
      refine ⟨⟨?_, ?_⟩, ?_, ?_, ?_, ?_⟩
      · rintro ⟨dag, hbuild⟩
        exact absurd hbuild (hnone dag)
      · rintro ⟨hrefs, hacyclic⟩
        refine absurd ⟨hrefs, fun name hcycle => hacyclic name ?_⟩ hrejected
        exact Relation.TransGen.mono (fun _ _ => Depends.declares) name name hcycle
      all_goals exact fun dag hbuild => absurd hbuild (hnone dag)

/-- Two steps of one name: the first depends on a step that depends on it, and the list is accepted,
because the second one has no dependencies; the order lists the name once. -/
theorem repeated_name_accepted :
    let steps : List WorkflowStep := [{ name := "a", dependsOn := ["b"] }, { name := "a" },
      { name := "b", dependsOn := ["a"] }]
    (match build steps with
      | .error _ => none
      | .ok dag => some dag.topologicalOrder) = some ["a", "b"] ∧
      Relation.TransGen (Declares steps) "a" "a" := by
  refine ⟨by decide, ?_⟩
  refine .tail (b := "b") (.single ?_) ?_
  · exact ⟨{ name := "b", dependsOn := ["a"] }, by decide, rfl, by decide⟩
  · exact ⟨{ name := "a", dependsOn := ["b"] }, by decide, rfl, by decide⟩

end WorkflowDag

end Awman.Engine
