import Awman.WorkflowHistory

/-!
# Completed steps and their dependencies

A set of completed steps is closed if it holds the dependencies of each of its steps.  Completing a
ready step and resetting a step nobody has built on keep it closed, and so does going back from a
group, which resets everything downstream.  A board of a single step or of a failed step sends only
that step and the one before it back, which keeps the set closed only if no other completed step
depends on the one before.
-/

namespace Awman.Engine

open Awman.Interaction Awman.DepthFirst WorkflowState

namespace WorkflowDag

variable {dag : WorkflowDag} {steps : List WorkflowStep} {name dep : String}

theorem topologicalOrder_nodup : dag.topologicalOrder.Nodup :=
  dag.topologicalOrder_arranged.nodup

theorem dependsOn_order (hdep : dep ∈ dag.dependsOn name) : name ∈ dag.order ∧ dep ∈ dag.order := by
  refine ⟨?_, dag.closed name dep hdep⟩
  rw [← dag.mem_edges, ← AList.lookup_isSome]
  by_contra hnone
  rw [Bool.not_eq_true, Option.isSome_eq_false_iff, Option.isNone_iff_eq_none] at hnone
  simp [dependsOn, dependenciesIn, hnone] at hdep

/-- A dependency comes before its dependent. -/
theorem idxOf_dependsOn (hdep : dep ∈ dag.dependsOn name) :
    dag.topologicalOrder.idxOf dep < dag.topologicalOrder.idxOf name := by
  obtain ⟨hname, horder⟩ := dependsOn_order hdep
  obtain ⟨earlier, later, hsplit⟩ :=
    List.append_of_mem (mem_topologicalOrder.mpr hname)
  have hknown : (dag.edges.lookup dep).isSome := by
    rw [AList.lookup_isSome, dag.mem_edges]
    exact horder
  have hbefore : dep ∈ earlier := dag.topologicalOrder_arranged.sorted hsplit dep hdep hknown
  have hnodup := dag.topologicalOrder_nodup
  rw [hsplit] at hnodup ⊢
  have hfresh : name ∉ earlier := by
    intro hmem
    exact (List.nodup_append.mp hnodup).2.2 name hmem name List.mem_cons_self rfl
  rw [List.idxOf_append_of_mem hbefore, List.idxOf_append_of_notMem hfresh, List.idxOf_cons_self]
  have hless := List.idxOf_lt_length_of_mem hbefore
  omega

end WorkflowDag

/-- The dependencies of every completed step are completed. -/
def DependencyClosed (dag : WorkflowDag) (completed : Finset String) : Prop :=
  ∀ name ∈ completed, ∀ dep ∈ dag.dependsOn name, dep ∈ completed

instance (dag : WorkflowDag) (completed : Finset String) :
    Decidable (DependencyClosed dag completed) :=
  inferInstanceAs (Decidable (∀ name ∈ completed, ∀ dep ∈ dag.dependsOn name, dep ∈ completed))

/-- The completed set is closed, and neither a completed step nor a step at work builds on the
steps at work. -/
structure FreeToReset (dag : WorkflowDag) (names : List String) (completed : Finset String) :
    Prop where
  closed : DependencyClosed dag completed
  free : ∀ name ∈ names, ∀ other ∈ completed, name ∉ dag.dependsOn other
  /-- No step at work depends on another one. -/
  apart : ∀ name ∈ names, ∀ other ∈ names, name ∉ dag.dependsOn other
  /-- The steps at work are steps of the graph. -/
  known : ∀ name ∈ names, name ∈ dag.order

/-- In addition what the steps at work depend on is completed. -/
structure FreeToComplete (dag : WorkflowDag) (names : List String) (completed : Finset String) :
    Prop extends FreeToReset dag names completed where
  met : ∀ name ∈ names, ∀ dep ∈ dag.dependsOn name, dep ∈ completed

section Sets

variable {dag : WorkflowDag} {names : List String} {completed : Finset String}
  {state : WorkflowState} {name : String} {status : StepState}

theorem FreeToReset.nil (h : DependencyClosed dag completed) : FreeToReset dag [] completed :=
  ⟨h, fun _ hname => (nomatch hname), fun _ hname => (nomatch hname),
    fun _ hname => (nomatch hname)⟩

/-- Ready steps may be worked on. -/
theorem FreeToComplete.ready (h : DependencyClosed dag completed)
    (hready : ∀ name ∈ names, name ∈ dag.readySteps completed) :
    FreeToComplete dag names completed := by
  have hspec : ∀ name ∈ names, name ∈ dag.order ∧ name ∉ completed ∧
      ∀ dep ∈ dag.dependsOn name, dep ∈ completed :=
    fun name hname => WorkflowDag.mem_readySteps.mp (hready name hname)
  refine ⟨⟨h, ?_, ?_, fun name hname => (hspec name hname).1⟩,
    fun name hname => (hspec name hname).2.2⟩
  · intro name hname other hother hdep
    exact (hspec name hname).2.1 (h other hother name hdep)
  · intro name hname other hother hdep
    exact (hspec name hname).2.1 ((hspec other hother).2.2 name hdep)

theorem mem_completedSteps_setStatuses {other : String} :
    other ∈ (state.setStatuses names status).completedSteps ↔
      if other ∈ names then status.isCompleted = true else other ∈ state.completedSteps := by
  induction names generalizing state with
  | nil => simp [setStatuses]
  | cons first rest ih =>
    rw [setStatuses, List.foldl_cons, ← setStatuses, ih, mem_completedSteps_setStatus]
    by_cases hrest : other ∈ rest
    · simp [hrest]
    · by_cases hfirst : other = first
      · simp [hfirst]
      · simp [hrest, hfirst]

/-- Resetting a step nobody builds on keeps the set closed. -/
theorem FreeToReset.reset (h : FreeToReset dag names state.completedSteps) (hname : name ∈ names)
    (hstatus : status.isCompleted = false) :
    FreeToReset dag names (state.setStatus name status).completedSteps := by
  have hsub : ∀ {other}, other ∈ (state.setStatus name status).completedSteps →
      other ≠ name ∧ other ∈ state.completedSteps := by
    intro other hother
    rw [mem_completedSteps_setStatus] at hother
    split at hother
    · simp [hstatus] at hother
    · exact ⟨‹_›, hother⟩
  refine ⟨?_, fun first hfirst other hother => h.free first hfirst other (hsub hother).2, h.apart,
    h.known⟩
  intro other hother dep hdep
  have hold := (hsub hother).2
  have hne : dep ≠ name := by
    rintro rfl
    exact h.free dep hname other hold hdep
  rw [mem_completedSteps_setStatus, if_neg hne]
  exact h.closed other hold dep hdep

/-- Completing a step whose dependencies are completed keeps the set closed. -/
theorem DependencyClosed.complete (h : DependencyClosed dag state.completedSteps)
    (hmet : ∀ dep ∈ dag.dependsOn name, dep ∈ state.completedSteps)
    (hstatus : status.isCompleted = true) :
    DependencyClosed dag (state.setStatus name status).completedSteps := by
  have hgrows : ∀ {other}, other ∈ state.completedSteps →
      other ∈ (state.setStatus name status).completedSteps := by
    intro other hother
    rw [mem_completedSteps_setStatus]
    split
    · exact hstatus
    · exact hother
  intro other hother dep hdep
  rw [mem_completedSteps_setStatus] at hother
  by_cases heq : other = name
  · subst heq
    exact hgrows (hmet dep hdep)
  · rw [if_neg heq] at hother
    exact hgrows (h other hother dep hdep)

theorem FreeToReset.complete (h : FreeToReset dag names state.completedSteps) (hname : name ∈ names)
    (hmet : ∀ dep ∈ dag.dependsOn name, dep ∈ state.completedSteps)
    (hstatus : status.isCompleted = true) :
    FreeToReset dag names (state.setStatus name status).completedSteps := by
  refine ⟨h.closed.complete hmet hstatus, ?_, h.apart, h.known⟩
  intro first hfirst other hother
  rw [mem_completedSteps_setStatus] at hother
  by_cases heq : other = name
  · subst heq
    exact h.apart first hfirst other hname
  · rw [if_neg heq] at hother
    exact h.free first hfirst other hother

/-- A step at work may get any status. -/
theorem FreeToComplete.setStatus (h : FreeToComplete dag names state.completedSteps)
    (hname : name ∈ names) :
    FreeToComplete dag names (state.setStatus name status).completedSteps := by
  have hmet : ∀ other ∈ names, ∀ dep ∈ dag.dependsOn other,
      dep ∈ (state.setStatus name status).completedSteps := by
    intro other hother dep hdep
    have hne : dep ≠ name := by
      rintro rfl
      exact h.apart dep hname other hother hdep
    rw [mem_completedSteps_setStatus, if_neg hne]
    exact h.met other hother dep hdep
  cases hstatus : status.isCompleted with
  | false => exact ⟨h.toFreeToReset.reset hname hstatus, hmet⟩
  | true =>
    exact ⟨h.toFreeToReset.complete hname (h.met name hname) hstatus, hmet⟩

/-- Resetting a set of steps keeps the set closed if no completed step outside it depends on it. -/
theorem DependencyClosed.resetAll (h : DependencyClosed dag state.completedSteps)
    (hstatus : status.isCompleted = false)
    (houtside : ∀ other ∈ state.completedSteps, other ∉ names →
      ∀ dep ∈ dag.dependsOn other, dep ∉ names) :
    DependencyClosed dag (state.setStatuses names status).completedSteps := by
  intro other hother dep hdep
  rw [mem_completedSteps_setStatuses] at hother
  split at hother
  · simp [hstatus] at hother
  · rename_i hmem
    rw [mem_completedSteps_setStatuses, if_neg (houtside other hother hmem dep hdep)]
    exact h other hother dep hdep

/-- Recording a status of steps that are not completed changes nothing. -/
theorem completedSteps_setStatuses_open (hstatus : status.isCompleted = false)
    (hopen : ∀ name ∈ names, name ∉ state.completedSteps) :
    (state.setStatuses names status).completedSteps = state.completedSteps := by
  ext other
  rw [mem_completedSteps_setStatuses]
  split
  · rename_i hmem
    simp [hstatus, hopen other hmem]
  · rfl

end Sets

section GoingBack

variable {engine : WorkflowEngine} {members : List String} {name dep : String}

/-- The recorded dependencies of a step are those of a step of the definition. -/
theorem dependsOn_step (hdep : dep ∈ engine.dag.dependsOn name) :
    ∃ step ∈ engine.workflow.steps, step.name = name ∧ dep ∈ step.dependsOn := by
  rw [WorkflowDag.dependsOn, WorkflowDag.build_edges engine.built, dependenciesIn] at hdep
  cases hlookup : (edgesOf engine.workflow.steps).lookup name with
  | none => simp [hlookup] at hdep
  | some deps =>
    obtain ⟨step, hstep, hname, hdeps⟩ := lookup_edgesOf hlookup
    refine ⟨step, hstep, hname, ?_⟩
    rw [hdeps]
    simpa [hlookup] using hdep

/-- Following dependents long enough reaches every dependent: each round that goes on reaches a
step of the definition that was not reached before. -/
theorem dependentsWithin_closed {reached : List String} {rounds : Nat}
    (hrounds : (engine.workflow.steps.filter fun step => step.name ∉ reached).length < rounds)
    {step : WorkflowStep} (hstep : step ∈ engine.workflow.steps)
    (hdep : ∃ dep ∈ step.dependsOn, dep ∈ reached ++ engine.dependentsWithin reached rounds) :
    step.name ∈ reached ++ engine.dependentsWithin reached rounds := by
  induction rounds generalizing reached with
  | zero => omega
  | succ rounds ih =>
    cases hnext : engine.nextDependents reached with
    | nil =>
      have hnone : engine.dependentsWithin reached (rounds + 1) = [] := by
        simp [WorkflowEngine.dependentsWithin, hnext]
      rw [hnone, List.append_nil] at hdep ⊢
      by_contra hopen
      obtain ⟨dep, hdeps, hreached⟩ := hdep
      have hmem : step.name ∈ engine.nextDependents reached := by
        refine List.mem_map.mpr ⟨step, List.mem_filter.mpr ⟨?_, ?_⟩, rfl⟩
        · exact List.mem_filter.mpr ⟨hstep, by simpa using hopen⟩
        · exact List.any_eq_true.mpr ⟨dep, hdeps, by simpa using hreached⟩
      simp [hnext] at hmem
    | cons first rest =>
      have hmore : engine.dependentsWithin reached (rounds + 1) = (first :: rest) ++
          engine.dependentsWithin (reached ++ first :: rest) rounds := by
        rw [WorkflowEngine.dependentsWithin, hnext]
      have hfirst : first ∈ engine.nextDependents reached := by
        rw [hnext]
        exact List.mem_cons_self
      obtain ⟨found, hfound, hfoundName⟩ := List.mem_map.mp hfirst
      obtain ⟨hfoundStep, hfoundOpen⟩ := List.mem_filter.mp (List.mem_of_mem_filter hfound)
      have hless : (engine.workflow.steps.filter fun step =>
          step.name ∉ reached ++ first :: rest).length <
            (engine.workflow.steps.filter fun step => step.name ∉ reached).length := by
        have hsub : List.Sublist (engine.workflow.steps.filter fun step =>
            step.name ∉ reached ++ first :: rest)
            (engine.workflow.steps.filter fun step => step.name ∉ reached) := by
          refine List.monotone_filter_right _ ?_
          intro other hother
          simp only [List.mem_append, decide_eq_true_eq] at hother ⊢
          exact fun hmem => hother (Or.inl hmem)
        have hle := hsub.length_le
        by_contra hsame
        have heq := hsub.eq_of_length (by omega)
        have hkept : found ∈ engine.workflow.steps.filter fun step =>
            step.name ∉ reached := List.mem_filter.mpr ⟨hfoundStep, hfoundOpen⟩
        rw [← heq] at hkept
        have hout := (List.mem_filter.mp hkept).2
        simp [hfoundName] at hout
      rw [hmore, ← List.append_assoc] at hdep ⊢
      exact ih (by omega) hdep

/-- Going back from a group resets everything that builds on what it resets. -/
theorem FreeToComplete.goBack {state : WorkflowState}
    (h : FreeToComplete engine.dag members state.completedSteps) :
    DependencyClosed engine.dag (state.setStatuses ((engine.dependenciesOf members ++
      engine.dependentsOf (engine.dependenciesOf members) ++ members).insertionSort
        (· ≤ ·)).dedup .pending).completedSteps := by
  refine h.closed.resetAll rfl ?_
  intro other hother hout dep hdep hmem
  simp only [List.mem_dedup, List.mem_insertionSort, List.mem_append, not_or] at hout hmem
  rcases hmem with hback | hmember
  · obtain ⟨step, hstep, rfl, hdeps⟩ := dependsOn_step hdep
    have hrounds : (engine.workflow.steps.filter fun step =>
        step.name ∉ engine.dependenciesOf members).length < engine.workflow.steps.length + 1 := by
      have hle := List.length_filter_le (fun step : WorkflowStep =>
        decide (step.name ∉ engine.dependenciesOf members)) engine.workflow.steps
      omega
    have hclosed := dependentsWithin_closed hrounds hstep
      ⟨dep, hdeps, List.mem_append.mpr hback⟩
    rcases List.mem_append.mp hclosed with hfirst | hsecond
    · exact hout.1.1 hfirst
    · exact hout.1.2 hsecond
  · exact h.free dep hmember other hother hdep

end GoingBack

section Resuming

variable {dag : WorkflowDag} {state : WorkflowState} {name : String}

/-- Which steps a rewind leaves completed, over a part of the topological order. -/
theorem mem_completedSteps_rewind (name : String) (first : Nat) {entries : List (String × Nat)}
    (hcoherent : Coherent state) (hnodup : (entries.map Prod.fst).Nodup) :
    name ∈ (entries.foldl (fun state entry =>
      if first ≤ entry.2 then state.setStatus entry.1 .pending
      else if (state.statusOf entry.1).any StepState.isCompleted then state
      else state.setStatus entry.1 .skipped) state).completedSteps ↔
    (∃ index < first, (name, index) ∈ entries) ∨
      name ∉ entries.map Prod.fst ∧ name ∈ state.completedSteps := by
  induction entries generalizing state with
  | nil => simp
  | cons entry rest ih =>
    obtain ⟨entryName, index⟩ := entry
    rw [List.map_cons, List.nodup_cons] at hnodup
    have hrest : ∀ after : WorkflowState, Coherent after →
        (entryName ∈ after.completedSteps ↔ index < first) →
        (∀ other, other ≠ entryName → (other ∈ after.completedSteps ↔
          other ∈ state.completedSteps)) →
        (name ∈ (rest.foldl (fun state entry =>
          if first ≤ entry.2 then state.setStatus entry.1 .pending
          else if (state.statusOf entry.1).any StepState.isCompleted then state
          else state.setStatus entry.1 .skipped) after).completedSteps ↔
        (∃ index' < first, (name, index') ∈ (entryName, index) :: rest) ∨
          name ∉ ((entryName, index) :: rest).map Prod.fst ∧ name ∈ state.completedSteps) := by
      intro after hafter hself hothers
      rw [ih hafter hnodup.2]
      by_cases heq : name = entryName
      · subst heq
        have hnot : ∀ index', (name, index') ∉ rest := by
          intro index' hmem
          exact hnodup.1 (List.mem_map.mpr ⟨_, hmem, rfl⟩)
        simp [hnodup.1, hself, hnot]
      · simp [heq, hothers name heq]
    rw [List.foldl_cons]
    dsimp only
    split
    · rename_i hlate
      refine hrest _ (hcoherent.setStatus entryName .pending) ?_ ?_
      · rw [mem_completedSteps_setStatus, if_pos rfl]
        simp [StepState.isCompleted, hlate]
      · intro other hne
        rw [mem_completedSteps_setStatus, if_neg hne]
    · rename_i hearly
      split
      · rename_i hdone
        exact hrest state hcoherent (by simp [(hcoherent entryName).mpr hdone]; omega)
          fun _ _ => Iff.rfl
      · refine hrest _ (hcoherent.setStatus entryName .skipped) ?_ ?_
        · rw [mem_completedSteps_setStatus, if_pos rfl]
          simp [StepState.isCompleted]
          omega
        · intro other hne
          rw [mem_completedSteps_setStatus, if_neg hne]

/-- A rewind to a step of the graph leaves exactly the steps before it completed, so the set is
closed whatever it was. -/
theorem DependencyClosed.rewindTo {start : String} (hcoherent : Coherent state)
    (h : start ∈ dag.order ∨ DependencyClosed dag state.completedSteps) :
    DependencyClosed dag (state.rewindTo dag start).completedSteps := by
  unfold WorkflowState.rewindTo
  dsimp only
  split
  · have hnodup : (dag.topologicalOrder.zipIdx.map Prod.fst).Nodup := by
      rw [List.zipIdx_map_fst]
      exact dag.topologicalOrder_nodup
    have hentry : ∀ {name index}, (name, index) ∈ dag.topologicalOrder.zipIdx →
        index = dag.topologicalOrder.idxOf name := by
      intro name index hmem
      have hget := List.mk_mem_zipIdx_iff_getElem?.mp hmem
      obtain ⟨hbound, hname⟩ := List.getElem?_eq_some_iff.mp hget
      rw [← hname]
      exact (dag.topologicalOrder_nodup.idxOf_getElem index hbound).symm
    intro name hname dep hdep
    rw [mem_completedSteps_rewind _ _ hcoherent hnodup] at hname ⊢
    obtain ⟨hnameOrder, hdepOrder⟩ := WorkflowDag.dependsOn_order hdep
    have hless := WorkflowDag.idxOf_dependsOn hdep
    rcases hname with ⟨index, hbound, hmem⟩ | ⟨hout, _⟩
    · have hindex := hentry hmem
      refine Or.inl ⟨dag.topologicalOrder.idxOf dep, by omega, ?_⟩
      rw [List.mk_mem_zipIdx_iff_getElem?]
      exact List.getElem?_idxOf (WorkflowDag.mem_topologicalOrder.mpr hdepOrder)
    · rw [List.zipIdx_map_fst] at hout
      exact absurd (WorkflowDag.mem_topologicalOrder.mpr hnameOrder) hout
  · rename_i hunknown
    exact h.resolve_left fun hstart => hunknown (WorkflowDag.mem_topologicalOrder.mpr hstart)

/-- Fitting a state to a definition makes no difference to whether it is closed for it. -/
theorem dependencyClosed_resumeState {steps : List WorkflowStep}
    (horder : dag.order = steps.map WorkflowStep.name) (hsaved : state.Saved) :
    DependencyClosed dag (resumeState dag steps state).completedSteps ↔
      DependencyClosed dag state.completedSteps := by
  constructor
  · intro h name hname dep hdep
    have hnames := WorkflowDag.dependsOn_order hdep
    have hkept := h name ((mem_completedSteps_resumeState horder hsaved).mpr ⟨hnames.1, hname⟩)
      dep hdep
    exact ((mem_completedSteps_resumeState horder hsaved).mp hkept).2
  · intro h name hname dep hdep
    rw [mem_completedSteps_resumeState horder hsaved] at hname ⊢
    exact ⟨(WorkflowDag.dependsOn_order hdep).2, h name hname.2 dep hdep⟩

end Resuming

end Awman.Engine
