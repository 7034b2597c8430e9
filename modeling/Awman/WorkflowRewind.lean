import Awman.WorkflowClosure
import Awman.WorkflowOrder
import Awman.WorkflowResume

/-!
# Going back to a step

A rewind makes the steps from the start on pending and leaves the ones before it succeeded or skipped,
whatever the run did before.  The start is then ready, the completed set is closed, and a run that takes
ready steps one after another takes the steps from the start on and no others.
-/

namespace Awman.Engine

open WorkflowState

variable {dag : WorkflowDag} {state after final : WorkflowState} {start name dep : String}
  {run : List (String × StepState)}

/-- What a rewind does to the step at one place of the order. -/
def WorkflowState.rewindStep (first : ℕ) (state : WorkflowState) (entry : String × ℕ) :
    WorkflowState :=
  if first ≤ entry.2 then
    state.setStatus entry.1 .pending
  else if (state.statusOf entry.1).any StepState.isCompleted then
    state
  else
    state.setStatus entry.1 .skipped

/-- A run takes ready steps one after another, and each gets a status. -/
inductive Executes (dag : WorkflowDag) : WorkflowState → List (String × StepState) →
    WorkflowState → Prop where
  | stop (state : WorkflowState) : Executes dag state [] state
  | step {state final : WorkflowState} {name : String} {status : StepState}
      {run : List (String × StepState)} (hready : name ∈ state.nextReady dag)
      (hrest : Executes dag (state.setStatus name status) run final) :
      Executes dag state ((name, status) :: run) final

/-- The steps before the start are succeeded or skipped and completed, and the others are pending and
open. -/
structure RestartsAt (dag : WorkflowDag) (start : String) (state : WorkflowState) : Prop where
  done : ∀ name ∈ dag.topologicalOrder.take (dag.topologicalOrder.idxOf start),
    (state.statusOf name = some .succeeded ∨ state.statusOf name = some .skipped) ∧
      name ∈ state.completedSteps
  /-- The start and the steps after it are to be run. -/
  pending : ∀ name ∈ dag.topologicalOrder.drop (dag.topologicalOrder.idxOf start),
    state.statusOf name = some .pending ∧ name ∉ state.completedSteps

/-! ## Places in the order -/

theorem mem_take_idxOf :
    name ∈ dag.topologicalOrder.take (dag.topologicalOrder.idxOf start) ↔
      dag.topologicalOrder.idxOf name < dag.topologicalOrder.idxOf start := by
  constructor
  · intro hmem
    obtain ⟨place, hplace, hname⟩ := List.mem_take_iff_getElem.mp hmem
    rw [← hname, dag.topologicalOrder_nodup.idxOf_getElem]
    omega
  · intro hless
    have hbound : dag.topologicalOrder.idxOf name < dag.topologicalOrder.length := by
      have hle := List.idxOf_le_length (a := start) (l := dag.topologicalOrder)
      omega
    refine List.mem_take_iff_getElem.mpr ⟨dag.topologicalOrder.idxOf name, by omega, ?_⟩
    exact List.getElem_idxOf hbound

theorem mem_drop_idxOf :
    name ∈ dag.topologicalOrder.drop (dag.topologicalOrder.idxOf start) ↔
      name ∈ dag.topologicalOrder ∧
        dag.topologicalOrder.idxOf start ≤ dag.topologicalOrder.idxOf name := by
  constructor
  · intro hmem
    obtain ⟨place, hplace, hname⟩ := List.mem_drop_iff_getElem.mp hmem
    refine ⟨List.mem_of_mem_drop hmem, ?_⟩
    rw [← hname, dag.topologicalOrder_nodup.idxOf_getElem]
    omega
  · rintro ⟨hmem, hle⟩
    have hbound := List.idxOf_lt_length_of_mem hmem
    refine List.mem_drop_iff_getElem.mpr
      ⟨dag.topologicalOrder.idxOf name - dag.topologicalOrder.idxOf start, by omega, ?_⟩
    have hplace : dag.topologicalOrder.idxOf start +
        (dag.topologicalOrder.idxOf name - dag.topologicalOrder.idxOf start) =
          dag.topologicalOrder.idxOf name := by omega
    simp only [hplace]
    exact List.getElem_idxOf hbound

theorem mem_zipIdx_topologicalOrder (hname : name ∈ dag.topologicalOrder) :
    (name, dag.topologicalOrder.idxOf name) ∈ dag.topologicalOrder.zipIdx :=
  List.mk_mem_zipIdx_iff_getElem?.mpr (List.getElem?_idxOf hname)

/-! ## The rewind -/

theorem rewindTo_eq (hstart : start ∈ dag.topologicalOrder) :
    state.rewindTo dag start =
      dag.topologicalOrder.zipIdx.foldl (rewindStep (dag.topologicalOrder.idxOf start)) state :=
  if_pos hstart

theorem statusOf_rewindStep_ne {first : ℕ} {entry : String × ℕ} (hne : name ≠ entry.1) :
    (state.rewindStep first entry).statusOf name = state.statusOf name := by
  unfold rewindStep
  split
  · exact statusOf_setStatus_ne hne
  · split
    · rfl
    · exact statusOf_setStatus_ne hne

theorem statusOf_rewindStep_self {first index : ℕ} :
    (state.rewindStep first (name, index)).statusOf name =
      if first ≤ index then some .pending
      else if (state.statusOf name).any StepState.isCompleted then state.statusOf name
      else some .skipped := by
  unfold rewindStep
  split
  · exact statusOf_setStatus_self
  · split
    · rfl
    · exact statusOf_setStatus_self

theorem statusOf_rewind_of_notMem {first : ℕ} {entries : List (String × ℕ)}
    (hname : name ∉ entries.map Prod.fst) :
    (entries.foldl (rewindStep first) state).statusOf name = state.statusOf name := by
  induction entries generalizing state with
  | nil => rfl
  | cons entry rest ih =>
    rw [List.map_cons, List.mem_cons, not_or] at hname
    rw [List.foldl_cons, ih hname.2, statusOf_rewindStep_ne hname.1]

/-- The status a rewind gives a step depends on its place and its status before. -/
theorem statusOf_rewind {first index : ℕ} {entries : List (String × ℕ)}
    (hnodup : (entries.map Prod.fst).Nodup) (hentry : (name, index) ∈ entries) :
    (entries.foldl (rewindStep first) state).statusOf name =
      if first ≤ index then some .pending
      else if (state.statusOf name).any StepState.isCompleted then state.statusOf name
      else some .skipped := by
  induction entries generalizing state with
  | nil => cases hentry
  | cons entry rest ih =>
    rw [List.map_cons, List.nodup_cons] at hnodup
    rw [List.foldl_cons]
    rcases List.mem_cons.mp hentry with rfl | hrest
    · rw [statusOf_rewind_of_notMem hnodup.1, statusOf_rewindStep_self]
    · have hne : name ≠ entry.1 := by
        intro heq
        exact hnodup.1 (heq ▸ List.mem_map_of_mem hrest)
      rw [ih hnodup.2 hrest, statusOf_rewindStep_ne hne]

theorem completed_status {status : Option StepState} (h : status.any StepState.isCompleted = true) :
    status = some .succeeded ∨ status = some .skipped := by
  cases status with
  | none => simp at h
  | some found => cases found <;> simp_all [StepState.isCompleted]

/-- After a rewind the run restarts at the start. -/
theorem restartsAt_rewindTo (hcoherent : Coherent state) (hstart : start ∈ dag.topologicalOrder) :
    RestartsAt dag start (state.rewindTo dag start) := by
  have hnodup : (dag.topologicalOrder.zipIdx.map Prod.fst).Nodup := by
    rw [List.zipIdx_map_fst]
    exact dag.topologicalOrder_nodup
  have hcompleted : ∀ name ∈ dag.topologicalOrder,
      (name ∈ (state.rewindTo dag start).completedSteps ↔
        dag.topologicalOrder.idxOf name < dag.topologicalOrder.idxOf start) := by
    intro name hname
    have hrewound := mem_completedSteps_rewind name
      (dag.topologicalOrder.idxOf start) hcoherent hnodup
    rw [List.zipIdx_map_fst] at hrewound
    rw [rewindTo_eq hstart]
    refine hrewound.trans ?_
    constructor
    · rintro (⟨index, hless, hmem⟩ | ⟨hout, -⟩)
      · have hget := List.mk_mem_zipIdx_iff_getElem?.mp hmem
        obtain ⟨hbound, hvalue⟩ := List.getElem?_eq_some_iff.mp hget
        rw [← hvalue, dag.topologicalOrder_nodup.idxOf_getElem index hbound]
        exact hless
      · exact absurd hname hout
    · intro hless
      exact Or.inl ⟨_, hless, mem_zipIdx_topologicalOrder hname⟩
  refine ⟨?_, ?_⟩
  · intro name hmem
    have hname := List.mem_of_mem_take hmem
    have hless := mem_take_idxOf.mp hmem
    refine ⟨?_, (hcompleted name hname).mpr hless⟩
    rw [rewindTo_eq hstart, statusOf_rewind hnodup (mem_zipIdx_topologicalOrder hname),
      if_neg (by omega)]
    split
    · rename_i hdone
      exact completed_status hdone
    · exact Or.inr rfl
  · intro name hmem
    obtain ⟨hname, hle⟩ := mem_drop_idxOf.mp hmem
    refine ⟨?_, fun hdone => ?_⟩
    · rw [rewindTo_eq hstart, statusOf_rewind hnodup (mem_zipIdx_topologicalOrder hname), if_pos hle]
    · have hless := (hcompleted name hname).mp hdone
      omega

/-! ## The run from there -/

/-- The start is ready. -/
theorem RestartsAt.ready (h : RestartsAt dag start state) (hstart : start ∈ dag.topologicalOrder) :
    start ∈ state.nextReady dag := by
  refine WorkflowDag.mem_readySteps.mpr ⟨WorkflowDag.mem_topologicalOrder.mp hstart, ?_, ?_⟩
  · exact (h.pending start (mem_drop_idxOf.mpr ⟨hstart, Nat.le_refl _⟩)).2
  · intro dep hdep
    exact (h.done dep (mem_take_idxOf.mpr (WorkflowDag.idxOf_dependsOn hdep))).2

/-- Every step of the order lies before the start or from it on. -/
theorem mem_take_or_mem_drop (hname : name ∈ dag.topologicalOrder) :
    name ∈ dag.topologicalOrder.take (dag.topologicalOrder.idxOf start) ∨
      name ∈ dag.topologicalOrder.drop (dag.topologicalOrder.idxOf start) := by
  rw [← List.mem_append, List.take_append_drop]
  exact hname

/-- A run takes only steps that were not completed, and completes only steps it takes. -/
theorem Executes.taken (h : Executes dag state run final) :
    (∀ name, name ∈ final.completedSteps →
      name ∈ state.completedSteps ∨ name ∈ run.map Prod.fst) ∧
    ∀ done : List String, (∀ name ∈ done, name ∈ state.completedSteps) →
      (∀ name ∈ done, name ∈ final.completedSteps) ∧
      ∀ entry ∈ run, entry.1 ∈ dag.topologicalOrder ∧ entry.1 ∉ done := by
  induction h with
  | stop state => exact ⟨fun name hname => Or.inl hname, fun done hdone => ⟨hdone, by simp⟩⟩
  | @step state final taken status run hready _ ih =>
    obtain ⟨horder, hopen, -⟩ := WorkflowDag.mem_readySteps.mp hready
    refine ⟨?_, ?_⟩
    · intro name hname
      rcases ih.1 name hname with hbefore | hrun
      · rw [mem_completedSteps_setStatus] at hbefore
        split at hbefore
        · rename_i hsame
          exact Or.inr (by simp [hsame])
        · exact Or.inl hbefore
      · exact Or.inr (List.mem_cons_of_mem _ hrun)
    · intro done hdone
      have hkept : ∀ name ∈ done, name ∈ (state.setStatus taken status).completedSteps := by
        intro name hname
        have hne : name ≠ taken := by
          rintro rfl
          exact hopen (hdone name hname)
        rw [mem_completedSteps_setStatus, if_neg hne]
        exact hdone name hname
      obtain ⟨hfinal, hrest⟩ := ih.2 done hkept
      refine ⟨hfinal, ?_⟩
      intro entry hentry
      rcases List.mem_cons.mp hentry with rfl | hmem
      · exact ⟨WorkflowDag.mem_topologicalOrder.mpr horder, fun hmem => hopen (hdone taken hmem)⟩
      · exact hrest entry hmem

/-- A run in which each step completes takes no step twice. -/
theorem Executes.nodup (h : Executes dag state run final)
    (hcompletes : ∀ entry ∈ run, entry.2.isCompleted = true) : (run.map Prod.fst).Nodup := by
  induction h with
  | stop state => exact List.nodup_nil
  | @step state final taken status run hready hrest ih =>
    have hstatus := hcompletes (taken, status) List.mem_cons_self
    refine List.nodup_cons.mpr ⟨?_, ih fun entry hentry =>
      hcompletes entry (List.mem_cons_of_mem _ hentry)⟩
    intro hagain
    obtain ⟨entry, hentry, hname⟩ := List.mem_map.mp hagain
    have hdone : ∀ name ∈ [taken], name ∈ (state.setStatus taken status).completedSteps := by
      intro name hname
      rw [mem_completedSteps_setStatus, if_pos (List.mem_singleton.mp hname)]
      exact hstatus
    have hnot := ((hrest.taken.2 [taken] hdone).2 entry hentry).2
    exact hnot (List.mem_singleton.mpr hname)

/-- A run that restarts at a step takes the steps from there on, and all of them when nothing is left
that is ready. -/
theorem Executes.onward (h : RestartsAt dag start state) (hrun : Executes dag state run final) :
    (∀ entry ∈ run,
      entry.1 ∈ dag.topologicalOrder.drop (dag.topologicalOrder.idxOf start)) ∧
    (final.nextReady dag = [] →
      ∀ name ∈ dag.topologicalOrder.drop (dag.topologicalOrder.idxOf start),
        name ∈ run.map Prod.fst) := by
  obtain ⟨htaken, hkept⟩ := hrun.taken
  obtain ⟨-, hentries⟩ := hkept _ fun name hname => (h.done name hname).2
  refine ⟨?_, ?_⟩
  · intro entry hentry
    obtain ⟨horder, hnot⟩ := hentries entry hentry
    exact (mem_take_or_mem_drop horder).resolve_left hnot
  · intro hnone name hname
    have horder := WorkflowDag.mem_topologicalOrder.mp (List.mem_of_mem_drop hname)
    by_contra hmissed
    have hopen : name ∉ final.completedSteps := by
      intro hdone
      exact (htaken name hdone).elim (h.pending name hname).2 hmissed
    exact WorkflowDag.readySteps_ne_nil horder hopen hnone

/-- After a rewind to a step of the graph: the step is ready; the steps from it on are pending and open,
and the ones before it succeeded or skipped and completed; the completed set is closed under
dependencies; and a run from there takes only steps from the start on, all of them when it has nothing
left to take, and none twice when each one it takes completes. -/
theorem rewindTo_spec (hsaved : Saved state) (hstart : start ∈ dag.topologicalOrder) :
    let order := dag.topologicalOrder
    let after := state.rewindTo dag start
    start ∈ after.nextReady dag ∧
    (∀ name ∈ order.drop (order.idxOf start),
      after.statusOf name = some .pending ∧ name ∉ after.completedSteps) ∧
    (∀ name ∈ order.take (order.idxOf start),
      (after.statusOf name = some .succeeded ∨ after.statusOf name = some .skipped) ∧
        name ∈ after.completedSteps) ∧
    DependencyClosed dag after.completedSteps ∧
    ∀ run final, Executes dag after run final →
      (∀ entry ∈ run, entry.1 ∈ order.drop (order.idxOf start)) ∧
      (final.nextReady dag = [] →
        ∀ name ∈ order.drop (order.idxOf start), name ∈ run.map Prod.fst) ∧
      ((∀ entry ∈ run, entry.2.isCompleted = true) → (run.map Prod.fst).Nodup) := by
  have hrestarts := restartsAt_rewindTo hsaved.coherent hstart
  have hclosed : DependencyClosed dag (state.rewindTo dag start).completedSteps :=
    DependencyClosed.rewindTo hsaved.coherent (Or.inl (WorkflowDag.mem_topologicalOrder.mp hstart))
  refine ⟨hrestarts.ready hstart, hrestarts.pending, hrestarts.done, hclosed, ?_⟩
  intro run final hrun
  obtain ⟨honly, hall⟩ := hrun.onward hrestarts
  exact ⟨honly, hall, hrun.nodup⟩

/-- Back to the step that was running, in a definition that was edited since. -/
theorem rewindTo_interruptedState : ∃ dag, WorkflowDag.build editedWorkflow.steps = .ok dag ∧
    "review" ∈ (interruptedState.rewindTo dag "review").nextReady dag := by
  have haccepted : (WorkflowDag.build editedWorkflow.steps).toOption.isSome = true := by
    decide +kernel
  have hsaved : interruptedState.Saved :=
    ((((Saved.new _ _ _ _ _).setStatus _ _).setStatus _ _).setStatus _ _).setStatus _ _
  cases hbuild : WorkflowDag.build editedWorkflow.steps with
  | error e =>
    rw [hbuild] at haccepted
    cases haccepted
  | ok dag =>
    have hstart : "review" ∈ dag.topologicalOrder := by
      rw [WorkflowDag.mem_topologicalOrder, WorkflowDag.build_order hbuild]
      decide
    exact ⟨dag, rfl, (rewindTo_spec hsaved hstart).1⟩

end Awman.Engine
