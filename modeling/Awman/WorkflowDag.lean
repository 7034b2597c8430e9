import Awman.EngineErrors
import Awman.Library.Checks
import Awman.Library.DepthFirst
import Mathlib.Data.List.AList

/-!
# The validated step graph of a workflow

`WorkflowDag.build` checks that every dependency names a step and that no step depends on itself
through others.  A `WorkflowDag` value carries what the two checks establish.  Readiness is decided
from the set of completed steps alone, and a graph with an incomplete step always has a ready one.
-/

namespace Awman.Engine

open Awman.Checks Awman.DepthFirst

/-- A step of a workflow definition. -/
structure WorkflowStep where
  /-- The identifier other steps depend on. -/
  name : String
  /-- The names of the steps that must complete first. -/
  dependsOn : List String := []
  /-- The prompt before substitution. -/
  promptTemplate : String := ""
  agent : Option String := none
  model : Option String := none
  overlays : Option (List String) := none
  /-- Whether a failure of this step ends the workflow. -/
  abortOnFailure : Bool := false
deriving DecidableEq, Repr

/-- Every `dependsOn` must name a real step. -/
def validateReferences (steps : List WorkflowStep) : Except DataError Unit :=
  let names := steps.map WorkflowStep.name
  forM steps fun step =>
    forM step.dependsOn fun dep =>
      if dep ∈ names then .ok () else .error (.missingDependency step.name dep)

/-- The dependencies by step name; a later step of the same name replaces an earlier one. -/
def edgesOf (steps : List WorkflowStep) : AList (fun _ : String => List String) :=
  steps.foldl (fun edges step => edges.insert step.name step.dependsOn) ∅

/-- The dependencies recorded for a name. -/
def dependenciesIn (edges : AList (fun _ : String => List String)) (name : String) :
    List String :=
  (edges.lookup name).getD []

/-- Search below one step for a dependency path that returns to a step on it. -/
def cycleDfs (edges : AList (fun _ : String => List String)) :
    Nat → String → Marks String → Except String (Marks String) :=
  cycleSearch (dependenciesIn edges)

/-- Report a step on a dependency cycle.  The fuel exceeds the number of steps a path without
repetition can hold. -/
def detectCycle (steps : List WorkflowStep) : Except DataError Unit :=
  match searchFrom (cycleDfs (edgesOf steps) (steps.length + 1)) (steps.map WorkflowStep.name)
      Marks.start with
  | .error step => .error (.cyclicDependency step)
  | .ok _ => .ok ()

section

variable {steps : List WorkflowStep}

/-- Accepted references all name steps. -/
theorem validateReferences_ok (hok : validateReferences steps = .ok ()) :
    ∀ step ∈ steps, ∀ dep ∈ step.dependsOn, dep ∈ steps.map WorkflowStep.name := by
  intro step hstep dep hdep
  have hdeps := forM_ok.mp (forM_ok.mp hok step hstep) dep hdep
  by_contra hmissing
  simp [hmissing] at hdeps

/-- The recorded dependencies are those of a step of the name. -/
theorem lookup_edgesOf {name : String} {deps : List String}
    (h : (edgesOf steps).lookup name = some deps) :
    ∃ step ∈ steps, step.name = name ∧ step.dependsOn = deps := by
  suffices haux : ∀ (rest : List WorkflowStep) (edges : AList (fun _ : String => List String)),
      (rest.foldl (fun edges step => edges.insert step.name step.dependsOn) edges).lookup name
          = some deps →
        (∃ step ∈ rest, step.name = name ∧ step.dependsOn = deps) ∨
          edges.lookup name = some deps by
    rcases haux steps ∅ h with hstep | hnone
    · exact hstep
    · simp at hnone
  intro rest
  induction rest with
  | nil => exact fun edges h => Or.inr h
  | cons first rest ih =>
    intro edges h
    rcases ih _ h with ⟨step, hstep, hname⟩ | hedges
    · exact Or.inl ⟨step, List.mem_cons_of_mem _ hstep, hname⟩
    · by_cases heq : name = first.name
      · subst heq
        rw [AList.lookup_insert] at hedges
        exact Or.inl ⟨first, List.mem_cons_self, rfl, Option.some.inj hedges⟩
      · rw [AList.lookup_insert_ne heq] at hedges
        exact Or.inr hedges

theorem mem_edgesOf {name : String} : name ∈ edgesOf steps ↔ name ∈ steps.map WorkflowStep.name := by
  suffices haux : ∀ (rest : List WorkflowStep) (edges : AList (fun _ : String => List String)),
      name ∈ rest.foldl (fun edges step => edges.insert step.name step.dependsOn) edges ↔
        name ∈ rest.map WorkflowStep.name ∨ name ∈ edges by
    simpa [edgesOf] using haux steps ∅
  intro rest
  induction rest with
  | nil => intro edges; simp
  | cons first rest ih =>
    intro edges
    rw [List.foldl_cons, ih, AList.mem_insert, List.map_cons, List.mem_cons]
    tauto

/-- Accepted dependencies are well founded. -/
theorem detectCycle_ok (hok : detectCycle steps = .ok ()) :
    WellFounded (Steps (dependenciesIn (edgesOf steps))) := by
  rw [detectCycle] at hok
  split at hok
  · cases hok
  · rename_i explored hsearch
    refine searchFrom_wellFounded hsearch fun name hname => ?_
    rw [dependenciesIn, AList.lookup_eq_none.mpr (fun hmem => hname (mem_edgesOf.mp hmem))]
    rfl

end

/-- The adjacency representation of a workflow's step graph, with what validation established. -/
structure WorkflowDag where
  /-- The step names in source order. -/
  order : List String
  /-- The dependencies of each step name. -/
  edges : AList (fun _ : String => List String)
  /-- The graph has an entry for exactly the step names. -/
  mem_edges : ∀ name, name ∈ edges ↔ name ∈ order
  closed : ∀ name, ∀ dep ∈ dependenciesIn edges name, dep ∈ order
  /-- No chain of dependencies returns to its start. -/
  acyclic : WellFounded (Steps (dependenciesIn edges))

namespace WorkflowDag

/-- Build and validate the graph of a list of steps. -/
def build (steps : List WorkflowStep) : Except DataError WorkflowDag :=
  match hrefs : validateReferences steps with
  | .error e => .error e
  | .ok () =>
    match hcycle : detectCycle steps with
    | .error e => .error e
    | .ok () => .ok {
        order := steps.map WorkflowStep.name
        edges := edgesOf steps
        mem_edges := fun _ => mem_edgesOf
        closed := by
          intro name dep hdep
          rw [dependenciesIn] at hdep
          cases hlookup : (edgesOf steps).lookup name with
          | none => simp [hlookup] at hdep
          | some deps =>
            obtain ⟨step, hstep, _, rfl⟩ := lookup_edgesOf hlookup
            exact validateReferences_ok hrefs step hstep dep (by simpa [hlookup] using hdep)
        acyclic := detectCycle_ok hcycle }

section

variable {steps : List WorkflowStep} {dag : WorkflowDag} (h : build steps = .ok dag)
include h

/-- A graph that is built has the names and the dependencies of its steps. -/
theorem build_parts :
    dag.order = steps.map WorkflowStep.name ∧ dag.edges = edgesOf steps := by
  unfold build at h
  split at h
  · cases h
  · split at h
    · cases h
    · cases h
      exact ⟨rfl, rfl⟩

theorem build_order :
    dag.order = steps.map WorkflowStep.name := (build_parts h).1

theorem build_edges :
    dag.edges = edgesOf steps := (build_parts h).2

end

/-- The names a step depends on. -/
def dependsOn (dag : WorkflowDag) (name : String) : List String :=
  dependenciesIn dag.edges name

/-- The incomplete steps whose dependencies are all completed, in source order. -/
def readySteps (dag : WorkflowDag) (completed : Finset String) : List String :=
  dag.order.filter fun name =>
    name ∉ completed ∧ ∀ dep ∈ dag.dependsOn name, dep ∈ completed

/-- The step names with dependencies before dependents.  The fuel exceeds the depth of the walk,
which opens a new step on each level. -/
def topologicalOrder (dag : WorkflowDag) : List String :=
  (postOrderFrom dag.edges.lookup (dag.order.length + 1) dag.order).out

theorem mem_readySteps {dag : WorkflowDag} {completed : Finset String} {name : String} :
    name ∈ dag.readySteps completed ↔
      name ∈ dag.order ∧ name ∉ completed ∧ ∀ dep ∈ dag.dependsOn name, dep ∈ completed := by
  simp [readySteps]

/-- The topological order lists each step once, after the steps it depends on. -/
theorem topologicalOrder_arranged (dag : WorkflowDag) :
    Arranged dag.edges.lookup ∅ (postOrderFrom dag.edges.lookup (dag.order.length + 1) dag.order) := by
  have hknown : ∀ node, (dag.edges.lookup node).isSome ↔ node ∈ dag.order.toFinset := by
    intro node
    rw [AList.lookup_isSome, dag.mem_edges, List.mem_toFinset]
  have hcard : dag.order.toFinset.card ≤ dag.order.length + 1 := by
    have hle := List.toFinset_card_le dag.order
    omega
  exact postOrderFrom_arranged dag.acyclic hknown hcard dag.order

theorem mem_topologicalOrder {dag : WorkflowDag} {name : String} :
    name ∈ dag.topologicalOrder ↔ name ∈ dag.order := by
  refine mem_postOrderFrom dag.order.length (fun other => ?_) name
  rw [AList.lookup_isSome, dag.mem_edges]

/-- A graph with an incomplete step has a ready step. -/
theorem readySteps_ne_nil {dag : WorkflowDag} {completed : Finset String} {name : String}
    (hname : name ∈ dag.order) (hopen : name ∉ completed) : dag.readySteps completed ≠ [] := by
  obtain ⟨first, ⟨hfirst, hfirstOpen⟩, hmin⟩ :=
    dag.acyclic.has_min {other | other ∈ dag.order ∧ other ∉ completed} ⟨name, hname, hopen⟩
  have hready : first ∈ dag.readySteps completed := by
    refine mem_readySteps.mpr ⟨hfirst, hfirstOpen, fun dep hdep => ?_⟩
    by_contra hdepOpen
    exact hmin dep ⟨dag.closed first dep hdep, hdepOpen⟩ hdep
  exact List.ne_nil_of_mem hready

end WorkflowDag

/-- A diamond becomes ready from its root, then its two middle steps, then its end. -/
example :
    (match WorkflowDag.build [⟨"a", [], "", none, none, none, false⟩,
        { name := "b", dependsOn := ["a"] }, { name := "c", dependsOn := ["a"] },
        { name := "d", dependsOn := ["b", "c"] }] with
      | .error _ => []
      | .ok dag => [dag.readySteps ∅, dag.readySteps {"a"}, dag.readySteps {"a", "b", "c"}])
      = [["a"], ["b", "c"], ["d"]] := by
  decide

end Awman.Engine
