import Awman.Library.Utf8Text
import Awman.DynamicRuns

/-!
# What a dynamic resume pairs

The saved workflow and the saved state are found by the workflow's title alone.  They belong to one
run where every run that saves its design finds no state of another definition under its title, and
a save that fails leaves nothing that reads as a workflow.
-/

namespace Awman.Dynamic

open Engine Checks

variable {checkout : Checkout} {files after : Files} {workflow other : GeneratedWorkflow}
  {state : WorkflowState} {name : String} {phase next : Phase} {choice : Choice}

/-! ## The files -/

/-- The saved workflow reads as this one. -/
def Files.Saves (checkout : Checkout) (files : Files) (workflow : GeneratedWorkflow) : Prop :=
  ∃ contents, files.copy = some contents ∧ checkout.parse contents = .ok workflow

/-- The states lie where they are saved, and the one found under the title of the saved workflow is
of its definition. -/
structure Paired (checkout : Checkout) (files : Files) : Prop where
  keyed : ∀ key state, files.states.lookup key = some state →
    checkout.statePath state.workItem state.workflowName = key
  hash : ∀ workflow state, files.Saves checkout workflow →
    files.load checkout (workflowNameFor workflow.main) = some state →
    state.workflowHash = checkout.definitionHash workflow

/-- A saved workflow is this one. -/
def Owned (checkout : Checkout) (files : Files) (workflow : GeneratedWorkflow) : Prop :=
  ∀ other, files.Saves checkout other → other = workflow

/-- A state of a run of this workflow: it is saved under its title, and if the workflow is saved,
it is of its definition. -/
structure StateOf (checkout : Checkout) (files : Files) (workflow : GeneratedWorkflow)
    (state : WorkflowState) : Prop where
  keyed : checkout.statePath state.workItem state.workflowName = checkout.stateName workflow
  hash : files.Saves checkout workflow → state.workflowHash = checkout.definitionHash workflow

theorem Files.not_saves (hcopy : files.copy = none) : ¬files.Saves checkout workflow := by
  rintro ⟨contents, hcontents, -⟩
  rw [hcopy] at hcontents
  cases hcontents

theorem Files.load_save_of_eq
    (hkey : checkout.statePath state.workItem state.workflowName =
      checkout.statePath (some checkout.workItem) name) :
    (files.save checkout state).load checkout name = some state := by
  unfold load save
  rw [hkey, AList.lookup_insert]

theorem Files.load_delete : (files.delete checkout name).load checkout name = none :=
  AList.lookup_erase _ _

/-- What is found after a deletion was there before. -/
theorem Files.lookup_delete {key : String}
    (h : (files.delete checkout name).states.lookup key = some state) :
    files.states.lookup key = some state := by
  by_cases hkey : key = checkout.statePath (some checkout.workItem) name
  · have hgone : (files.delete checkout name).states.lookup key = none := by
      rw [hkey]
      exact AList.lookup_erase _ _
    rw [hgone] at h
    cases h
  · exact (AList.lookup_erase_ne hkey).symm.trans h

theorem Paired.empty : Paired checkout ⟨none, ∅⟩ where
  keyed := by
    intro key state hstate
    cases hstate
  hash := by
    intro workflow state hsaves
    exact absurd hsaves (Files.not_saves rfl)

theorem Paired.delete (h : Paired checkout files) : Paired checkout (files.delete checkout name) where
  keyed := by
    intro key state hstate
    exact h.keyed key state (Files.lookup_delete hstate)
  hash := by
    intro workflow state hsaves hstate
    exact h.hash workflow state hsaves (Files.lookup_delete hstate)

theorem Paired.save (h : Paired checkout files) (howned : Owned checkout files workflow)
    (hstate : StateOf checkout files workflow state) :
    Paired checkout (files.save checkout state) where
  keyed := by
    intro key found hfound
    by_cases hkey : key = checkout.statePath state.workItem state.workflowName
    · have hsaved : (files.save checkout state).states.lookup key = some state := by
        rw [hkey]
        exact AList.lookup_insert _
      rw [hsaved] at hfound
      cases hfound
      exact hkey.symm
    · exact h.keyed key found ((AList.lookup_insert_ne hkey).symm.trans hfound)
  hash := by
    intro saved found hsaves hfound
    obtain rfl := howned saved hsaves
    rw [Files.load_save_of_eq hstate.keyed] at hfound
    cases hfound
    exact hstate.hash hsaves

/-- Nothing is said of states where nothing reads as a workflow. -/
theorem Paired.unread {copy : Option (List UInt8)} (h : Paired checkout files)
    (hunread : ∀ workflow, ¬({ files with copy } : Files).Saves checkout workflow) :
    Paired checkout { files with copy } where
  keyed := h.keyed
  hash := fun workflow _ hsaves => absurd hsaves (hunread workflow)

/-- The state found under the title of a workflow is of a run of it. -/
theorem Paired.stateOf (h : Paired checkout files)
    (hload : files.load checkout (workflowNameFor workflow.main) = some state) :
    StateOf checkout files workflow state where
  keyed := h.keyed _ state hload
  hash := fun hsaves => h.hash workflow state hsaves hload

theorem StateOf.continues {later : WorkflowState} (h : StateOf checkout files workflow state)
    (hcontinues : Continues state later) : StateOf checkout files workflow later where
  keyed := by
    rw [hcontinues.1, hcontinues.2.1]
    exact h.keyed
  hash := by
    rw [hcontinues.2.2]
    exact h.hash

/-! ## States that go on -/

theorem Continues.refl (state : WorkflowState) : Continues state state := ⟨rfl, rfl, rfl⟩

theorem Continues.trans {first second third : WorkflowState} (h : Continues first second)
    (h' : Continues second third) : Continues first third :=
  ⟨h'.1.trans h.1, h'.2.1.trans h.2.1, h'.2.2.trans h.2.2⟩

/-- A fold of updates that each go on with the run goes on with it. -/
theorem Continues.foldl {α : Type} {update : WorkflowState → α → WorkflowState}
    (hupdate : ∀ state entry, Continues state (update state entry)) (entries : List α)
    (state : WorkflowState) : Continues state (entries.foldl update state) := by
  induction entries generalizing state with
  | nil => exact .refl state
  | cons entry rest ih => exact (hupdate state entry).trans (ih (update state entry))

theorem continues_rewindTo (state : WorkflowState) (dag : WorkflowDag) (start : String) :
    Continues state (state.rewindTo dag start) := by
  unfold WorkflowState.rewindTo
  dsimp only
  split_ifs
  · apply Continues.foldl
    intro state entry
    split_ifs <;> exact ⟨rfl, rfl, rfl⟩
  · exact .refl state

theorem continues_resumeState (dag : WorkflowDag) (steps : List WorkflowStep) (state : WorkflowState) :
    Continues state (resumeState dag steps state) := by
  have hpruned : Continues state (state.retainStepsIn dag).1 := by
    have hdropped : Continues state ((state.retainStepsIn dag).2.foldl WorkflowState.dropStep
        state) := by
      apply Continues.foldl
      intro state name
      exact ⟨rfl, rfl, rfl⟩
    exact hdropped.trans ⟨rfl, rfl, rfl⟩
  have hfilled (filled : WorkflowState) (infos : List WorkflowStepInfo) :
      Continues filled (infos.foldl (fun state step => state.addMissing step.name) filled) := by
    apply Continues.foldl
    intro state step
    unfold WorkflowState.addMissing
    split <;> exact ⟨rfl, rfl, rfl⟩
  have hstatuses (idle : WorkflowState) (names : List String) :
      Continues idle (idle.setStatuses names .pending) := by
    apply Continues.foldl
    intro state name
    exact ⟨rfl, rfl, rfl⟩
  have hlisted : Continues state
      { (state.retainStepsIn dag).1 with steps := steps.map WorkflowStep.info } :=
    hpruned.trans ⟨rfl, rfl, rfl⟩
  exact ((hlisted.trans (hfilled _ _)).trans (hstatuses _ _)).trans (hstatuses _ _)

/-! ## What holds in each phase -/

/-- Nothing is offered, and no workflow is missed. -/
structure Quiet (checkout : Checkout) (files : Files) : Prop where
  offers : ∀ previous dag, offerDynamicResume checkout files ≠ .ask previous dag
  misses : offerDynamicResume checkout files ≠ .notice (.unusable .missingWorkflow)

/-- What a run relies on at a phase. -/
def Fits (checkout : Checkout) (files : Files) : Phase → Prop
  | .offering previous _ => Owned checkout files previous.workflow ∧
      StateOf checkout files previous.workflow previous.state
  | .resuming workflow state | .rewriting workflow state | .running workflow state =>
    Owned checkout files workflow ∧ StateOf checkout files workflow state
  | .settling workflow _ saved =>
    Owned checkout files workflow ∧ StateOf checkout files workflow saved
  | .preparing workflow _ | .droppingState workflow | .starting workflow | .clearingCopy workflow
  | .clearingState workflow => Owned checkout files workflow
  | .copying design workflow => checkout.parse design = .ok workflow
  | .finished => Quiet checkout files
  | .idle | .abandoningState _ | .abandoningCopy | .designing => True

/-- A run that is found is offered with the state of a run of its workflow. -/
theorem Paired.discovered (h : Paired checkout files) {previous : PreviousDynamicRun}
    (hfound : discoverPreviousDynamicRun checkout files = .ok previous) :
    files.Saves checkout previous.workflow ∧
      StateOf checkout files previous.workflow previous.state := by
  unfold discoverPreviousDynamicRun at hfound
  split at hfound
  · split at hfound <;> cases hfound
  · next contents hcopy =>
    split at hfound
    · cases hfound
    · next workflow hparse =>
      split at hfound
      · next state hload =>
        cases hfound
        exact ⟨⟨contents, hcopy, hparse⟩, h.stateOf hload⟩
      · cases hfound

theorem Files.Saves.owned (h : files.Saves checkout workflow) : Owned checkout files workflow := by
  rintro other ⟨contents, hcopy, hparse⟩
  obtain ⟨contents', hcopy', hparse'⟩ := h
  obtain rfl := Option.some.inj (hcopy.symm.trans hcopy')
  exact Except.ok.inj (hparse.symm.trans hparse')

theorem fits_invoked (h : Paired checkout files) (offerResume : Bool) :
    Fits checkout files (invoked checkout offerResume files) := by
  unfold invoked offerDynamicResume
  cases offerResume with
  | false => trivial
  | true =>
    rw [if_pos rfl]
    cases hfound : discoverPreviousDynamicRun checkout files with
    | error miss => cases miss <;> trivial
    | ok previous =>
      obtain ⟨hsaves, hstate⟩ := h.discovered hfound
      dsimp only
      cases WorkflowDag.build previous.workflow.main.steps with
      | error error => trivial
      | ok dag =>
        dsimp only
        split_ifs
        · trivial
        · exact ⟨hsaves.owned, hstate⟩

theorem fits_settled (h : Paired checkout files) (howned : Owned checkout files workflow) :
    Fits checkout files (settled checkout workflow files) := by
  unfold settled
  cases hload : files.load checkout (workflowNameFor workflow.main) with
  | none => exact howned
  | some saved =>
    cases WorkflowDag.build workflow.main.steps with
    | error error => exact howned
    | ok dag =>
      dsimp only
      split_ifs
      · exact howned
      · exact ⟨howned, h.stateOf hload⟩

/-- The engine goes on with the state it loads, or with a new one of its definition. -/
theorem fits_started (h : Paired checkout files) (howned : Owned checkout files workflow)
    (invocationId : Nat) (confirm : Bool) :
    Fits checkout files (started checkout workflow files invocationId confirm) := by
  unfold started
  cases WorkflowDag.build workflow.main.steps with
  | error error => trivial
  | ok dag =>
    cases hresume : WorkflowEngine.stateToResume (fun _ => checkout.definitionHash workflow)
        invocationId (some checkout.workItem) workflow.main
        (.ok (files.load checkout (workflowNameFor workflow.main))) (fun _ => .ok confirm) with
    | error error => trivial
    | ok state =>
      refine ⟨howned, StateOf.continues ?_ (continues_resumeState dag workflow.main.steps state)⟩
      unfold WorkflowEngine.stateToResume at hresume
      cases hload : files.load checkout (workflowNameFor workflow.main) with
      | none =>
        rw [hload] at hresume
        cases hresume
        exact ⟨rfl, fun _ => rfl⟩
      | some saved =>
        have hsaved := h.stateOf hload
        rw [hload] at hresume
        dsimp only at hresume
        split_ifs at hresume
        · cases hresume
          exact hsaved
        · cases confirm <;> cases hresume
          exact hsaved

/-! ## Runs -/

/-- Nothing reads as a workflow. -/
def Checkout.unreadable (checkout : Checkout) (contents : List UInt8) : Bool :=
  match checkout.parse contents with
  | .ok _ => false
  | .error _ => true

/-- Where runs belong together: a run that saves its design finds no state of another definition
under its title, a save that fails leaves nothing that reads as a workflow, and a run that finishes
cleanly deletes its state, and leaves no other with steps left once its workflow is gone. -/
def careful (checkout : Checkout) : Phase → Choice → Files → Bool
  | .copying design workflow, .copied (some count), files =>
    (design.length ≤ count && (files.load checkout (workflowNameFor workflow.main)).all fun saved =>
        saved.workflowHash = checkout.definitionHash workflow) ||
      checkout.unreadable (design.take count)
  | .copying _ _, .copied none, files => files.copy.all checkout.unreadable
  | .clearingState workflow, .deleted done, files =>
    done && (files.copy.isSome || files.states.entries.all fun entry =>
      entry.1 = checkout.stateName workflow || !stepsLeft entry.2)
  | _, _, _ => true

theorem Checkout.not_ok {contents : List UInt8} (h : checkout.unreadable contents = true) :
    checkout.parse contents ≠ .ok workflow := by
  intro hparse
  rw [unreadable, hparse] at h
  cases h

theorem quiet_empty : Quiet checkout ⟨none, ∅⟩ where
  offers := fun previous dag hask => by cases hask
  misses := fun hmissing => by cases hmissing

/-- The last deletion of a clean finish leaves nothing to offer and no workflow to miss. -/
theorem quiet_cleared (howned : Owned checkout files workflow)
    (hothers : (files.copy.isSome || files.states.entries.all fun entry =>
      entry.1 = checkout.stateName workflow || !stepsLeft entry.2) = true) :
    Quiet checkout (files.delete checkout (workflowNameFor workflow.main)) := by
  generalize hafter : files.delete checkout (workflowNameFor workflow.main) = after
  have hcopy : after.copy = files.copy := by
    rw [← hafter]
    rfl
  have hmissed : ∀ previous, discoverPreviousDynamicRun checkout after ≠ .ok previous := by
    intro previous hfound
    unfold discoverPreviousDynamicRun at hfound
    rw [hcopy] at hfound
    split at hfound
    · split at hfound <;> cases hfound
    · next contents hcontents =>
      split at hfound
      · cases hfound
      · next saved hparse =>
        obtain rfl := howned saved ⟨contents, hcontents, hparse⟩
        rw [← hafter, Files.load_delete] at hfound
        cases hfound
  have hfinished : after.copy = none → unresumedDynamicStateExists checkout after = false := by
    intro hgone
    rw [hcopy] at hgone
    rw [hgone, Option.isSome_none, Bool.false_or, List.all_eq_true] at hothers
    unfold unresumedDynamicStateExists
    rw [List.any_eq_false]
    intro entry hentry
    have hlookup : after.states.lookup entry.1 = some entry.2 :=
      AList.mem_lookup_iff.mpr hentry
    have hbefore : files.states.lookup entry.1 = some entry.2 := by
      rw [← hafter] at hlookup
      exact Files.lookup_delete hlookup
    have hne : entry.1 ≠ checkout.stateName workflow := by
      intro heq
      rw [heq, ← hafter] at hlookup
      have hnone : (files.delete checkout (workflowNameFor workflow.main)).states.lookup
          (checkout.stateName workflow) = none := AList.lookup_erase _ _
      rw [hnone] at hlookup
      cases hlookup
    have hdone : stepsLeft entry.2 = false := by
      simpa [hne] using hothers entry (AList.mem_lookup_iff.mp hbefore)
    simp [hdone]
  constructor
  · intro previous dag hask
    unfold offerDynamicResume at hask
    cases hfound : discoverPreviousDynamicRun checkout after with
    | error miss =>
      rw [hfound] at hask
      cases miss <;> cases hask
    | ok found => exact hmissed found hfound
  · intro hmissing
    unfold offerDynamicResume at hmissing
    cases hfound : discoverPreviousDynamicRun checkout after with
    | ok found => exact hmissed found hfound
    | error miss =>
      rw [hfound] at hmissing
      cases miss with
      | nothingToResume => cases hmissing
      | unusable reason =>
        obtain rfl : reason = .missingWorkflow :=
          ResumeUnavailable.unusable.inj (Offer.notice.inj hmissing)
        unfold discoverPreviousDynamicRun at hfound
        split at hfound
        · next hgone =>
          rw [if_neg (by simp [hfinished hgone])] at hfound
          cases hfound
        · split at hfound
          · cases hfound
          · split at hfound <;> cases hfound

/-- Saving the design keeps the files together. -/
theorem paired_copied {design : List UInt8} {count : Nat} (h : Paired checkout files)
    (hparse : checkout.parse design = .ok workflow)
    (hcareful : careful checkout (.copying design workflow) (.copied (some count)) files = true) :
    Paired checkout { files with copy := some (design.take count) } ∧
      Owned checkout { files with copy := some (design.take count) } workflow := by
  have hread : ∀ read, ({ files with copy := some (design.take count) } : Files).Saves checkout
      read → checkout.parse (design.take count) = .ok read := by
    rintro read ⟨contents, hcopy, hcontents⟩
    cases hcopy
    exact hcontents
  rw [careful, Bool.or_eq_true, Bool.and_eq_true, decide_eq_true_iff] at hcareful
  rcases hcareful with ⟨hwhole, hstate⟩ | hunread
  · have howned : Owned checkout { files with copy := some (design.take count) } workflow := by
      intro read hsaves
      have hcontents := hread read hsaves
      rw [List.take_of_length_le hwhole, hparse] at hcontents
      exact (Except.ok.inj hcontents).symm
    refine ⟨⟨h.keyed, ?_⟩, howned⟩
    intro read state hsaves hload
    obtain rfl := howned read hsaves
    have hsame : files.load checkout (workflowNameFor read.main) = some state := hload
    rw [hsame] at hstate
    simpa using hstate
  · have hno : ∀ read, ¬({ files with copy := some (design.take count) } : Files).Saves checkout
        read := fun read hsaves => checkout.not_ok hunread (hread read hsaves)
    exact ⟨h.unread hno, fun read hsaves => absurd hsaves (hno read)⟩

/-- A careful step keeps the files together, and what its phase relies on. -/
theorem step_keeps (h : Paired checkout files) (hfits : Fits checkout files phase)
    (hcareful : careful checkout phase choice files = true)
    (hstep : step checkout phase choice files = some (next, after)) :
    Paired checkout after ∧ Fits checkout after next := by
  have hgone : Paired checkout { files with copy := none } :=
    h.unread fun workflow => Files.not_saves rfl
  have hdeleted (done : Bool) (name : String) :
      Paired checkout (if done then files.delete checkout name else files) := by
    split_ifs
    · exact h.delete
    · exact h
  cases phase <;> cases choice
  case idle.invoke | finished.invoke =>
    cases hstep
    exact ⟨h, fits_invoked h _⟩
  case idle.removed | designing.removed =>
    cases hstep
    exact ⟨.empty, trivial⟩
  case finished.removed =>
    cases hstep
    exact ⟨.empty, quiet_empty⟩
  case offering.resumeFrom | settling.resumeFrom =>
    cases hstep
    exact ⟨h, hfits.1, hfits.2.continues (continues_rewindTo _ _ _)⟩
  case offering.fresh | offering.cancel | settling.cancel =>
    cases hstep
    exact ⟨h, trivial⟩
  case settling.fresh | running.succeeded =>
    cases hstep
    exact ⟨h, hfits.1⟩
  case abandoningState.deleted =>
    cases hstep
    exact ⟨hdeleted _ _, trivial⟩
  case abandoningCopy.deleted done =>
    cases hstep
    cases done
    · exact ⟨h, trivial⟩
    · exact ⟨hgone, trivial⟩
  case designing.designed design =>
    simp only [step] at hstep
    split at hstep
    · cases hstep
    · next workflow hparse =>
      cases hstep
      exact ⟨h, hparse⟩
  case copying.copied design workflow written =>
    cases hstep
    cases written with
    | none =>
      refine ⟨h, ?_⟩
      rintro read ⟨contents, hcopy, hparse⟩
      rw [careful, hcopy, Option.all_some] at hcareful
      exact absurd hparse (Checkout.not_ok hcareful)
    | some count => exact paired_copied h hfits hcareful
  case resuming.saved | rewriting.saved =>
    cases hstep
    exact ⟨h.save hfits.1 hfits.2, hfits.1⟩
  case preparing.proceed workflow settledBefore =>
    cases hstep
    refine ⟨h, ?_⟩
    split_ifs
    · exact hfits
    · exact fits_settled h hfits
  case droppingState.deleted workflow done =>
    cases hstep
    refine ⟨hdeleted _ _, ?_⟩
    cases done <;> exact hfits
  case starting.loaded workflow invocationId confirm =>
    cases hstep
    exact ⟨h, fits_started h hfits invocationId confirm⟩
  case running.persisted workflow state later =>
    simp only [step] at hstep
    split_ifs at hstep with hcontinues
    cases hstep
    have hlater := hfits.2.continues hcontinues
    exact ⟨h.save hfits.1 hlater, hfits.1, hlater.keyed, hlater.hash⟩
  case clearingCopy.removed =>
    cases hstep
    exact ⟨.empty, fun other hsaves => absurd hsaves (Files.not_saves rfl)⟩
  case clearingCopy.deleted workflow done =>
    cases hstep
    cases done
    · exact ⟨h, hfits⟩
    · exact ⟨hgone, fun other hsaves => absurd hsaves (Files.not_saves rfl)⟩
  case clearingState.deleted workflow done =>
    cases hstep
    rw [careful, Bool.and_eq_true] at hcareful
    obtain ⟨rfl, hothers⟩ := hcareful
    exact ⟨h.delete, quiet_cleared hfits hothers⟩
  -- A stop ends any run under way; nothing else is a step.
  all_goals
    cases hstep
    try exact ⟨h, trivial⟩

/-- In careful runs, what is found belongs together, and a clean finish leaves nothing behind. -/
theorem Reached.paired (h : Reached checkout (careful checkout) phase files) :
    Paired checkout files ∧ Fits checkout files phase := by
  induction h with
  | start => exact ⟨.empty, trivial⟩
  | step h hallowed hstep ih => exact step_keeps ih.1 ih.2 hallowed hstep

/-- In every sequence of careful runs, a run that is found has the state of its own definition, and
after a clean finish nothing is offered and no workflow is missed. -/
theorem resume_paired (h : Reached checkout (careful checkout) phase files) :
    (∀ previous, discoverPreviousDynamicRun checkout files = .ok previous →
      previous.state.workflowHash = checkout.definitionHash previous.workflow) ∧
    (phase = .finished → Quiet checkout files) := by
  obtain ⟨hpaired, hfits⟩ := h.paired
  constructor
  · intro previous hfound
    obtain ⟨hsaves, hstate⟩ := hpaired.discovered hfound
    exact hstate.hash hsaves
  · rintro rfl
    exact hfits

/-! ## Runs on one work item -/

def planDesign : List UInt8 :=
  Utf8Text.asciiBytes "title = \"Fix\"\n[[step]]\nname = \"plan\"\nprompt = \"p\"\n".toList

def codeDesign : List UInt8 :=
  Utf8Text.asciiBytes "title = \"Fix\"\n[[step]]\nname = \"code\"\nprompt = \"p\"\n".toList

def testDesign : List UInt8 :=
  Utf8Text.asciiBytes "title = \"Test\"\n[[step]]\nname = \"test\"\nprompt = \"p\"\n".toList

/-- A workflow of one step. -/
def oneStep (title name : String) : GeneratedWorkflow where
  main := { title := some title, steps := [{ name, promptTemplate := "p" }] }

/-- A worktree for work item seven, whose leader knows three designs. -/
def itemSeven : Checkout where
  root := "/r/proj-0007"
  worktree := true
  repoHash := "4b3e7a10"
  workItem := 7
  parse contents :=
    if contents = planDesign then .ok (oneStep "Fix" "plan")
    else if contents = codeDesign then .ok (oneStep "Fix" "code")
    else if contents = testDesign then .ok (oneStep "Test" "test")
    else .error "TOML parse error"
  computeWorkflowHash workflow := String.join (workflow.main.steps.map WorkflowStep.name)

/-- The first state of the run of a workflow of one step. -/
def firstState (title name : String) : WorkflowState :=
  .new 1 title [{ name, promptTemplate := "p" }] name (some 7)

/-- A run that is interrupted is found, with a state of its definition. -/
theorem resume_paired_plan : ∃ (phase : Phase) (files : Files) (previous : PreviousDynamicRun),
    discoverPreviousDynamicRun itemSeven files = .ok previous ∧
    previous.workflow = oneStep "Fix" "plan" ∧
    (∀ previous, discoverPreviousDynamicRun itemSeven files = .ok previous →
      previous.state.workflowHash = itemSeven.definitionHash previous.workflow) ∧
    (phase = .finished → Quiet itemSeven files) := by
  have hfound : ((run itemSeven (careful itemSeven) (.idle, ⟨none, ∅⟩) [
      .invoke true, .designed planDesign, .copied (some 100), .proceed, .loaded 1 true,
      .persisted (firstState "Fix" "plan"), .stopped]).bind fun moved =>
        (discoverPreviousDynamicRun itemSeven moved.2).toOption.map
          PreviousDynamicRun.workflow) = some (oneStep "Fix" "plan") := by
    decide +kernel
  obtain ⟨moved, hrun, hmoved⟩ := Option.bind_eq_some_iff.mp hfound
  obtain ⟨previous, hprevious, hworkflow⟩ := Option.map_eq_some_iff.mp hmoved
  exact ⟨moved.1, moved.2, previous, ok_of_toOption hprevious, hworkflow,
    resume_paired (Reached.start.run hrun)⟩

/-- The design of a run cannot be saved, and its step is interrupted. -/
def unsavedRun : List Choice := [
  .invoke true, .designed planDesign, .copied none, .proceed, .loaded 1 true,
  .persisted (firstState "Fix" "plan"), .stopped]

/-- The next run designs another workflow of the same title, saves it and is killed. -/
def killedRun : List Choice :=
  unsavedRun ++ [.invoke true, .designed codeDesign, .copied (some 100), .stopped]

/-- The next run designs a workflow of another title, saves it and finishes cleanly. -/
def cleanRun : List Choice :=
  unsavedRun ++ [.invoke true, .designed testDesign, .copied (some 100), .proceed,
    .loaded 2 true, .persisted (firstState "Test" "test"), .succeeded, .deleted true, .deleted true]

/-- A saved workflow is resumed with the state of another definition, and after a clean finish the
workflow of another run is missed. -/
theorem mispaired_resume :
    (¬∀ (checkout : Checkout) (phase : Phase) (files : Files),
      Reached checkout (fun _ _ _ => true) phase files →
      ∀ previous, discoverPreviousDynamicRun checkout files = .ok previous →
        previous.state.workflowHash = checkout.definitionHash previous.workflow) ∧
    ¬∀ (checkout : Checkout) (files : Files),
      Reached checkout (fun _ _ _ => true) .finished files → Quiet checkout files := by
  constructor
  · intro hall
    have hfound : ((run itemSeven (fun _ _ _ => true) (.idle, ⟨none, ∅⟩) killedRun).bind
        fun moved => (discoverPreviousDynamicRun itemSeven moved.2).toOption.map fun previous =>
          (previous.state.workflowHash, itemSeven.definitionHash previous.workflow)) =
        some ("plan", "code") := by
      decide +kernel
    obtain ⟨moved, hrun, hmoved⟩ := Option.bind_eq_some_iff.mp hfound
    obtain ⟨previous, hprevious, hhashes⟩ := Option.map_eq_some_iff.mp hmoved
    have hsame := hall itemSeven moved.1 moved.2 (Reached.start.run hrun) previous
      (ok_of_toOption hprevious)
    rw [Prod.mk.injEq] at hhashes
    rw [hhashes.1, hhashes.2] at hsame
    exact absurd hsame (by decide)
  · intro hall
    have hfound : ((run itemSeven (fun _ _ _ => true) (.idle, ⟨none, ∅⟩) cleanRun).map
        fun moved => (moved.1 matches .finished,
          offerDynamicResume itemSeven moved.2 matches .notice (.unusable .missingWorkflow))) =
        some (true, true) := by
      decide +kernel
    obtain ⟨⟨phase, files⟩, hrun, hmoved⟩ := Option.map_eq_some_iff.mp hfound
    obtain ⟨hphase, hoffer⟩ := Prod.mk.inj hmoved
    obtain rfl : phase = .finished := by
      cases phase with
      | finished => rfl
      | _ => cases hphase
    have hquiet := hall itemSeven files (Reached.start.run hrun)
    split at hoffer
    · next hmissing => exact hquiet.misses hmissing
    · cases hoffer

end Awman.Dynamic
