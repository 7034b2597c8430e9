import Awman.Library.NewestPerGroup
import Mathlib.Data.Nat.Basic
import Mathlib.Algebra.Group.Nat.Defs

/-!
# The verdict on the CI runs of a commit

The runs that GitHub reports for a branch are narrowed to those of one commit, of these the newest
of each workflow and trigger, and of these the ones that are not merely a duplicate cancelled by its
concurrency group.  The remaining runs decide.
-/

namespace Awman.Ci

open Awman.NewestPerGroup

/-- A JSON value. -/
inductive Value where
  | null
  | bool (value : Bool)
  /-- A number, by what it is as an unsigned integer of 64 bits if it is one. -/
  | number (asU64 : Option (Fin (2 ^ 64)))
  | string (value : String)
  | array (elements : List Value)
  /-- The fields have different names. -/
  | object (fields : List (String × Value))

/-- The field of an object. -/
def Value.get : Value → String → Option Value
  | .object fields, key => fields.lookup key
  | _, _ => none

/-- The value as an unsigned integer. -/
def Value.asU64 : Value → Option Nat
  | .number asU64 => asU64.map Fin.val
  | _ => none

/-- The value as a text. -/
def Value.asStr : Value → Option String
  | .string value => some value
  | _ => none

/-- A text field, empty if there is none. -/
def strField (value : Value) (key : String) : String :=
  ((value.get key).bind Value.asStr).getD ""

/-- The result of a single status check. -/
inductive CiStatus where
  | notFound
  | running
  | success
  | failed (failures : String)
  deriving DecidableEq, Repr

/-- What kind of status it is, whatever it says about the failures. -/
inductive Verdict where
  | notFound
  | running
  | success
  | failed
  deriving DecidableEq, Repr

/-- The kind of the status. -/
def CiStatus.verdict : CiStatus → Verdict
  | .notFound => .notFound
  | .running => .running
  | .success => .success
  | .failed _ => .failed

/-- A conclusion that fails the commit. -/
def isFailedConclusion (conclusion : String) : Bool :=
  !(conclusion == "" || conclusion == "success" || conclusion == "skipped" ||
    conclusion == "neutral")

/-- The workflow of a run: its id, or its name without one. -/
def workflow (run : Value) : String :=
  match (run.get "workflowId").bind Value.asU64 with
  | some id => if id ≠ 0 then toString id else strField run "name"
  | none => strField run "name"

/-- The id of a run, zero without one. -/
def runId (run : Value) : Nat := ((run.get "id").bind Value.asU64).getD 0

/-- What a run is grouped by. -/
def group (run : Value) : String × String := (workflow run, strField run "event")

/-- The runs of the commit. -/
def runsOf (headSha : String) (runs : List Value) : List Value :=
  runs.filter fun run => strField run "headSha" = headSha

/-- The newest run of the commit for each workflow and trigger. -/
def latestRuns (runs : List Value) (headSha : String) : List Value :=
  latest group runId (runsOf headSha runs)

/-- A cancelled run that another of the runs of its workflow replaces.  The source also asks that
the other be another run, which it is as it did not cancel. -/
def supersededCancel (latest : List Value) (run : Value) : Bool :=
  strField run "conclusion" == "cancelled" &&
    latest.any fun other =>
      workflow other == workflow run && strField other "conclusion" != "cancelled"

/-- The runs that decide CI for the commit. -/
def decisiveRuns (runs : List Value) (headSha : String) : List Value :=
  let latest := latestRuns runs headSha
  latest.filter fun run => !supersededCancel latest run

/-- A run that is not over. -/
def isRunning (run : Value) : Bool := strField run "status" != "completed"

/-- A run that is over and failed. -/
def isFailed (run : Value) : Bool := !isRunning run && isFailedConclusion (strField run "conclusion")

/-- What is said about a failed run. -/
def describeFailure (run : Value) : String :=
  let name := if strField run "name" = "" then "unknown" else strField run "name"
  let conclusion := strField run "conclusion"
  let url := strField run "htmlUrl"
  if url = "" then s!"{name}: {conclusion}" else s!"{name}: {conclusion} ({url})"

/-- The failures among the deciding runs. -/
def failures (runs : List Value) (headSha : String) : List String :=
  ((decisiveRuns runs headSha).filter isFailed).map describeFailure

/-- The status of the commit from the runs. -/
def parseRunList (json : Value) (headSha : String) : Except String CiStatus :=
  match json with
  | .array runs =>
    let decisive := decisiveRuns runs headSha
    if decisive = [] then .ok .notFound
    else if failures runs headSha ≠ [] then .ok (.failed ("; ".intercalate (failures runs headSha)))
    else if decisive.any isRunning then .ok .running
    else .ok .success
  | _ => .error "poll_ci: expected JSON array of runs"

/-- The run is the newest of its workflow and trigger for the commit. -/
def NewestRun (runs : List Value) (headSha : String) (run : Value) : Prop :=
  Newest group runId (runsOf headSha runs) run

/-- The run is cancelled, and a newest run of the same workflow is not. -/
def Superseded (runs : List Value) (headSha : String) (run : Value) : Prop :=
  strField run "conclusion" = "cancelled" ∧
    ∃ other, NewestRun runs headSha other ∧ workflow other = workflow run ∧
      strField other "conclusion" ≠ "cancelled"

/-- The run decides. -/
def Deciding (runs : List Value) (headSha : String) (run : Value) : Prop :=
  NewestRun runs headSha run ∧ ¬ Superseded runs headSha run

/-- The run is completed with a conclusion that does not fail. -/
def Passed (run : Value) : Prop :=
  strField run "status" = "completed" ∧ isFailedConclusion (strField run "conclusion") = false

/-- The run is completed with a conclusion that fails. -/
def FailedRun (run : Value) : Prop :=
  strField run "status" = "completed" ∧ isFailedConclusion (strField run "conclusion") = true

/-- The run is incomplete. -/
def Incomplete (run : Value) : Prop := strField run "status" ≠ "completed"

/-- The verdict on the list of runs is the one the runs of the commit call for. -/
structure SoundVerdict (runs : List Value) (headSha : String) : Prop where
  /-- Success needs a run of the commit, and every newest run passed or superseded. -/
  success : parseRunList (.array runs) headSha = .ok .success →
    (∃ run ∈ runs, strField run "headSha" = headSha) ∧
    ∀ run, NewestRun runs headSha run → Passed run ∨ Superseded runs headSha run
  failed : (∃ text, parseRunList (.array runs) headSha = .ok (.failed text)) ↔
    ∃ run, Deciding runs headSha run ∧ FailedRun run
  /-- Running means that no deciding run failed and one is incomplete. -/
  running : parseRunList (.array runs) headSha = .ok .running ↔
    (∀ run, Deciding runs headSha run → ¬ FailedRun run) ∧
    ∃ run, Deciding runs headSha run ∧ Incomplete run
  otherCommits : ∀ others, runsOf headSha others = runsOf headSha runs →
    parseRunList (.array others) headSha = parseRunList (.array runs) headSha
  /-- If the runs of the commit have different ids, their order does not count. -/
  order : ((runsOf headSha runs).map runId).Nodup → ∀ permuted, runs.Perm permuted →
    (parseRunList (.array permuted) headSha).map CiStatus.verdict =
      (parseRunList (.array runs) headSha).map CiStatus.verdict ∧
    (failures permuted headSha).Perm (failures runs headSha)

variable {runs : List Value} {headSha : String} {run : Value}

theorem mem_latestRuns : run ∈ latestRuns runs headSha ↔ NewestRun runs headSha run :=
  mem_latest

theorem supersededCancel_iff :
    supersededCancel (latestRuns runs headSha) run = true ↔ Superseded runs headSha run := by
  simp only [supersededCancel, Superseded, Bool.and_eq_true, beq_iff_eq, List.any_eq_true,
    bne_iff_ne, mem_latestRuns]

/-- The runs that are kept are the deciding ones. -/
theorem mem_decisiveRuns : run ∈ decisiveRuns runs headSha ↔ Deciding runs headSha run := by
  have hsuperseded : (!supersededCancel (latestRuns runs headSha) run) = true ↔
      ¬ Superseded runs headSha run := by
    rw [Bool.not_eq_true', ← supersededCancel_iff, Bool.not_eq_true]
  rw [decisiveRuns, List.mem_filter, mem_latestRuns, hsuperseded, Deciding]

theorem isRunning_iff : isRunning run = true ↔ Incomplete run := by
  rw [isRunning, Incomplete, bne_iff_ne]

theorem isFailed_iff : isFailed run = true ↔ FailedRun run := by
  rw [isFailed, FailedRun, Bool.and_eq_true, Bool.not_eq_true', isRunning, bne_eq_false_iff_eq]

theorem failures_ne_nil :
    failures runs headSha ≠ [] ↔ ∃ run, Deciding runs headSha run ∧ FailedRun run := by
  rw [failures, ne_eq, List.map_eq_nil_iff, List.filter_eq_nil_iff]
  constructor
  · intro h
    push Not at h
    obtain ⟨run, hmem, hfailed⟩ := h
    exact ⟨run, mem_decisiveRuns.mp hmem, isFailed_iff.mp hfailed⟩
  · intro h hnone
    obtain ⟨run, hdeciding, hfailed⟩ := h
    exact hnone run (mem_decisiveRuns.mpr hdeciding) (isFailed_iff.mpr hfailed)

theorem any_isRunning : (decisiveRuns runs headSha).any isRunning = true ↔
    ∃ run, Deciding runs headSha run ∧ Incomplete run := by
  simp only [List.any_eq_true, mem_decisiveRuns, isRunning_iff]

theorem decisiveRuns_eq_nil : decisiveRuns runs headSha = [] ↔
    ∀ run, ¬ Deciding runs headSha run := by
  rw [List.eq_nil_iff_forall_not_mem]
  simp only [mem_decisiveRuns]

/-- The four ways in which a list of runs is answered. -/
theorem parseRunList_cases (runs : List Value) (headSha : String) :
    (parseRunList (.array runs) headSha = .ok .notFound ∧ ∀ run, ¬ Deciding runs headSha run) ∨
    ((∃ text, parseRunList (.array runs) headSha = .ok (.failed text)) ∧
      ∃ run, Deciding runs headSha run ∧ FailedRun run) ∨
    (parseRunList (.array runs) headSha = .ok .running ∧
      (∀ run, Deciding runs headSha run → ¬ FailedRun run) ∧
      ∃ run, Deciding runs headSha run ∧ Incomplete run) ∨
    (parseRunList (.array runs) headSha = .ok .success ∧
      (∀ run, Deciding runs headSha run → Passed run) ∧ ∃ run, Deciding runs headSha run) := by
  by_cases hnone : decisiveRuns runs headSha = []
  · left
    exact ⟨by simp [parseRunList, hnone], decisiveRuns_eq_nil.mp hnone⟩
  · right
    by_cases hfailures : failures runs headSha = []
    · right
      have hno : ∀ run, Deciding runs headSha run → ¬ FailedRun run := by
        intro run hdeciding hfailed
        exact failures_ne_nil.mpr ⟨run, hdeciding, hfailed⟩ hfailures
      by_cases hrunning : (decisiveRuns runs headSha).any isRunning = true
      · left
        have hanswer : parseRunList (.array runs) headSha = .ok .running := by
          rw [parseRunList]
          rw [if_neg hnone, if_neg (not_not_intro hfailures), if_pos hrunning]
        exact ⟨hanswer, hno, any_isRunning.mp hrunning⟩
      · right
        have hanswer : parseRunList (.array runs) headSha = .ok .success := by
          rw [parseRunList]
          rw [if_neg hnone, if_neg (not_not_intro hfailures), if_neg hrunning]
        have hpassed : ∀ run, Deciding runs headSha run → Passed run := by
          intro run hdeciding
          have hcompleted : strField run "status" = "completed" := by
            by_contra hincomplete
            exact hrunning (any_isRunning.mpr ⟨run, hdeciding, hincomplete⟩)
          have hnotFailed := hno run hdeciding
          refine ⟨hcompleted, ?_⟩
          by_contra hconclusion
          exact hnotFailed ⟨hcompleted, Bool.of_not_eq_false hconclusion⟩
        obtain ⟨run, hrun⟩ := List.exists_mem_of_ne_nil _ hnone
        exact ⟨hanswer, hpassed, run, mem_decisiveRuns.mp hrun⟩
    · left
      have hanswer : parseRunList (.array runs) headSha =
          .ok (.failed ("; ".intercalate (failures runs headSha))) := by
        rw [parseRunList]
        rw [if_neg hnone, if_pos hfailures]
      exact ⟨⟨_, hanswer⟩, failures_ne_nil.mp hfailures⟩

/-- The verdict follows from which runs decide. -/
theorem verdict_congr {others : List Value}
    (h : ∀ run, Deciding others headSha run ↔ Deciding runs headSha run) :
    (parseRunList (.array others) headSha).map CiStatus.verdict =
      (parseRunList (.array runs) headSha).map CiStatus.verdict := by
  have hsome : (decisiveRuns others headSha = []) = (decisiveRuns runs headSha = []) := by
    rw [eq_iff_iff, decisiveRuns_eq_nil, decisiveRuns_eq_nil]
    simp only [h]
  have hfailed : (failures others headSha ≠ []) = (failures runs headSha ≠ []) := by
    rw [eq_iff_iff, failures_ne_nil, failures_ne_nil]
    simp only [h]
  have hrunning : ((decisiveRuns others headSha).any isRunning = true) =
      ((decisiveRuns runs headSha).any isRunning = true) := by
    rw [eq_iff_iff, any_isRunning, any_isRunning]
    simp only [h]
  simp only [parseRunList, hsome, hfailed, hrunning]
  split_ifs <;> rfl

theorem NewestRun.mem (h : NewestRun runs headSha run) :
    run ∈ runs ∧ strField run "headSha" = headSha := by
  have hmem := Newest.mem h
  rw [runsOf, List.mem_filter, decide_eq_true_eq] at hmem
  exact hmem

/-- With different ids the order of the runs does not change which of them decide. -/
theorem decisiveRuns_perm {permuted : List Value} (hperm : runs.Perm permuted)
    (hids : ((runsOf headSha runs).map runId).Nodup) :
    (decisiveRuns runs headSha).Perm (decisiveRuns permuted headSha) := by
  have hlatest : (latestRuns runs headSha).Perm (latestRuns permuted headSha) :=
    latest_perm (hperm.filter _) hids
  have hsuperseded : ∀ run, supersededCancel (latestRuns runs headSha) run =
      supersededCancel (latestRuns permuted headSha) run := by
    intro run
    rw [supersededCancel, supersededCancel, hlatest.any_eq]
  rw [decisiveRuns, decisiveRuns]
  simp only [hsuperseded]
  exact hlatest.filter _

/-- The verdict is sound on every list of runs. -/
theorem parseRunList_sound (runs : List Value) (headSha : String) : SoundVerdict runs headSha := by
  have hcases := parseRunList_cases runs headSha
  refine ⟨?_, ?_, ?_, ?_, ?_⟩
  · intro h
    rcases hcases with ⟨hanswer, -⟩ | ⟨⟨text, hanswer⟩, -⟩ | ⟨hanswer, -⟩ | ⟨-, hpassed, run, hrun⟩
    · rw [hanswer] at h
      cases h
    · rw [hanswer] at h
      cases h
    · rw [hanswer] at h
      cases h
    · refine ⟨⟨run, hrun.1.mem⟩, ?_⟩
      intro other hnewest
      by_cases hsuperseded : Superseded runs headSha other
      · exact Or.inr hsuperseded
      · exact Or.inl (hpassed other ⟨hnewest, hsuperseded⟩)
  · rcases hcases with ⟨hanswer, hnone⟩ | ⟨hanswer, hfailed⟩ | ⟨hanswer, hno, -⟩ |
      ⟨hanswer, hpassed, -⟩
    · simp [hanswer, hnone]
    · exact ⟨fun _ => hfailed, fun _ => hanswer⟩
    · have hnot : ¬ ∃ run, Deciding runs headSha run ∧ FailedRun run := by
        intro h
        obtain ⟨run, hdeciding, hfailed⟩ := h
        exact hno run hdeciding hfailed
      simp [hanswer, hnot]
    · have hnot : ¬ ∃ run, Deciding runs headSha run ∧ FailedRun run := by
        intro h
        obtain ⟨run, hdeciding, hfailed⟩ := h
        have hpass := hpassed run hdeciding
        rw [FailedRun, hpass.2] at hfailed
        exact absurd hfailed.2 Bool.false_ne_true
      simp [hanswer, hnot]
  · rcases hcases with ⟨hanswer, hnone⟩ | ⟨⟨text, hanswer⟩, run, hdeciding, hfailed⟩ |
      ⟨hanswer, hrunning⟩ | ⟨hanswer, hpassed, -⟩
    · simp [hanswer, hnone]
    · have hnot : ¬ ∀ run, Deciding runs headSha run → ¬ FailedRun run :=
        fun h => h run hdeciding hfailed
      simp [hanswer, hnot]
    · exact ⟨fun _ => hrunning, fun _ => hanswer⟩
    · have hnot : ¬ ∃ run, Deciding runs headSha run ∧ Incomplete run := by
        intro h
        obtain ⟨run, hdeciding, hincomplete⟩ := h
        exact hincomplete (hpassed run hdeciding).1
      simp [hanswer, hnot]
  · intro others hothers
    have hdecisive : decisiveRuns others headSha = decisiveRuns runs headSha := by
      rw [decisiveRuns, decisiveRuns, latestRuns, latestRuns, hothers]
    unfold parseRunList failures
    dsimp only
    rw [hdecisive]
  · intro hids permuted hperm
    have hdecisive := decisiveRuns_perm hperm hids
    refine ⟨verdict_congr ?_, ?_⟩
    · intro run
      rw [← mem_decisiveRuns, ← mem_decisiveRuns, hdecisive.mem_iff]
    · exact ((hdecisive.filter _).map _).symm

/-- A cancelled duplicate does not fail the commit that its other trigger passed. -/
example :
    let run := fun (id : Fin (2 ^ 64)) (event conclusion : String) => Value.object
      [("id", .number (some id)), ("workflowId", .number (some 7)), ("event", .string event),
        ("status", .string "completed"), ("conclusion", .string conclusion),
        ("headSha", .string "c0ffee")]
    parseRunList (.array [run 3 "push" "cancelled", run 4 "pull_request" "success"]) "c0ffee" =
      .ok .success := by
  decide

end Awman.Ci
