import Awman.DynamicRuns
import Awman.Library.TextCuts

/-!
# The files of workflow states

The state of a run is kept in a file named after the work item and the workflow.  A name stands in the
file name with every character but letters, digits, dashes and underscores replaced and cut at 64
characters, and the number of a work item is joined to it by a dash, so two runs can share a file.  Runs
that do not share one do not see each other's states.
-/

namespace Awman.Engine

open Awman.Dynamic

/-- What a run is kept under: its work item and the name of its workflow. -/
abbrev RunKey : Type := Option ℕ × String

/-- The states that are kept, by path; each file holds one state. -/
abbrev StateFiles : Type := NameMap String WorkflowState

/-- What a state is kept under. -/
def WorkflowState.runKey (state : WorkflowState) : RunKey :=
  (state.workItem, state.workflowName)

/-- The states of the runs in a repository. -/
structure WorkflowStateStore where
  gitRoot : String
  /-- The hash of a text, in hexadecimal digits. -/
  sha256Hex : String → String

namespace WorkflowStateStore

variable (store : WorkflowStateStore)

/-- The directory the files are in. -/
def dir : String :=
  store.gitRoot ++ "/.awman/workflows"

/-- The first eight digits of the hash of the root. -/
def repoHash : String :=
  String.ofList ((store.sha256Hex store.gitRoot).toList.take 8)

/-- The path of the file for a work item and a workflow. -/
def statePath (workItem : Option ℕ) (workflowName : String) : String :=
  let name := sanitizeNameForFilename workflowName
  let filename := match workItem with
    | some wi => store.repoHash ++ "-" ++ paddedNumber wi ++ "-" ++ name ++ ".json"
    | none => store.repoHash ++ "-" ++ name ++ ".json"
  store.dir ++ "/" ++ filename

/-- The state of a workflow, if there is a file for it. -/
def load (files : StateFiles) (workItem : Option ℕ)
    (workflowName : String) : Option WorkflowState :=
  files.lookup (store.statePath workItem workflowName)

/-- Keep a state. -/
def save (files : StateFiles) (state : WorkflowState) : StateFiles :=
  files.insert (store.statePath state.workItem state.workflowName) state

/-- Remove the file of a workflow. -/
def delete (files : StateFiles) (workItem : Option ℕ)
    (workflowName : String) : StateFiles :=
  files.erase (store.statePath workItem workflowName)

/-- One use of the store. -/
inductive Use where
  | save (state : WorkflowState)
  | delete (workItem : Option ℕ) (workflowName : String)

/-- What a use is for. -/
def Use.runKey : Use → RunKey
  | .save state => state.runKey
  | .delete workItem workflowName => (workItem, workflowName)

/-- What a use does to the files. -/
def perform (store : WorkflowStateStore) (files : StateFiles) : Use → StateFiles
  | .save state => store.save files state
  | .delete workItem workflowName => store.delete files workItem workflowName

/-- The name of one run without a work item is what the number and the name of the other give, or the
runs have one work item, or none, and names that cannot be told apart. -/
def Aliases (first second : RunKey) : Prop :=
  match first.1, second.1 with
  | some m, some n => m = n ∧ sanitizeNameForFilename first.2 = sanitizeNameForFilename second.2
  | none, none => sanitizeNameForFilename first.2 = sanitizeNameForFilename second.2
  | some m, none =>
    sanitizeNameForFilename second.2 = paddedNumber m ++ "-" ++ sanitizeNameForFilename first.2
  | none, some n =>
    sanitizeNameForFilename first.2 = paddedNumber n ++ "-" ++ sanitizeNameForFilename second.2

instance (first second : RunKey) : Decidable (Aliases first second) :=
  match first, second with
  | (some m, name), (some n, name') => inferInstanceAs (Decidable
      (m = n ∧ sanitizeNameForFilename name = sanitizeNameForFilename name'))
  | (none, name), (none, name') => inferInstanceAs (Decidable
      (sanitizeNameForFilename name = sanitizeNameForFilename name'))
  | (some m, name), (none, name') => inferInstanceAs (Decidable
      (sanitizeNameForFilename name' = paddedNumber m ++ "-" ++ sanitizeNameForFilename name))
  | (none, name), (some n, name') => inferInstanceAs (Decidable
      (sanitizeNameForFilename name = paddedNumber n ++ "-" ++ sanitizeNameForFilename name'))

/-- Two runs have different files, and what one of them saves or deletes the other does not see. -/
structure Apart (store : WorkflowStateStore) (first second : RunKey) : Prop where
  /-- The files are different. -/
  path_ne : store.statePath first.1 first.2 ≠ store.statePath second.1 second.2
  /-- What the second one does leaves what the first one loads. -/
  unseen : ∀ files use, Use.runKey use = second →
    store.load (store.perform files use) first.1 first.2 = store.load files first.1 first.2
  /-- What the first one does leaves what the second one loads. -/
  unseen' : ∀ files use, Use.runKey use = first →
    store.load (store.perform files use) second.1 second.2 = store.load files second.1 second.2

variable {store : WorkflowStateStore} {files : StateFiles} {first second key : RunKey}
  {number other : ℕ} {state : WorkflowState}

/-! ## Paths -/

theorem paddedNumber_digits : ∀ character ∈ (paddedNumber number).toList,
    character.isDigit = true := by
  intro character hmem
  rw [paddedNumber, String.toList_ofList] at hmem
  rcases List.mem_append.mp hmem with hzero | hdigit
  · rw [List.eq_of_mem_replicate hzero]
    rfl
  · exact Nat.isDigit_of_mem_toDigits (by omega) (by omega) hdigit

/-- A number is told by its digits, whatever zeros stand before them. -/
theorem paddedNumber_injective (h : paddedNumber number = paddedNumber other) : number = other := by
  have hvalue : ∀ number, Nat.ofDigitChars 10 (paddedNumber number).toList 0 = number := by
    intro number
    rw [paddedNumber, String.toList_ofList, Nat.ofDigitChars_append, Nat.ofDigitChars_replicate_zero,
      Nat.mul_zero, Nat.ofDigitChars_ten_toDigits]
  rw [← hvalue number, h, hvalue other]

/-- The number ends at the first dash. -/
theorem paddedNumber_append_inj {name name' : String} :
    paddedNumber number ++ "-" ++ name = paddedNumber other ++ "-" ++ name' ↔
      number = other ∧ name = name' := by
  constructor
  · intro h
    have hdash : ∀ number, '-' ∉ (paddedNumber number).toList := by
      intro number hmem
      have hdigit := paddedNumber_digits '-' hmem
      cases hdigit
    have hlist := congrArg String.toList h
    simp only [String.toList_append, List.append_assoc] at hlist
    have hfirst := TextCuts.splitOnce_append (hdash number) name.toList
    have hsecond := TextCuts.splitOnce_append (hdash other) name'.toList
    have hcut : (paddedNumber number).toList ++ '-' :: name.toList =
        (paddedNumber other).toList ++ '-' :: name'.toList := hlist
    rw [hcut, hsecond] at hfirst
    obtain ⟨hnumber, hname⟩ := Prod.mk.inj (Option.some.inj hfirst)
    exact ⟨paddedNumber_injective (String.toList_inj.mp hnumber.symm),
      String.toList_inj.mp hname.symm⟩
  · rintro ⟨rfl, rfl⟩
    rfl

/-- What stands between the hash and the extension of a file name. -/
def nameOf (key : RunKey) : String :=
  match key.1 with
  | some wi => paddedNumber wi ++ "-" ++ sanitizeNameForFilename key.2
  | none => sanitizeNameForFilename key.2

theorem statePath_eq (store : WorkflowStateStore) (key : RunKey) :
    store.statePath key.1 key.2 =
      store.dir ++ "/" ++ (store.repoHash ++ "-") ++ (nameOf key ++ ".json") := by
  rcases key with ⟨_ | wi, name⟩
  · simp [statePath, nameOf, String.append_assoc]
  · simp [statePath, nameOf, String.append_assoc]

theorem statePath_eq_iff :
    store.statePath first.1 first.2 = store.statePath second.1 second.2 ↔ Aliases first second := by
  have hnames : store.statePath first.1 first.2 = store.statePath second.1 second.2 ↔
      nameOf first = nameOf second := by
    rw [statePath_eq, statePath_eq, ← String.toList_inj]
    simp only [String.toList_append, List.append_cancel_left_eq, List.append_cancel_right_eq]
    exact String.toList_inj
  rw [hnames]
  rcases first with ⟨_ | m, name⟩ <;> rcases second with ⟨_ | n, name'⟩
  · exact Iff.rfl
  · exact Iff.rfl
  · exact eq_comm
  · exact paddedNumber_append_inj

/-! ## Uses of the store -/

theorem load_perform_ne (use : Use)
    (hne : store.statePath key.1 key.2 ≠ store.statePath use.runKey.1 use.runKey.2) :
    store.load (store.perform files use) key.1 key.2 = store.load files key.1 key.2 := by
  cases use with
  | save state => exact AList.lookup_insert_ne hne
  | delete workItem workflowName => exact AList.lookup_erase_ne hne

/-- Two runs are apart if and only if they do not share a file. -/
theorem apart_iff : store.Apart first second ↔ ¬Aliases first second := by
  constructor
  · intro h haliases
    exact h.path_ne (statePath_eq_iff.mpr haliases)
  · intro haliases
    have hne : store.statePath first.1 first.2 ≠ store.statePath second.1 second.2 :=
      fun heq => haliases (statePath_eq_iff.mp heq)
    refine ⟨hne, ?_, ?_⟩
    · intro files use huse
      exact load_perform_ne use (huse ▸ hne)
    · intro files use huse
      exact load_perform_ne use (huse ▸ hne.symm)

/-- What a run loads was saved for it, if no other run the store is used for shares its file. -/
theorem load_after_uses {uses : List Use}
    (hapart : ∀ use ∈ uses, use.runKey ≠ key → ¬Aliases key use.runKey)
    (hload : store.load (uses.foldl store.perform files) key.1 key.2 = some state) :
    .save state ∈ uses ∧ state.runKey = key ∨ store.load files key.1 key.2 = some state := by
  induction uses generalizing files with
  | nil => exact Or.inr hload
  | cons use rest ih =>
    have hrest := ih (fun other hother => hapart other (List.mem_cons_of_mem _ hother)) hload
    rcases hrest with ⟨hmem, hkey⟩ | hfirst
    · exact Or.inl ⟨List.mem_cons_of_mem _ hmem, hkey⟩
    · by_cases hkey : use.runKey = key
      · cases use with
        | save saved =>
          have hpath : store.statePath saved.workItem saved.workflowName =
              store.statePath key.1 key.2 := by
            rw [← hkey]
            rfl
          rw [load, perform, save, hpath, AList.lookup_insert] at hfirst
          obtain rfl : saved = state := Option.some.inj hfirst
          exact Or.inl ⟨List.mem_cons_self, hkey⟩
        | delete workItem workflowName =>
          have hpath : store.statePath workItem workflowName = store.statePath key.1 key.2 := by
            rw [← hkey]
            rfl
          rw [load, perform, delete, hpath, AList.lookup_erase] at hfirst
          cases hfirst
      · have hne : store.statePath key.1 key.2 ≠
            store.statePath use.runKey.1 use.runKey.2 :=
          fun heq => hapart use List.mem_cons_self hkey (statePath_eq_iff.mp heq)
        rw [load_perform_ne use hne] at hfirst
        exact Or.inr hfirst

/-- Two different runs have different files and do not see what the other saves or deletes, if and only
if their names do not give one file name.  Where that is so of a run and every other the store is used
for, what the run loads was saved for it. -/
theorem stateFiles_apart (store : WorkflowStateStore) (first second : RunKey) :
    (store.Apart first second ↔ ¬Aliases first second) ∧
      ∀ uses : List Use, (∀ use ∈ uses, use.runKey ≠ first → ¬Aliases first use.runKey) →
        ∀ state, store.load (uses.foldl store.perform ∅) first.1 first.2 = some state →
          .save state ∈ uses ∧ state.runKey = first := by
  refine ⟨apart_iff, ?_⟩
  intro uses hapart state hload
  refine (load_after_uses hapart hload).resolve_right ?_
  intro hnone
  rw [load, AList.lookup_empty] at hnone
  cases hnone

/-- A store in a repository whose hash begins with these digits. -/
def sampleStore : WorkflowStateStore :=
  ⟨"/repo", fun _ => "0123abcd4567"⟩

/-- The state of a fresh run without steps. -/
def emptyRun (workItem : Option ℕ) (workflowName : String) : WorkflowState :=
  .new 0 workflowName [] "" workItem

theorem stateFiles_apart_sample :
    sampleStore.Apart (some 42, "implement") (some 43, "implement") ∧
      (emptyRun (some 42) "implement").runKey = (some 42, "implement") := by
  refine ⟨(stateFiles_apart sampleStore _ _).1.mpr ?_, ?_⟩
  · rintro ⟨hitem, -⟩
    cases hitem
  · have hload : sampleStore.load (sampleStore.perform ∅ (.save (emptyRun (some 42) "implement")))
        (some 42) "implement" = some (emptyRun (some 42) "implement") := AList.lookup_insert _
    refine ((stateFiles_apart sampleStore (some 42, "implement") (some 43, "implement")).2
      [.save (emptyRun (some 42) "implement")] ?_ _ hload).2
    intro use huse hkey
    rw [List.mem_singleton.mp huse] at hkey
    exact absurd rfl hkey

/-- A run without a work item whose workflow is named like a run of the work item, and names that differ
in one replaced character: each loads what was saved for the other. -/
theorem state_of_another_run :
    sampleStore.statePath none "0042-implement" = sampleStore.statePath (some 42) "implement" ∧
      sampleStore.load (sampleStore.save ∅ (emptyRun (some 42) "implement")) none "0042-implement" =
        some (emptyRun (some 42) "implement") ∧
      sampleStore.load (sampleStore.save ∅ (emptyRun none "fix a/b")) none "fix a-b" =
        some (emptyRun none "fix a/b") := by
  have hitem : sampleStore.statePath none "0042-implement" =
      sampleStore.statePath (some 42) "implement" :=
    statePath_eq_iff.mpr (by decide : Aliases (none, "0042-implement") (some 42, "implement"))
  have hname : sampleStore.statePath none "fix a-b" = sampleStore.statePath none "fix a/b" :=
    statePath_eq_iff.mpr (by decide : Aliases (none, "fix a-b") (none, "fix a/b"))
  refine ⟨hitem, ?_, ?_⟩
  · rw [load, hitem]
    exact AList.lookup_insert _
  · rw [load, hname]
    exact AList.lookup_insert _

end WorkflowStateStore

end Awman.Engine
