import Awman.EngineErrors
import Awman.Library.CheckedSums
import Mathlib.Tactic.Common
import Mathlib.Algebra.Group.Nat.Defs

/-!
# The limits of a staged file

An image is streamed into a file of the staging directory.  The sink stops at a cap on its bytes and
keeps a floor of free space on the disk: it reads the free space from time to time and reserves a
window up to the next reading.
-/

namespace Awman.Staging

open Awman.CheckedSums
open Awman.Engine (EngineError)

/-- The bytes of a path. -/
abbrev Path := List UInt8

/-- The bytes between two readings of the free space. -/
def diskCheckInterval : Nat := 16 * 1024 * 1024

/-- What the cancellation token and the deadline say. -/
inductive Control where
  | proceed
  | cancelled
  | overdue (diagnostic : String)

/-- Fail once the acquisition is cancelled or overdue. -/
def Control.check : Control → Except EngineError Unit
  | .proceed => .ok ()
  | .cancelled => .error .imageAcquisitionCancelled
  | .overdue diagnostic => .error (.imageSourceFailure diagnostic)

/-- The disk of the staging directory. -/
structure Disk where
  free : Nat
  /-- The platform can tell how many there are. -/
  reports : Bool

/-- The free bytes, as far as the platform can tell. -/
def Disk.available (disk : Disk) : Option Nat := if disk.reports then some disk.free else none

/-- Append bytes to a file of the disk, which takes only so many.  All of them were taken, or the
file grew by those that were. -/
def Disk.writeAll (disk : Disk) (length limit : Nat) : Bool × Disk :=
  let taken := min length (min limit disk.free)
  (taken == length, { disk with free := disk.free - taken })

/-- Fail unless so many more bytes fit on the disk beside the floor. -/
def ensureSpace (disk : Disk) (path : Path) (needed minFree : Nat) : Except EngineError Unit :=
  match disk.available with
  | none => .ok ()
  | some available =>
    let required := saturatingAdd needed minFree
    if available < required then .error (.insufficientDiskSpace path required available)
    else .ok ()

/-- A file that bytes are streamed into. -/
structure StagingSink where
  path : Path
  /-- The directory the path names, if it names one. -/
  parent : Option Path
  written : Nat
  /-- The bytes since the last reading of the free space. -/
  sinceCheck : Nat
  maxBytes : Nat
  minFree : Nat
  /-- The failure that the writer interface recorded. -/
  failure : Option EngineError

/-- A new file. -/
def StagingSink.create (path : Path) (parent : Option Path) (maxBytes minFree : Nat) :
    StagingSink where
  path := path
  parent := parent
  written := 0
  -- The free space is read before the very first write.
  sinceCheck := diskCheckInterval
  maxBytes := maxBytes
  minFree := minFree
  failure := none

/-- A chunk, and what happens around its write. -/
structure Chunk where
  length : Nat
  before : Control := .proceed
  /-- How many bytes the file system takes. -/
  limit : Nat := length
  /-- What it says when it does not take them all. -/
  fault : String := ""
  /-- The control behind the write. -/
  after : Control := .proceed

/-- The path of the directory one is in. -/
def dot : Path := [0x2E]

/-- Read the free space when it is time to. -/
def StagingSink.probe (sink : StagingSink) (disk : Disk) (length : Nat) :
    Option (Except EngineError Unit × StagingSink) :=
  if diskCheckInterval < saturatingAdd sink.sinceCheck length then
    let reset := { sink with sinceCheck := 0 }
    (checkedSub reset.maxBytes reset.written).map fun remaining =>
      let window := max (min remaining diskCheckInterval) length
      (ensureSpace disk (reset.parent.getD dot) window reset.minFree, reset)
  else some (.ok (), sink)

/-- Put a chunk into the file. -/
def StagingSink.store (sink : StagingSink) (disk : Disk) (chunk : Chunk) (next : Nat) :
    Except EngineError Unit × StagingSink × Disk :=
  let (whole, disk) := disk.writeAll chunk.length chunk.limit
  if whole then (chunk.after.check, { sink with written := next }, disk)
  else (.error (.io sink.path chunk.fault), sink, disk)

/-- Append a chunk, with the cap and the floor in force; `none` when an operation leaves the range
of its integers. -/
def StagingSink.writeChunk (sink : StagingSink) (disk : Disk) (chunk : Chunk) :
    Option (Except EngineError Unit × StagingSink × Disk) :=
  match chunk.before.check with
  | .error error => some (.error error, sink, disk)
  | .ok () =>
    (checkedAdd sink.written chunk.length).bind fun next =>
      if sink.maxBytes < next then
        some (.error (.imageArchiveRejected sink.path
          s!"archive exceeds the {sink.maxBytes}-byte limit"), sink, disk)
      else
        (sink.probe disk chunk.length).bind fun probed =>
          match probed.1 with
          | .error error => some (.error error, probed.2, disk)
          | .ok () =>
            (checkedAdd probed.2.sinceCheck chunk.length).map fun since =>
              { probed.2 with sinceCheck := since }.store disk chunk next

/-- The writer interface records why a write failed. -/
def StagingSink.write (sink : StagingSink) (disk : Disk) (chunk : Chunk) :
    Option (Except EngineError Unit × StagingSink × Disk) :=
  (sink.writeChunk disk chunk).map fun outcome =>
    match outcome.1 with
    | .ok () => outcome
    | .error error => (.error error, { outcome.2.1 with failure := some error }, outcome.2.2)

/-- The failure that the writer interface recorded, which is forgotten. -/
def StagingSink.takeFailure (sink : StagingSink) : Option EngineError × StagingSink :=
  (sink.failure, { sink with failure := none })

/-- Flush the file to the disk, and give its path and its size. -/
def StagingSink.finish (sink : StagingSink) (before : Control) (synced : Except String Unit)
    (after : Control) : Except EngineError (Path × Nat) := do
  before.check
  match synced with
  | .ok () =>
    after.check
    .ok (sink.path, sink.written)
  | .error error => .error (.io sink.path error)

/-- A call on a sink. -/
inductive Call where
  | writeChunk (chunk : Chunk)
  | write (chunk : Chunk)
  | takeFailure

/-- The chunk that a call writes. -/
def Call.chunk : Call → Option Chunk
  | .writeChunk chunk => some chunk
  | .write chunk => some chunk
  | .takeFailure => none

/-- What a call answers; taking the failure always succeeds. -/
def Call.step (call : Call) (sink : StagingSink) (disk : Disk) :
    Option (Except EngineError Unit × StagingSink × Disk) :=
  match call with
  | .writeChunk chunk => sink.writeChunk disk chunk
  | .write chunk => sink.write disk chunk
  | .takeFailure => some (.ok (), sink.takeFailure.2, disk)

/-- The calls on a sink so far with their answers, the newest in front. -/
abbrev History := List (Call × Except EngineError Unit)

/-- A sink and its disk after a history of calls. -/
inductive Run (sink : StagingSink) (disk : Disk) : History → StagingSink → Disk → Prop where
  | start : Run sink disk [] sink disk
  | call {history : History} {now next : StagingSink} {nowDisk nextDisk : Disk} (call : Call)
      {answer : Except EngineError Unit} (run : Run sink disk history now nowDisk)
      (hstep : call.step now nowDisk = some (answer, next, nextDisk)) :
      Run sink disk ((call, answer) :: history) next nextDisk

/-! ## What a write does -/

section Writes

variable {sink next : StagingSink} {disk nextDisk : Disk} {chunk : Chunk}
  {answer : Except EngineError Unit}

/-- The bytes of free space that a reading has to find beside the floor. -/
def StagingSink.window (sink : StagingSink) (length : Nat) : Nat :=
  max (min (sink.maxBytes - sink.written) diskCheckInterval) length

/-- The directory whose disk is looked at. -/
def StagingSink.directory (sink : StagingSink) : Path := sink.parent.getD dot

/-- The room for a chunk, and the bytes since the reading behind it: the window still holds the
chunk, or a new reading found room for the next window. -/
inductive Room (sink : StagingSink) (disk : Disk) (length : Nat) : Nat → Prop where
  | held (h : sink.sinceCheck + length ≤ diskCheckInterval) :
      Room sink disk length (sink.sinceCheck + length)
  | read (h : diskCheckInterval < sink.sinceCheck + length)
      (hspace : ensureSpace disk sink.directory (sink.window length) sink.minFree = .ok ()) :
      Room sink disk length length

/-- Everything that a write can do. -/
inductive Wrote (sink : StagingSink) (disk : Disk) (chunk : Chunk) :
    Except EngineError Unit → StagingSink → Disk → Prop where
  | interrupted {error : EngineError} (h : chunk.before.check = .error error) :
      Wrote sink disk chunk (.error error) sink disk
  | capped (h : sink.maxBytes < sink.written + chunk.length) :
      Wrote sink disk chunk (.error (.imageArchiveRejected sink.path
        s!"archive exceeds the {sink.maxBytes}-byte limit")) sink disk
  | full {error : EngineError} (h : diskCheckInterval < sink.sinceCheck + chunk.length)
      (hspace : ensureSpace disk sink.directory (sink.window chunk.length) sink.minFree =
        .error error) :
      Wrote sink disk chunk (.error error) { sink with sinceCheck := 0 } disk
  | failed {since taken : Nat} (room : Room sink disk chunk.length since) :
      Wrote sink disk chunk (.error (.io sink.path chunk.fault)) { sink with sinceCheck := since }
        { disk with free := disk.free - taken }
  | stored {since : Nat} (room : Room sink disk chunk.length since)
      (hcap : sink.written + chunk.length ≤ sink.maxBytes) (hfree : chunk.length ≤ disk.free) :
      Wrote sink disk chunk chunk.after.check
        { sink with sinceCheck := since, written := sink.written + chunk.length }
        { disk with free := disk.free - chunk.length }

theorem store_wrote {since : Nat} (room : Room sink disk chunk.length since)
    (hcap : sink.written + chunk.length ≤ sink.maxBytes)
    (h : StagingSink.store { sink with sinceCheck := since } disk chunk
      (sink.written + chunk.length) = (answer, next, nextDisk)) :
    Wrote sink disk chunk answer next nextDisk := by
  unfold StagingSink.store Disk.writeAll at h
  dsimp only at h
  split at h
  · rename_i hwhole
    have htaken : min chunk.length (min chunk.limit disk.free) = chunk.length := by
      simpa using hwhole
    rw [htaken, Prod.mk.injEq, Prod.mk.injEq] at h
    rw [← h.1, ← h.2.1, ← h.2.2]
    exact .stored room hcap (by omega)
  · rw [Prod.mk.injEq, Prod.mk.injEq] at h
    rw [← h.1, ← h.2.1, ← h.2.2]
    exact .failed room

theorem probe_due_iff : diskCheckInterval < saturatingAdd sink.sinceCheck chunk.length ↔
    diskCheckInterval < sink.sinceCheck + chunk.length := by
  unfold saturatingAdd diskCheckInterval
  omega

/-- Every write is one of the cases above. -/
theorem writeChunk_wrote (h : sink.writeChunk disk chunk = some (answer, next, nextDisk)) :
    Wrote sink disk chunk answer next nextDisk := by
  unfold StagingSink.writeChunk at h
  split at h
  · rename_i error hbefore
    rw [Option.some.injEq, Prod.mk.injEq, Prod.mk.injEq] at h
    rw [← h.1, ← h.2.1, ← h.2.2]
    exact .interrupted hbefore
  · obtain ⟨total, htotal, hrest⟩ := Option.bind_eq_some_iff.mp h
    have htotal := (checkedAdd_eq_some.mp htotal).2
    rw [← htotal] at hrest
    split at hrest
    · rename_i hcap
      rw [Option.some.injEq, Prod.mk.injEq, Prod.mk.injEq] at hrest
      rw [← hrest.1, ← hrest.2.1, ← hrest.2.2]
      exact .capped hcap
    · rename_i hcap
      obtain ⟨probed, hprobe, hstore⟩ := Option.bind_eq_some_iff.mp hrest
      unfold StagingSink.probe at hprobe
      split at hprobe
      · rename_i hdue
        rw [probe_due_iff] at hdue
        obtain ⟨remaining, hremaining, hprobed⟩ := Option.map_eq_some_iff.mp hprobe
        have hwindow : max (min remaining diskCheckInterval) chunk.length =
            sink.window chunk.length := by
          rw [← (checkedSub_eq_some.mp hremaining).2]
          rfl
        dsimp only at hprobed
        rw [hwindow] at hprobed
        rw [← hprobed] at hstore
        dsimp only at hstore
        split at hstore
        · rename_i error hspace
          rw [Option.some.injEq, Prod.mk.injEq, Prod.mk.injEq] at hstore
          rw [← hstore.1, ← hstore.2.1, ← hstore.2.2]
          exact .full hdue hspace
        · rename_i hspace
          obtain ⟨since, hsince, hstored⟩ := Option.map_eq_some_iff.mp hstore
          have hself := (checkedAdd_eq_some.mp hsince).2
          rw [← hself, Nat.zero_add] at hstored
          exact store_wrote (.read hdue hspace) (by omega) hstored
      · rename_i hdue
        rw [probe_due_iff] at hdue
        rw [← Option.some.inj hprobe] at hstore
        dsimp only at hstore
        obtain ⟨since, hsince, hstored⟩ := Option.map_eq_some_iff.mp hstore
        have hself := (checkedAdd_eq_some.mp hsince).2
        rw [← hself] at hstored
        exact store_wrote (.held (by omega)) (by omega) hstored

theorem ensureSpace_ok {path : Path} {needed minFree : Nat}
    (h : ensureSpace disk path needed minFree = .ok ()) (hreports : disk.reports = true)
    (hfree : disk.free + 1 < 2 ^ 64) : needed + minFree ≤ disk.free := by
  unfold ensureSpace Disk.available at h
  rw [if_pos hreports] at h
  dsimp only at h
  split at h
  · cases h
  · rename_i hroom
    -- A saturated requirement is the largest integer, which is more than is free.
    unfold saturatingAdd at hroom
    omega

theorem ensureSpace_error {path : Path} {needed minFree : Nat} {error : EngineError}
    (h : ensureSpace disk path needed minFree = .error error) :
    ∃ required available, error = .insufficientDiskSpace path required available := by
  unfold ensureSpace at h
  split at h
  · cases h
  · dsimp only at h
    split at h
    · exact ⟨_, _, (Except.error.inj h).symm⟩
    · cases h

/-- The arithmetic of a write within the cap leaves its range exactly when the total would. -/
theorem writeChunk_eq_none_iff (hwritten : sink.written ≤ sink.maxBytes) :
    sink.writeChunk disk chunk = none ↔
      chunk.before.check = .ok () ∧ 2 ^ 64 ≤ sink.written + chunk.length := by
  unfold StagingSink.writeChunk
  cases hbefore : chunk.before.check with
  | error error => simp
  | ok done =>
    dsimp only
    by_cases hrange : sink.written + chunk.length < 2 ^ 64
    · have htotal : checkedAdd sink.written chunk.length = some (sink.written + chunk.length) :=
        if_pos hrange
      have hsub : checkedSub sink.maxBytes sink.written = some (sink.maxBytes - sink.written) :=
        if_pos hwritten
      have hnot : ¬ (Except.ok done = (Except.ok () : Except EngineError Unit) ∧
          2 ^ 64 ≤ sink.written + chunk.length) := fun hboth => by omega
      rw [htotal, Option.bind_some, iff_false_right hnot]
      by_cases hcap : sink.maxBytes < sink.written + chunk.length
      · rw [if_pos hcap]
        simp
      · rw [if_neg hcap]
        unfold StagingSink.probe
        by_cases hdue : diskCheckInterval < saturatingAdd sink.sinceCheck chunk.length
        · rw [if_pos hdue]
          dsimp only
          rw [hsub, Option.map_some, Option.bind_some]
          have hsince : checkedAdd 0 chunk.length = some (0 + chunk.length) :=
            if_pos (by omega)
          dsimp only
          split <;> simp [hsince]
        · rw [if_neg hdue, Option.bind_some]
          rw [probe_due_iff] at hdue
          have hsince : checkedAdd sink.sinceCheck chunk.length =
              some (sink.sinceCheck + chunk.length) :=
            if_pos (by unfold diskCheckInterval at hdue; omega)
          simp [hsince]
    · have htotal : checkedAdd sink.written chunk.length = none := if_neg hrange
      rw [htotal]
      simp only [Option.bind_none, true_iff, true_and]
      omega

end Writes

/-! ## Histories of calls -/

/-- The failure is one of the disk. -/
def ofDisk : EngineError → Bool
  | .insufficientDiskSpace _ _ _ => true
  | .io _ _ => true
  | _ => false

/-- No write was refused for lack of space, and none failed in the file system. -/
def Undisturbed (history : History) : Prop :=
  ∀ entry ∈ history, ∀ error, entry.2 = .error error → ofDisk error = false

/-- The failure recorded behind a call. -/
def recorded (call : Call) (answer : Except EngineError Unit) (before : Option EngineError) :
    Option EngineError :=
  match call, answer with
  | .write _, .error error => some error
  | .takeFailure, _ => none
  | _, _ => before

/-- The failure of the newest refused write through the writer interface, unless it was taken. -/
def pending : History → Option EngineError
  | [] => none
  | (call, answer) :: history => recorded call answer (pending history)

section Runs

variable {sink next : StagingSink} {disk nextDisk : Disk} {call : Call} {chunk : Chunk}
  {answer : Except EngineError Unit} {history : History} {path : Path} {parent : Option Path}
  {maxBytes minFree : Nat} {startDisk : Disk}

/-- A call that writes does what a write does, and may record why it failed. -/
theorem step_wrote (hchunk : call.chunk = some chunk)
    (hstep : call.step sink disk = some (answer, next, nextDisk)) :
    ∃ middle, Wrote sink disk chunk answer middle nextDisk ∧
      next = { middle with failure := recorded call answer middle.failure } := by
  cases call with
  | takeFailure => cases hchunk
  | writeChunk own =>
    rw [Call.chunk, Option.some.injEq] at hchunk
    rw [Call.step, hchunk] at hstep
    exact ⟨next, writeChunk_wrote hstep, rfl⟩
  | write own =>
    rw [Call.chunk, Option.some.injEq] at hchunk
    rw [Call.step, hchunk, StagingSink.write] at hstep
    obtain ⟨⟨result, middle, middleDisk⟩, hwrite, houtcome⟩ := Option.map_eq_some_iff.mp hstep
    have hwrote := writeChunk_wrote hwrite
    cases result with
    | ok | error =>
      dsimp only at houtcome
      rw [Prod.mk.injEq, Prod.mk.injEq] at houtcome
      rw [← houtcome.1, ← houtcome.2.1, ← houtcome.2.2]
      exact ⟨middle, hwrote, rfl⟩

theorem step_eq_none_iff (hchunk : call.chunk = some chunk) (hwritten : sink.written ≤ sink.maxBytes) :
    call.step sink disk = none ↔
      chunk.before.check = .ok () ∧ 2 ^ 64 ≤ sink.written + chunk.length := by
  have hnone : sink.writeChunk disk chunk = none ↔ _ := writeChunk_eq_none_iff hwritten
  rw [← hnone]
  cases call with
  | takeFailure => cases hchunk
  | writeChunk own =>
    rw [Call.chunk, Option.some.injEq] at hchunk
    rw [Call.step, hchunk]
  | write own =>
    rw [Call.chunk, Option.some.injEq] at hchunk
    rw [Call.step, hchunk, StagingSink.write, Option.map_eq_none_iff]

/-- What holds of a sink after every history. -/
structure Kept (maxBytes minFree : Nat) (startDisk : Disk) (history : History) (sink : StagingSink)
    (disk : Disk) : Prop where
  cap : sink.maxBytes = maxBytes
  floor : sink.minFree = minFree
  reports : disk.reports = startDisk.reports
  free : disk.free ≤ startDisk.free
  written : sink.written ≤ maxBytes
  /-- The rest of the window is reserved beside the floor, or the window is used up. -/
  reserved : startDisk.reports = true → startDisk.free + 1 < 2 ^ 64 → Undisturbed history →
    diskCheckInterval ≤ sink.sinceCheck ∨
      minFree + min (diskCheckInterval - sink.sinceCheck) (maxBytes - sink.written) ≤ disk.free
  refused : ∀ call path reason chunk, (call, .error (.imageArchiveRejected path reason)) ∈ history →
    call.chunk = some chunk → maxBytes < sink.written + chunk.length
  failure : sink.failure = pending history

theorem kept_create : Kept maxBytes minFree startDisk []
    (.create path parent maxBytes minFree) startDisk where
  cap := rfl
  floor := rfl
  reports := rfl
  free := Nat.le_refl _
  written := Nat.zero_le _
  reserved := fun _ _ _ => Or.inl (Nat.le_refl _)
  refused := by simp
  failure := rfl

theorem Undisturbed.rest {entry : Call × Except EngineError Unit} (h : Undisturbed (entry :: history)) :
    Undisturbed history :=
  fun other hmem => h other (List.mem_cons_of_mem _ hmem)

section

variable (kept : Kept maxBytes minFree startDisk history sink disk)
include kept

/-- Room for a chunk keeps the rest of the window reserved. -/
theorem Room.reserved {since : Nat} (room : Room sink disk chunk.length since) (hreports : startDisk.reports = true)
    (hstart : startDisk.free + 1 < 2 ^ 64) (hundisturbed : Undisturbed history)
    (hcap : sink.written + chunk.length ≤ maxBytes) :
    diskCheckInterval ≤ since ∨
      minFree + min (diskCheckInterval - since) (maxBytes - (sink.written + chunk.length)) ≤
        disk.free - chunk.length := by
  cases room with
  | held hheld =>
    cases kept.reserved hreports hstart hundisturbed with
    | inl hused => exact Or.inl (by omega)
    | inr hreserved => exact Or.inr (by omega)
  | read hdue hspace =>
    have hfree := kept.free
    have hroom := ensureSpace_ok hspace (kept.reports.trans hreports) (by omega)
    rw [StagingSink.window, kept.cap, kept.floor] at hroom
    exact Or.inr (by omega)

/-- Room for a chunk of at least one byte leaves the floor free. -/
theorem Room.floor {since : Nat} (room : Room sink disk chunk.length since) (hreports : startDisk.reports = true)
    (hstart : startDisk.free + 1 < 2 ^ 64) (hundisturbed : Undisturbed history)
    (hcap : sink.written + chunk.length ≤ maxBytes) (hbytes : 0 < chunk.length) :
    minFree ≤ disk.free - chunk.length := by
  cases room with
  | held hheld =>
    cases kept.reserved hreports hstart hundisturbed with
    | inl | inr => omega
  | read hdue hspace =>
    have hfree := kept.free
    have hroom := ensureSpace_ok hspace (kept.reports.trans hreports) (by omega)
    rw [StagingSink.window, kept.floor] at hroom
    omega

/-- What the refusals at the cap say goes on to hold, as the total only grows. -/
theorem Kept.refused_cons {written : Nat}
    (hgrows : sink.written ≤ written)
    (hnew : ∀ path reason, answer = .error (.imageArchiveRejected path reason) →
      ∀ chunk, call.chunk = some chunk → maxBytes < written + chunk.length) :
    ∀ other path reason chunk, (other, .error (.imageArchiveRejected path reason)) ∈
      (call, answer) :: history → other.chunk = some chunk → maxBytes < written + chunk.length := by
  intro other path reason chunk hmem hchunk
  rcases List.mem_cons.mp hmem with heq | hearlier
  · obtain ⟨rfl, rfl⟩ := Prod.mk.inj heq
    exact hnew path reason rfl chunk hchunk
  · have hbefore := kept.refused other path reason chunk hearlier hchunk
    omega

/-- A write keeps what holds of the sink. -/
theorem Kept.wrote {failure : Option EngineError} (hchunk : call.chunk = some chunk)
    (hwrote : Wrote sink disk chunk answer next nextDisk)
    (hfailure : failure = pending ((call, answer) :: history)) :
    Kept maxBytes minFree startDisk ((call, answer) :: history) { next with failure := failure }
      nextDisk := by
  have hrest : startDisk.reports = true → startDisk.free + 1 < 2 ^ 64 →
      Undisturbed ((call, answer) :: history) → _ := fun hreports hstart hundisturbed =>
    kept.reserved hreports hstart hundisturbed.rest
  cases hwrote with
  | interrupted hbefore =>
    refine ⟨kept.cap, kept.floor, kept.reports, kept.free, kept.written, hrest,
      kept.refused_cons (Nat.le_refl _) ?_, hfailure⟩
    intro path reason heq
    rw [Except.error.inj heq] at hbefore
    unfold Control.check at hbefore
    split at hbefore <;> cases hbefore
  | capped hcap =>
    refine ⟨kept.cap, kept.floor, kept.reports, kept.free, kept.written, hrest,
      kept.refused_cons (Nat.le_refl _) ?_, hfailure⟩
    intro path reason _ other hother
    rw [hchunk, Option.some.injEq] at hother
    rw [← hother, ← kept.cap]
    exact hcap
  | full hdue hspace =>
    obtain ⟨required, available, rfl⟩ := ensureSpace_error hspace
    refine ⟨kept.cap, kept.floor, kept.reports, kept.free, kept.written, ?_,
      kept.refused_cons (Nat.le_refl _) nofun, hfailure⟩
    intro hreports hstart hundisturbed
    cases hundisturbed _ (List.mem_cons_self ..) _ rfl
  | failed room =>
    refine ⟨kept.cap, kept.floor, kept.reports, Nat.le_trans (Nat.sub_le _ _) kept.free,
      kept.written, ?_, kept.refused_cons (Nat.le_refl _) nofun, hfailure⟩
    intro hreports hstart hundisturbed
    cases hundisturbed _ (List.mem_cons_self ..) _ rfl
  | stored room hcap hfree =>
    rw [kept.cap] at hcap
    refine ⟨kept.cap, kept.floor, kept.reports, Nat.le_trans (Nat.sub_le _ _) kept.free, hcap, ?_,
      kept.refused_cons (Nat.le_add_right _ _) ?_, hfailure⟩
    · intro hreports hstart hundisturbed
      exact room.reserved kept hreports hstart hundisturbed.rest hcap
    · intro path reason hafter
      unfold Control.check at hafter
      split at hafter <;> cases hafter

theorem Kept.step
    (hstep : call.step sink disk = some (answer, next, nextDisk)) :
    Kept maxBytes minFree startDisk ((call, answer) :: history) next nextDisk := by
  cases hchunk : call.chunk with
  | some chunk =>
    obtain ⟨middle, hwrote, hnext⟩ := step_wrote hchunk hstep
    have hsame : middle.failure = sink.failure := by
      cases hwrote <;> rfl
    rw [hnext, hsame, kept.failure]
    exact kept.wrote hchunk hwrote rfl
  | none =>
    cases call with
    | writeChunk | write => cases hchunk
    | takeFailure =>
      rw [Call.step, Option.some.injEq, Prod.mk.injEq, Prod.mk.injEq] at hstep
      rw [← hstep.1, ← hstep.2.1, ← hstep.2.2]
      refine ⟨kept.cap, kept.floor, kept.reports, kept.free, kept.written, ?_,
        kept.refused_cons (Nat.le_refl _) nofun, rfl⟩
      exact fun hreports hstart hundisturbed => kept.reserved hreports hstart hundisturbed.rest

end

/-- Every history keeps what holds of a new sink. -/
theorem Run.kept (run : Run (.create path parent maxBytes minFree) startDisk history sink disk) :
    Kept maxBytes minFree startDisk history sink disk := by
  induction run with
  | start => exact kept_create
  | call call run hstep ih => exact ih.step hstep

end Runs

/-- The limits of a sink behind a history: which writes leave the range of the integers, what an
accepted write leaves, what becomes of a refused one, and where its reason is kept. -/
structure Limited (maxBytes minFree : Nat) (startDisk : Disk) (history : History)
    (sink : StagingSink) (disk : Disk) : Prop where
  /-- Only a total beyond the largest integer leaves the range. -/
  range : ∀ (call : Call) (chunk : Chunk), call.chunk = some chunk →
    (call.step sink disk = none ↔
      chunk.before.check = .ok () ∧ 2 ^ 64 ≤ sink.written + chunk.length)
  /-- An accepted write is counted, and the total is within the cap. -/
  total : ∀ (call : Call) (chunk : Chunk) (next : StagingSink) (nextDisk : Disk),
    call.chunk = some chunk → call.step sink disk = some (.ok (), next, nextDisk) →
    next.written = sink.written + chunk.length ∧ next.written ≤ maxBytes
  /-- Until the disk refuses or fails a write, an accepted one of some bytes leaves the floor. -/
  floor : ∀ (call : Call) (chunk : Chunk) (next : StagingSink) (nextDisk : Disk),
    call.chunk = some chunk → call.step sink disk = some (.ok (), next, nextDisk) →
    startDisk.reports = true → startDisk.free + 1 < 2 ^ 64 → 0 < chunk.length →
    Undisturbed history → minFree ≤ nextDisk.free
  /-- A write that the cap refuses changes nothing but the recorded failure. -/
  unchanged : ∀ (call : Call) (path : Path) (reason : String) (next : StagingSink) (nextDisk : Disk),
    call.step sink disk = some (.error (.imageArchiveRejected path reason), next, nextDisk) →
    { next with failure := sink.failure } = sink ∧ nextDisk = disk
  /-- Behind a write that the cap refused no write of as many bytes is accepted. -/
  again : ∀ (earlier : Call) (path : Path) (reason : String) (chunk : Chunk),
    (earlier, .error (.imageArchiveRejected path reason)) ∈ history → earlier.chunk = some chunk →
    ∀ (call : Call) (other : Chunk) (next : StagingSink) (nextDisk : Disk),
      call.chunk = some other → chunk.length ≤ other.length →
      call.step sink disk ≠ some (.ok (), next, nextDisk)
  /-- The failure of the newest refused write through the writer interface waits to be taken. -/
  taken : sink.takeFailure.1 = pending history
  /-- Finishing does not look at it. -/
  finished : ∀ (before : Control) (synced : Except String Unit) (after : Control),
    { sink with failure := none }.finish before synced after = sink.finish before synced after

section Limits

variable {sink next : StagingSink} {disk nextDisk : Disk} {chunk : Chunk} {history : History}
  {path : Path} {parent : Option Path} {maxBytes minFree : Nat} {startDisk : Disk}

/-- What an accepted write has passed. -/
theorem Wrote.accepted (hwrote : Wrote sink disk chunk (.ok ()) next nextDisk) :
    ∃ since, Room sink disk chunk.length since ∧
      sink.written + chunk.length ≤ sink.maxBytes ∧
      next.written = sink.written + chunk.length ∧ nextDisk.free = disk.free - chunk.length := by
  generalize hanswer : (Except.ok () : Except EngineError Unit) = answer at hwrote
  cases hwrote with
  | interrupted | capped | full | failed => cases hanswer
  | stored room hcap hfree => exact ⟨_, room, hcap, rfl, rfl⟩

/-- A write that the cap refused left the sink and the disk as they were. -/
theorem Wrote.rejected {reason : String}
    (hwrote : Wrote sink disk chunk (.error (.imageArchiveRejected path reason)) next nextDisk) :
    next = sink ∧ nextDisk = disk := by
  generalize hanswer :
    (Except.error (.imageArchiveRejected path reason) : Except EngineError Unit) = answer at hwrote
  cases hwrote with
  | interrupted | capped => exact ⟨rfl, rfl⟩
  | full hdue hspace =>
    obtain ⟨required, available, herror⟩ := ensureSpace_error hspace
    rw [Except.error.injEq, herror] at hanswer
    cases hanswer
  | failed room => cases hanswer
  | stored room hcap hfree =>
    unfold Control.check at hanswer
    split at hanswer <;> cases hanswer

/-- Every history of calls on a new sink keeps its limits. -/
theorem staging_limits (run : Run (.create path parent maxBytes minFree) startDisk history sink disk) :
    Limited maxBytes minFree startDisk history sink disk := by
  have kept := run.kept
  have hcap := kept.cap
  refine ⟨?_, ?_, ?_, ?_, ?_, kept.failure, fun _ _ _ => rfl⟩
  · intro call chunk hchunk
    exact step_eq_none_iff hchunk (by rw [hcap]; exact kept.written)
  · intro call chunk next nextDisk hchunk hstep
    obtain ⟨middle, hwrote, hnext⟩ := step_wrote hchunk hstep
    obtain ⟨since, room, hfits, htotal, hfree⟩ := hwrote.accepted
    have hsame : next.written = middle.written := by rw [hnext]
    rw [hsame, htotal]
    exact ⟨rfl, by omega⟩
  · intro call chunk next nextDisk hchunk hstep hreports hstart hbytes hundisturbed
    obtain ⟨middle, hwrote, hnext⟩ := step_wrote hchunk hstep
    obtain ⟨since, room, hfits, htotal, hfree⟩ := hwrote.accepted
    rw [hcap] at hfits
    rw [hfree]
    exact room.floor kept hreports hstart hundisturbed hfits hbytes
  · intro call path reason next nextDisk hstep
    cases hchunk : call.chunk with
    | some chunk =>
      obtain ⟨middle, hwrote, hnext⟩ := step_wrote hchunk hstep
      obtain ⟨hmiddle, hdisk⟩ := hwrote.rejected
      rw [hnext, hmiddle]
      exact ⟨rfl, hdisk⟩
    | none =>
      cases call with
      | writeChunk | write => cases hchunk
      | takeFailure => cases hstep
  · intro earlier path reason chunk hmem hearlier call other next nextDisk hchunk hlonger hstep
    have hrefused := kept.refused earlier path reason chunk hmem hearlier
    obtain ⟨middle, hwrote, hnext⟩ := step_wrote hchunk hstep
    obtain ⟨since, room, hfits, htotal, hfree⟩ := hwrote.accepted
    omega

end Limits

/-- The path of a staged archive. -/
def archivePath : Path := "archive.tar".toList.flatMap String.utf8EncodeChar

/-- A sink that may take a hundred bytes and has to leave a thousand. -/
def smallSink : StagingSink := .create archivePath none 100 1000

theorem staging_limits_small :
    ∃ sink disk, (Call.writeChunk { length := 10 }).step smallSink { free := 1100, reports := true } =
      some (.ok (), sink, disk) ∧ sink.written ≤ 100 ∧ 1000 ≤ disk.free := by
  have limits := staging_limits (.start : Run smallSink { free := 1100, reports := true } []
    smallSink { free := 1100, reports := true })
  have hstep : (Call.writeChunk { length := 10 }).step smallSink { free := 1100, reports := true } =
      some (.ok (), { smallSink with sinceCheck := 10, written := 10 },
        { free := 1090, reports := true }) := rfl
  exact ⟨_, _, hstep, (limits.total _ _ _ _ rfl hstep).2,
    limits.floor _ _ _ _ rfl hstep rfl (by decide) (by decide) (by simp [Undisturbed])⟩

/-- A write refused for lack of space is followed by one that is accepted below the floor, and the
sink finishes. -/
theorem accepted_below_floor :
    ∃ error refused accepted disk,
      (Call.write { length := 10 }).step smallSink { free := 500, reports := true } =
        some (.error error, refused, { free := 500, reports := true }) ∧
      (Call.write { length := 10 }).step refused { free := 500, reports := true } =
        some (.ok (), accepted, disk) ∧
      disk.free < 1000 ∧
      accepted.finish .proceed (.ok ()) .proceed = .ok (archivePath, 10) :=
  ⟨_, _, _, _, rfl, rfl, by decide, rfl⟩

end Awman.Staging
