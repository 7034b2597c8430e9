import Awman.PrerequisiteGrants

/-!
# One map of decisions for all handles

Handles are loaded at any time and remember and revoke in any order.  A freshly loaded handle then has
for a key the decision that was remembered last and not revoked since, as long as no URL is remembered
whose kept form has blanks around it, and no handle revokes by an index at which its own list and the
file differ.
-/

namespace Awman.Grants

open Awman.Network (trim)
open Awman.Remotes (parse)
open Awman.Utf8Text (asciiBytes)

/-- The file and the handles on it. -/
structure World where
  /-- What is at the path of the file. -/
  disk : Disk
  handles : Nat → Option PrerequisiteGrantStore

/-- What is done through a handle. -/
inductive Call where
  | load
  | remember (key : GrantKey) (grant : RememberedGrant) (now : Text)
  | revoke (selector : GrantSelector)

/-- What a call is meant to do to the decisions. -/
inductive Effect where
  /-- The decision for a key is from now on this one. -/
  | remembered (key : GrantKey) (grant : RememberedGrant)
  /-- There is no decision for a key any more. -/
  | revoked (key : GrantKey)
  /-- There are no decisions any more. -/
  | cleared

/-- The decision for a key after effects, the last one first. -/
def decision : List Effect → GrantKey → Option RememberedGrant
  | [], _ => none
  | .remembered key grant :: earlier, other => if other = key then some grant else decision earlier other
  | .revoked key :: earlier, other => if other = key then none else decision earlier other
  | .cleared :: _, _ => none

/-- The record that a handle lists at an index; indexes begin at one. -/
def listed (store : PrerequisiteGrantStore) (index : Nat) : Option GrantRecord :=
  if index = 0 then none else store.file.records[index - 1]?

variable (system : System)

/-- The effects that a revocation by a handle is meant to have. -/
def revocation (store : PrerequisiteGrantStore) : GrantSelector → List Effect
  | .all => [.cleared]
  | .index index => ((listed store index).map fun record => Effect.revoked record.key).toList
  | .key key =>
    match canonicalKey system key with
    | .error _ => []
    | .ok key => [.revoked key]

/-- A call through a handle, with the effects it is meant to have.  A call that is refused or fails
changes nothing. -/
inductive Step (world : World) (handle : Nat) : Call → List Effect → World → Prop where
  | loaded : Step world handle .load []
      { world with handles := Function.update world.handles handle (some (load system world.disk)) }
  | remembered {store saved : PrerequisiteGrantStore} {key canonical : GrantKey}
      {grant : RememberedGrant} {now : Text} {disk : Disk} (hhandle : world.handles handle = some store)
      (hkey : canonicalKey system key = .ok canonical)
      (hsaved : Grants.remember system world.disk key grant now = .ok (saved, disk)) :
      Step world handle (.remember key grant now) [.remembered canonical grant]
        ⟨disk, Function.update world.handles handle (some saved)⟩
  | revoked {store saved : PrerequisiteGrantStore} {selector : GrantSelector} {removed : Nat}
      {disk : Disk} (hhandle : world.handles handle = some store)
      (hsaved : Grants.revoke system world.disk selector = .ok (removed, saved, disk)) :
      Step world handle (.revoke selector) (revocation system store selector)
        ⟨disk, Function.update world.handles handle (some saved)⟩
  | failed {call : Call} : Step world handle call [] world

/-- Calls through any handles in any order, each one allowed in the world in which it is made. -/
inductive Run (allowed : World → Nat → Call → Prop) (start : Disk) : List Effect → World → Prop where
  | start : Run allowed start [] ⟨start, fun _ => none⟩
  | step {history effects : List Effect} {world next : World} {handle : Nat} {call : Call}
      (hrun : Run allowed start history world) (hallowed : allowed world handle call)
      (hstep : Step system world handle call effects next) :
      Run allowed start (effects ++ history) next

/-- A URL is remembered only when no blanks stand around what is kept of it, and an index is revoked only
when the handle lists there what the file has there. -/
def Faithful (world : World) (handle : Nat) : Call → Prop
  | .load => True
  | .remember key _ _ => trim (parse key.remoteUrl).redacted = (parse key.remoteUrl).redacted
  | .revoke (.index index) => ∀ store, world.handles handle = some store →
      (listed store index).map GrantRecord.key =
        (listed (load system world.disk) index).map GrantRecord.key
  | .revoke _ => True

/-! ## What one call does -/

variable {system} {world next : World} {handle : Nat} {call : Call} {history effects : List Effect}
  {key canonical : GrantKey} {grant : RememberedGrant} {now : Text} {disk after : Disk}
  {store saved : PrerequisiteGrantStore}

/-- The file is sound and holds the decisions. -/
structure Holds (system : System) (history : List Effect) (disk : Disk) : Prop where
  sound : Sound (load system disk).file
  decisions : ∀ key, findRecord (load system disk).file.records key = decision history key

theorem canonicalKey_eq_ok (h : canonicalKey system key = .ok canonical) :
    isAbsolute canonical.gitRoot = true ∧ canonical.remoteUrl = (parse key.remoteUrl).redacted := by
  rw [canonicalKey] at h
  cases hroot : system.canonicalize key.gitRoot with
  | error reason =>
    rw [hroot] at h
    cases h
  | ok gitRoot =>
    rw [hroot] at h
    cases h
    exact ⟨system.isAbsolute_canonicalize _ _ hroot, rfl⟩

/-- What remembering saves. -/
theorem remember_eq_ok (hkey : canonicalKey system key = .ok canonical)
    (h : Grants.remember system disk key grant now = .ok (saved, after)) :
    validDecision canonical grant = true ∧
      save system { (load system disk).file with
        records := withRecord (load system disk).file.records ⟨canonical, grant, now⟩ } =
          .ok (saved, after) := by
  rw [Grants.remember, hkey] at h
  dsimp only at h
  split_ifs at h with hvalid
  exact ⟨by simpa using hvalid, h⟩

theorem Holds.remember (hholds : Holds system history disk)
    (hkey : canonicalKey system key = .ok canonical)
    (htrim : trim (parse key.remoteUrl).redacted = (parse key.remoteUrl).redacted)
    (h : Grants.remember system disk key grant now = .ok (saved, after)) :
    Holds system (.remembered canonical grant :: history) after := by
  obtain ⟨hvalid, hsave⟩ := remember_eq_ok hkey h
  obtain ⟨habsolute, hurl⟩ := canonicalKey_eq_ok hkey
  have hnew : Settled ⟨canonical, grant, now⟩ := by
    refine ⟨habsolute, hvalid, ?_⟩
    rw [hurl, Remotes.redacted_redacted, htrim]
  have hgone : findRecord ((load system disk).file.records.filter
      fun record => record.key ≠ canonical) canonical = none := by
    rw [findRecord_filter, if_pos rfl]
  have hsound : Sound { (load system disk).file with
      records := withRecord (load system disk).file.records ⟨canonical, grant, now⟩ } := by
    refine ⟨hholds.sound.version, fun record hrecord => ?_, ?_⟩
    · rcases List.mem_append.mp hrecord with hold | hadded
      · exact hholds.sound.settled record (List.mem_filter.mp hold).1
      · rw [List.mem_singleton.mp hadded]
        exact hnew
    · rw [withRecord, List.map_append, List.map_singleton]
      refine (hholds.sound.distinct.sublist (List.filter_sublist.map GrantRecord.key)).append
        (List.nodup_singleton _) ?_
      intro other hother hsame
      rw [List.mem_singleton] at hsame
      rw [hsame] at hother
      exact findRecord_eq_none_iff.mp hgone hother
  have hload := (load_save hsound hsave).1
  refine ⟨hload ▸ hsound, fun other => ?_⟩
  rw [hload, decision, findRecord_withRecord, hholds.decisions]

variable {records : List GrantRecord}

/-- Fewer records of a sound file are sound. -/
theorem Sound.sublist {file : GrantStoreFile} (hsound : Sound file)
    (hrecords : records.Sublist file.records) : Sound { file with records := records } :=
  ⟨hsound.version, fun record hrecord => hsound.settled record (hrecords.subset hrecord),
    hsound.distinct.sublist (hrecords.map GrantRecord.key)⟩

/-- Saving fewer records has the effects that tell which decisions are left. -/
theorem Holds.save (hholds : Holds system history disk)
    (hrecords : records.Sublist (load system disk).file.records)
    (hdecisions : ∀ key, findRecord records key = decision (effects ++ history) key)
    (h : Grants.save system { (load system disk).file with records := records } = .ok (saved, after)) :
    Holds system (effects ++ history) after := by
  have hsound := hholds.sound.sublist hrecords
  have hload := (load_save hsound h).1
  refine ⟨hload ▸ hsound, fun key => ?_⟩
  rw [hload]
  exact hdecisions key

theorem revoke_eq_ok {selector : GrantSelector} {removed : Nat}
    (h : Grants.revoke system disk selector = .ok (removed, saved, after)) :
    ∃ records, leftBy system selector (load system disk).file.records = .ok records ∧
      Grants.save system { (load system disk).file with records := records } = .ok (saved, after) := by
  rw [Grants.revoke] at h
  cases hleft : leftBy system selector (load system disk).file.records with
  | error reason =>
    rw [hleft] at h
    cases h
  | ok records =>
    rw [hleft] at h
    dsimp only at h
    cases hsave : Grants.save system { (load system disk).file with records := records } with
    | error reason =>
      rw [hsave] at h
      cases h
    | ok result =>
      rw [hsave] at h
      cases h
      exact ⟨records, rfl, hsave⟩

/-- An index leaves the records of other keys than the one listed there. -/
theorem leftBy_index {index : Nat} (hdistinct : (store.file.records.map GrantRecord.key).Nodup)
    (h : leftBy system (.index index) store.file.records = .ok records) :
    records = store.file.records.filter fun record =>
      some record.key ≠ (listed store index).map GrantRecord.key := by
  rw [leftBy] at h
  by_cases hrange : 0 < index ∧ index ≤ store.file.records.length
  · obtain ⟨record, hrecord⟩ : ∃ record, store.file.records[index - 1]? = some record :=
      ⟨_, List.getElem?_eq_getElem (by omega)⟩
    have hlisted : listed store index = some record := by
      rw [listed, if_neg (by omega), hrecord]
    rw [if_pos hrange] at h
    rw [← Except.ok.inj h, eraseIdx_eq_filter hdistinct hrecord, hlisted, Option.map_some]
    simp only [ne_eq, Option.some.injEq]
  · have hlisted : listed store index = none := by
      rw [listed]
      split_ifs with hzero
      · rfl
      · exact List.getElem?_eq_none (by omega)
    rw [if_neg hrange] at h
    rw [← Except.ok.inj h, hlisted, Option.map_none]
    simp

/-- What a selector leaves, where an index means what the file lists there. -/
theorem leftBy_decisions {selector : GrantSelector}
    (hholds : Holds system history disk)
    (hindex : ∀ index, selector = .index index → (listed store index).map GrantRecord.key =
      (listed (load system disk) index).map GrantRecord.key)
    (h : leftBy system selector (load system disk).file.records = .ok records) :
    records.Sublist (load system disk).file.records ∧
      ∀ key, findRecord records key = decision (revocation system store selector ++ history) key := by
  cases selector with
  | all =>
    cases h
    exact ⟨List.nil_sublist _, fun key => rfl⟩
  | key selected =>
    rw [leftBy] at h
    rw [revocation]
    cases hkey : canonicalKey system selected with
    | error reason =>
      rw [hkey] at h
      cases h
    | ok canonical =>
      rw [hkey] at h
      cases h
      refine ⟨List.filter_sublist, fun key => ?_⟩
      rw [findRecord_filter, hholds.decisions]
      rfl
  | index index =>
    have hrecords := leftBy_index hholds.sound.distinct h
    rw [← hindex index rfl] at hrecords
    refine ⟨hrecords ▸ List.filter_sublist, fun key => ?_⟩
    rw [hrecords, revocation]
    cases listed store index with
    | none =>
      have hall : ((load system disk).file.records.filter fun record => some record.key ≠ none) =
          (load system disk).file.records := by simp
      rw [Option.map_none, hall]
      exact hholds.decisions key
    | some own =>
      have hfilter := findRecord_filter (load system disk).file.records own.key key
      rw [hholds.decisions] at hfilter
      simp only [Option.map_some, ne_eq, Option.some.injEq] at hfilter ⊢
      exact hfilter

/-- A call that is faithful keeps the decisions. -/
theorem Holds.step (hholds : Holds system history world.disk)
    (hfaithful : Faithful system world handle call) (hstep : Step system world handle call effects next) :
    Holds system (effects ++ history) next.disk := by
  cases hstep with
  | loaded | failed => exact hholds
  | remembered hhandle hkey hsaved => exact hholds.remember hkey hfaithful hsaved
  | @revoked store saved selector removed disk hhandle hsaved =>
    obtain ⟨records, hleft, hsave⟩ := revoke_eq_ok hsaved
    have hindex : ∀ index, selector = .index index → (listed store index).map GrantRecord.key =
        (listed (Grants.load system world.disk) index).map GrantRecord.key := by
      rintro index rfl
      exact hfaithful store hhandle
    obtain ⟨hsublist, hdecisions⟩ := leftBy_decisions hholds hindex hleft
    exact hholds.save hsublist hdecisions hsave

/-- After faithful calls the file holds the decisions. -/
theorem Run.holds {start : Disk} (hstart : (load system start).file = emptyFile)
    (hrun : Run system (Faithful system) start history world) : Holds system history world.disk := by
  induction hrun with
  | start =>
    refine ⟨?_, fun key => ?_⟩
    · rw [hstart]
      exact ⟨rfl, fun record hrecord => absurd hrecord (List.not_mem_nil), List.nodup_nil⟩
    · rw [hstart]
      rfl
  | step hrun hallowed hstep ih => exact ih.step hallowed hstep

/-- The records after a revocation by an index are those of the other keys than the listed one. -/
theorem Holds.revoke_index {index removed : Nat} (hholds : Holds system history disk)
    (hsame : (listed store index).map GrantRecord.key =
      (listed (load system disk) index).map GrantRecord.key)
    (h : Grants.revoke system disk (.index index) = .ok (removed, saved, after)) :
    (load system after).file.records = (load system disk).file.records.filter fun record =>
      some record.key ≠ (listed store index).map GrantRecord.key := by
  obtain ⟨records, hleft, hsave⟩ := revoke_eq_ok h
  have hindex : ∀ other, GrantSelector.index index = .index other →
      (listed store other).map GrantRecord.key =
        (listed (load system disk) other).map GrantRecord.key := by
    intro other hother
    cases hother
    exact hsame
  obtain ⟨hsublist, -⟩ := leftBy_decisions hholds hindex hleft
  rw [(load_save (hholds.sound.sublist hsublist) hsave).1, hsame]
  exact leftBy_index hholds.sound.distinct hleft

/-- Whatever handles remember and revoke in whatever order, as long as every call is faithful, a freshly
loaded handle has for each key the decision that was remembered last and not revoked since, and revoking
by an index removes the record that the handle listed there and no other one. -/
theorem decisions_after_run {start : Disk} (hstart : (load system start).file = emptyFile)
    (hrun : Run system (Faithful system) start history world) :
    (∀ key, (load system world.disk).lookup system key =
      match canonicalKey system key with
      | .error _ => none
      | .ok canonical => decision history canonical) ∧
    ∀ handle store index removed saved disk, world.handles handle = some store →
      Faithful system world handle (.revoke (.index index)) →
        Grants.revoke system world.disk (.index index) = .ok (removed, saved, disk) →
          (load system disk).file.records = (load system world.disk).file.records.filter fun record =>
            some record.key ≠ (listed store index).map GrantRecord.key := by
  have hholds := hrun.holds hstart
  constructor
  · intro key
    rw [PrerequisiteGrantStore.lookup]
    cases canonicalKey system key with
    | error reason => rfl
    | ok canonical => exact hholds.decisions canonical
  · intro handle store index removed saved disk hhandle hfaithful hrevoke
    exact hholds.revoke_index (hfaithful store hhandle) hrevoke

/-! ## Two URLs -/

/-- A file with one record about a remote. -/
def sampleFile (url : String) : GrantStoreFile :=
  ⟨1, [⟨⟨asciiBytes "/r".toList, url.toList, .ssh⟩, .sshDir, "t".toList⟩]⟩

/-- The lines before the URL in the text of such a file. -/
def contentFront : List String :=
  ["\x7b\n", "  \"version\": 1,\n", "  \"records\": [\n", "    \x7b\n", "      \"key\": \x7b\n",
    "        \"git_root\": \"/r\",\n", "        \"remote_url\": \""]

/-- The lines behind it. -/
def contentBack : List String :=
  ["\",\n", "        \"prerequisite\": \"ssh\"\n", "      \x7d,\n", "      \"grant\": \x7b\n",
    "        \"type\": \"ssh_dir\"\n", "      \x7d,\n", "      \"recorded_at\": \"t\"\n", "    \x7d\n",
    "  ]\n", "\x7d"]

/-- The bytes of lines. -/
def contentBytes (parts : List String) : List UInt8 :=
  parts.flatMap fun part => asciiBytes part.toList

/-- The text of such a file. -/
def sampleContent (url : String) : List UInt8 := contentBytes (contentFront ++ url :: contentBack)

theorem sampleContent_length (url : String) : (sampleContent url).length = url.length + 233 := by
  have hlength : (asciiBytes url.toList).length = url.length := by
    rw [asciiBytes, List.length_map, String.length_toList]
  have hfront : (contentBytes contentFront).length = 103 := by decide +kernel
  have hback : (contentBytes contentBack).length = 130 := by decide +kernel
  unfold contentBytes at hfront hback
  rw [sampleContent, contentBytes, List.flatMap_append, List.flatMap_cons, List.length_append,
    List.length_append, hlength, hfront, hback]
  omega

/-- A file system with every absolute path, and the texts of two files. -/
def sampleSystem : System where
  shownPath := "/home/prerequisite-grants.json"
  encode file :=
    if file = sampleFile "https://h/p" then some (sampleContent "https://h/p")
    else if file = sampleFile "https://h/p " then some (sampleContent "https://h/p ")
    else none
  decode content :=
    if content = sampleContent "https://h/p" then some (sampleFile "https://h/p")
    else if content = sampleContent "https://h/p " then some (sampleFile "https://h/p ")
    else none
  canonicalize path := if isAbsolute path then .ok path else .error "not found"
  decode_encode := by
    have hne : sampleContent "https://h/p " ≠ sampleContent "https://h/p" := by
      intro hsame
      have hlength := congrArg List.length hsame
      rw [sampleContent_length, sampleContent_length] at hlength
      cases hlength
    intro file content h
    split_ifs at h with hfirst hsecond
    · rw [← Option.some.inj h, if_pos rfl, hfirst]
    · rw [← Option.some.inj h, if_neg hne, if_pos rfl, hsecond]
  isAbsolute_canonicalize := by
    intro path canonical h
    split_ifs at h with habsolute
    rw [← Except.ok.inj h]
    exact habsolute

/-- The key of a decision about a remote of the repository. -/
def sampleKey (url : String) : GrantKey := ⟨asciiBytes "/r".toList, url.toList, .ssh⟩

/-- The world after one handle was loaded and remembered a decision, where there was no file. -/
def sampleWorld (kept : String) : World where
  disk := .bytes (sampleContent kept)
  handles := Function.update
    (Function.update (fun _ => none) 0 (some (load sampleSystem .absent))) 0
    (some ⟨sampleFile kept, none⟩)

theorem remember_absent {url kept : String}
    (hkey : canonicalKey sampleSystem (sampleKey url) = .ok (sampleKey kept))
    (hencode : sampleSystem.encode (sampleFile kept) = some (sampleContent kept))
    (hsize : ¬ grantsMaxBytes < (sampleContent kept).length) :
    Grants.remember sampleSystem .absent (sampleKey url) .sshDir "t".toList =
      .ok (⟨sampleFile kept, none⟩, .bytes (sampleContent kept)) := by
  have hfile : (load sampleSystem .absent).file = emptyFile := rfl
  have hvalid : validDecision (sampleKey kept) .sshDir = true := rfl
  rw [Grants.remember, hkey]
  dsimp only
  rw [hvalid, if_neg (by simp), hfile]
  have hrecords : ({ emptyFile with
      records := withRecord emptyFile.records ⟨sampleKey kept, .sshDir, "t".toList⟩ } :
        GrantStoreFile) = sampleFile kept := rfl
  rw [hrecords, Grants.save, hencode]
  dsimp only
  rw [if_neg hsize]

/-- The run of that world, for calls of any kind that are allowed. -/
theorem sampleRun {allowed : World → Nat → Call → Prop} {url kept : String}
    (hkey : canonicalKey sampleSystem (sampleKey url) = .ok (sampleKey kept))
    (hremember : Grants.remember sampleSystem .absent (sampleKey url) .sshDir "t".toList =
      .ok (⟨sampleFile kept, none⟩, .bytes (sampleContent kept)))
    (hload : ∀ world, allowed world 0 .load)
    (hallowed : ∀ world, allowed world 0 (.remember (sampleKey url) .sshDir "t".toList)) :
    Run sampleSystem allowed .absent [.remembered (sampleKey kept) .sshDir] (sampleWorld kept) := by
  have hloaded : Run sampleSystem allowed .absent []
      ⟨.absent, Function.update (fun _ => none) 0 (some (load sampleSystem .absent))⟩ :=
    .step .start (hload _) .loaded
  exact Run.step hloaded (hallowed _) (.remembered rfl hkey hremember)

theorem sampleContent_size {kept : String} (hkept : kept.length ≤ 12) :
    ¬ grantsMaxBytes < (sampleContent kept).length := by
  rw [sampleContent_length, grantsMaxBytes]
  omega

theorem decisions_after_run_sample :
    (load sampleSystem (sampleWorld "https://h/p").disk).lookup sampleSystem (sampleKey "https://h/p") =
      some .sshDir := by
  have hkey : canonicalKey sampleSystem (sampleKey "https://h/p") = .ok (sampleKey "https://h/p") := rfl
  have hencode : sampleSystem.encode (sampleFile "https://h/p") =
      some (sampleContent "https://h/p") := by
    simp only [sampleSystem, if_true]
  have hremember := remember_absent hkey hencode (sampleContent_size (by decide))
  have hrun : Run sampleSystem (Faithful sampleSystem) .absent
      [.remembered (sampleKey "https://h/p") .sshDir] (sampleWorld "https://h/p") :=
    sampleRun hkey hremember (fun _ => trivial) fun _ => rfl
  rw [(decisions_after_run rfl hrun).1, hkey]
  rfl

/-- A decision for a URL with a blank before its query is lost: the blank stays when it is remembered and
goes when the file is loaded. -/
theorem remembered_not_found :
    Run sampleSystem (fun _ _ _ => True) .absent [.remembered (sampleKey "https://h/p ") .sshDir]
        (sampleWorld "https://h/p ") ∧
      canonicalKey sampleSystem (sampleKey "https://h/p ?q") = .ok (sampleKey "https://h/p ") ∧
      (load sampleSystem (sampleWorld "https://h/p ").disk).lookup sampleSystem
        (sampleKey "https://h/p ?q") = none := by
  have hkey : canonicalKey sampleSystem (sampleKey "https://h/p ?q") = .ok (sampleKey "https://h/p ") :=
    rfl
  have hfile : sampleFile "https://h/p " ≠ sampleFile "https://h/p" := by decide
  have hencode : sampleSystem.encode (sampleFile "https://h/p ") =
      some (sampleContent "https://h/p ") := by
    simp only [sampleSystem, if_neg hfile, if_true]
  have hremember := remember_absent hkey hencode (sampleContent_size (by decide))
  refine ⟨sampleRun hkey hremember (fun _ => trivial) fun _ => trivial, hkey, ?_⟩
  have hdecode := sampleSystem.decode_encode _ _ hencode
  have hload : loadFile sampleSystem (.bytes (sampleContent "https://h/p ")) =
      .ok (some (sampleFile "https://h/p")) := by
    rw [loadFile, if_neg (sampleContent_size (by decide)), hdecode]
    rfl
  rw [PrerequisiteGrantStore.lookup, hkey, sampleWorld, load, hload]
  decide

end Awman.Grants
