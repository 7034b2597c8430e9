import Awman.Library.Checks
import Awman.PrerequisitePolicies
import Awman.RemoteUrls

/-!
# Remembered prerequisite decisions

Decisions about workflow prerequisites are remembered in one private file, by the root of the repository,
the URL of the remote without credentials and the prerequisite.  A handle keeps the records it loaded or
saved last; remembering and revoking read the file again under a lock and replace it.
-/

namespace Awman.Grants

open Awman.Network (trim)
open Awman.Remotes (parse)
open Awman.Squad (isControl validEnvName)

/-- A text. -/
abbrev Text := List Char

/-- A path, byte by byte. -/
abbrev Path := List UInt8

/-- What a decision is about. -/
inductive RememberedKind where
  | ssh
  | githubToken
  | gitIdentity
  deriving DecidableEq

/-- The key of a decision. -/
structure GrantKey where
  gitRoot : Path
  remoteUrl : Text
  prerequisite : RememberedKind
  deriving DecidableEq

/-- A decision, never a credential. -/
inductive RememberedGrant where
  | sshKey (key : Path)
  | sshDir
  | tokenEnv (var : Text)
  | identity (name email : Text)
  deriving DecidableEq

/-- A remembered decision. -/
structure GrantRecord where
  key : GrantKey
  grant : RememberedGrant
  recordedAt : Text
  deriving DecidableEq

/-- The content of the file. -/
structure GrantStoreFile where
  version : Nat
  /-- The records, the newest one last. -/
  records : List GrantRecord
  deriving DecidableEq

/-- Which records are revoked. -/
inductive GrantSelector where
  | index (index : Nat)
  | all
  | key (key : GrantKey)

/-- A handle on the file: the records as it knows them. -/
structure PrerequisiteGrantStore where
  /-- What was loaded or saved last. -/
  file : GrantStoreFile
  /-- Why the file was ignored. -/
  loadWarning : Option String

/-- What is at the path of the file. -/
inductive Disk where
  | absent
  /-- Something that is not read, and why. -/
  | unsafeFile (reason : String)
  /-- A private file. -/
  | bytes (content : List UInt8)

/-- The version of the format. -/
def grantsVersion : Nat := 1

/-- The greatest size of the file. -/
def grantsMaxBytes : Nat := 1024 * 1024

/-- A path from the root. -/
def isAbsolute (path : Path) : Bool := path.head? == some 0x2F

/-- The serializer and the file system around the store. -/
structure System where
  /-- The path of the file, as a message shows it. -/
  shownPath : String
  /-- The JSON text of a file, unless a path of it is no text. -/
  encode : GrantStoreFile → Option (List UInt8)
  /-- What a JSON text says, when it is a file. -/
  decode : List UInt8 → Option GrantStoreFile
  /-- The path without symbolic links, if the place exists. -/
  canonicalize : Path → Except String Path
  /-- What was written is read back. -/
  decode_encode : ∀ file content, encode file = some content → decode content = some file
  isAbsolute_canonicalize : ∀ path canonical, canonicalize path = .ok canonical →
    isAbsolute canonical = true

/-- The decision is one about its key. -/
def validDecision (key : GrantKey) (grant : RememberedGrant) : Bool :=
  match key.prerequisite, grant with
  | .ssh, .sshKey _ => true
  | .ssh, .sshDir => true
  | .githubToken, .tokenEnv var => validEnvName var
  | .gitIdentity, .identity name email =>
    !(trim name).isEmpty && email.contains '@' && !(name ++ email).any isControl
  | _, _ => false

/-- A record as it is kept after loading. -/
def loadRecord (record : GrantRecord) : Except String GrantRecord :=
  if !isAbsolute record.key.gitRoot ∨ !validDecision record.key record.grant then
    .error "invalid decision record"
  else
    .ok { record with
      key := { record.key with remoteUrl := (parse record.key.remoteUrl).redacted } }

/-- The content of the file, unless there is none. -/
def loadFile (system : System) : Disk → Except String (Option GrantStoreFile)
  | .absent => .ok none
  | .unsafeFile reason => .error reason
  | .bytes content =>
    if grantsMaxBytes < content.length then .error "oversized file"
    else
      match system.decode content with
      | none => .error "corrupt file"
      | some file =>
        if file.version ≠ grantsVersion then .error "unsupported version"
        else
          match Checks.collect loadRecord file.records with
          | .error reason => .error reason
          | .ok records => .ok (some { file with records := records })

/-- A file without records. -/
def emptyFile : GrantStoreFile := ⟨grantsVersion, []⟩

/-- Loads a handle; a file that cannot be used counts as an empty one. -/
def load (system : System) (disk : Disk) : PrerequisiteGrantStore :=
  match loadFile system disk with
  | .ok file => ⟨file.getD emptyFile, none⟩
  | .error reason =>
    ⟨emptyFile, some (s!"cannot load workflow prerequisite grants {system.shownPath}: {reason}; " ++
      "treating it as empty")⟩

/-- The key under which a decision is kept. -/
def canonicalKey (system : System) (key : GrantKey) : Except String GrantKey :=
  match system.canonicalize key.gitRoot with
  | .error reason => .error reason
  | .ok gitRoot => .ok ⟨gitRoot, (parse key.remoteUrl).redacted, key.prerequisite⟩

/-- The first record of a key. -/
def findRecord (records : List GrantRecord) (key : GrantKey) : Option RememberedGrant :=
  (records.find? (·.key = key)).map (·.grant)

/-- The decision for a key. -/
def PrerequisiteGrantStore.lookup (system : System) (store : PrerequisiteGrantStore) (key : GrantKey) :
    Option RememberedGrant :=
  match canonicalKey system key with
  | .error _ => none
  | .ok key => findRecord store.file.records key

/-- The records with a new one, which is the newest and the only one of its key. -/
def withRecord (records : List GrantRecord) (record : GrantRecord) : List GrantRecord :=
  records.filter (fun old => old.key ≠ record.key) ++ [record]

/-- Saves a file: the handle keeps it, and it replaces what is on disk. -/
def save (system : System) (file : GrantStoreFile) : Except String (PrerequisiteGrantStore × Disk) :=
  match system.encode file with
  | none => .error "path contains invalid UTF-8 characters"
  | some content =>
    if grantsMaxBytes < content.length then
      .error "workflow prerequisite grants exceed the size limit"
    else .ok (⟨file, none⟩, .bytes content)

/-- Remembers a decision. -/
def remember (system : System) (disk : Disk) (key : GrantKey) (grant : RememberedGrant) (now : Text) :
    Except String (PrerequisiteGrantStore × Disk) :=
  match canonicalKey system key with
  | .error reason => .error reason
  | .ok key =>
    if !validDecision key grant then .error "invalid workflow prerequisite grant decision"
    else
      let file := (load system disk).file
      save system { file with records := withRecord file.records ⟨key, grant, now⟩ }

/-- The records that a selector leaves. -/
def leftBy (system : System) (selector : GrantSelector) (records : List GrantRecord) :
    Except String (List GrantRecord) :=
  match selector with
  | .all => .ok []
  | .index index =>
    if 0 < index ∧ index ≤ records.length then .ok (records.eraseIdx (index - 1)) else .ok records
  | .key key =>
    match canonicalKey system key with
    | .error reason => .error reason
    | .ok key => .ok (records.filter fun record => record.key ≠ key)

/-- Revokes decisions and tells how many. -/
def revoke (system : System) (disk : Disk) (selector : GrantSelector) :
    Except String (Nat × PrerequisiteGrantStore × Disk) :=
  let file := (load system disk).file
  match leftBy system selector file.records with
  | .error reason => .error reason
  | .ok records =>
    match save system { file with records := records } with
    | .error reason => .error reason
    | .ok saved => .ok (file.records.length - records.length, saved)

/-! ## What is loaded and saved -/

variable {system : System} {disk after : Disk} {store : PrerequisiteGrantStore} {file : GrantStoreFile}
  {records : List GrantRecord} {key other : GrantKey} {grant : RememberedGrant}

/-- A record that loading leaves as it is. -/
def Settled (record : GrantRecord) : Prop :=
  isAbsolute record.key.gitRoot = true ∧ validDecision record.key record.grant = true ∧
    (parse record.key.remoteUrl).redacted = record.key.remoteUrl

/-- A file that loading leaves as it is, with one record for a key. -/
structure Sound (file : GrantStoreFile) : Prop where
  version : file.version = grantsVersion
  settled : ∀ record ∈ file.records, Settled record
  distinct : (file.records.map GrantRecord.key).Nodup

theorem Settled.loadRecord {record : GrantRecord} (h : Settled record) :
    loadRecord record = .ok record := by
  obtain ⟨habsolute, hvalid, hurl⟩ := h
  rw [Grants.loadRecord, habsolute, hvalid, if_neg (by simp), hurl]

theorem collect_loadRecord (h : ∀ record ∈ records, Settled record) :
    Checks.collect loadRecord records = .ok records := by
  rw [Checks.collect_eq_ok, List.forall₂_same]
  exact fun record hrecord => (h record hrecord).loadRecord

/-- What was saved is loaded again as it is. -/
theorem load_save (hsound : Sound file) (hsave : save system file = .ok (store, after)) :
    (load system after).file = file ∧ store.file = file := by
  rw [save] at hsave
  cases hencode : system.encode file with
  | none =>
    rw [hencode] at hsave
    cases hsave
  | some content =>
    rw [hencode] at hsave
    dsimp only at hsave
    split_ifs at hsave with hsize
    cases hsave
    have hfile : loadFile system (.bytes content) = .ok (some file) := by
      rw [loadFile, if_neg hsize, system.decode_encode file content hencode]
      dsimp only
      rw [if_neg (not_not.mpr hsound.version), collect_loadRecord hsound.settled]
    rw [load, hfile]
    exact ⟨rfl, rfl⟩

/-! ## The records as a map -/

theorem findRecord_cons (record : GrantRecord) (records : List GrantRecord) (other : GrantKey) :
    findRecord (record :: records) other =
      if record.key = other then some record.grant else findRecord records other := by
  rw [findRecord, List.find?_cons]
  by_cases hsame : record.key = other
  · simp [hsame]
  · simp [hsame, findRecord]

theorem findRecord_filter (records : List GrantRecord) (key other : GrantKey) :
    findRecord (records.filter fun record => record.key ≠ key) other =
      if other = key then none else findRecord records other := by
  induction records with
  | nil => exact (ite_self none).symm
  | cons record rest ih =>
    rw [List.filter_cons, findRecord_cons]
    by_cases hkey : record.key = key
    · rw [if_neg (by simp [hkey]), ih]
      by_cases hsame : other = key
      · rw [if_pos hsame, if_pos hsame]
      · rw [if_neg hsame, if_neg hsame, if_neg (by rw [hkey]; exact Ne.symm hsame)]
    · rw [if_pos (by simp [hkey]), findRecord_cons, ih]
      by_cases hother : record.key = other
      · rw [if_pos hother, if_pos hother, if_neg (by rw [← hother]; exact hkey)]
      · rw [if_neg hother, if_neg hother]

theorem findRecord_append (records : List GrantRecord) (record : GrantRecord) (other : GrantKey)
    (habsent : findRecord records record.key = none) :
    findRecord (records ++ [record]) other =
      if other = record.key then some record.grant else findRecord records other := by
  rw [findRecord, List.find?_append, Option.map_or]
  by_cases hsame : other = record.key
  · rw [if_pos hsame, hsame]
    rw [findRecord] at habsent
    rw [habsent]
    simp
  · rw [if_neg hsame, List.find?_singleton, if_neg (by simpa using Ne.symm hsame)]
    simp [findRecord]

/-- A new record decides about its key and about no other. -/
theorem findRecord_withRecord (records : List GrantRecord) (record : GrantRecord) (other : GrantKey) :
    findRecord (withRecord records record) other =
      if other = record.key then some record.grant else findRecord records other := by
  have hgone : findRecord (records.filter fun old => old.key ≠ record.key) record.key = none := by
    rw [findRecord_filter, if_pos rfl]
  rw [withRecord, findRecord_append _ _ _ hgone, findRecord_filter]
  by_cases hsame : other = record.key
  · rw [if_pos hsame, if_pos hsame]
  · rw [if_neg hsame, if_neg hsame, if_neg hsame]

theorem findRecord_eq_none_iff : findRecord records key = none ↔
    key ∉ records.map GrantRecord.key := by
  rw [findRecord, Option.map_eq_none_iff, List.find?_eq_none, List.mem_map]
  simp

/-- Removing a record leaves the records of other keys. -/
theorem eraseIdx_eq_filter {index : Nat} {record : GrantRecord}
    (hdistinct : (records.map GrantRecord.key).Nodup) (hrecord : records[index]? = some record) :
    records.eraseIdx index = records.filter fun other => other.key ≠ record.key := by
  induction records generalizing index with
  | nil => cases hrecord
  | cons first rest ih =>
    obtain ⟨hfirst, hrest⟩ := List.nodup_cons.mp hdistinct
    cases index with
    | zero =>
      rw [List.getElem?_cons_zero, Option.some.injEq] at hrecord
      subst hrecord
      have hall : rest.filter (fun other => other.key ≠ first.key) = rest := by
        refine List.filter_eq_self.mpr fun other hother => ?_
        have hne : other.key ≠ first.key := fun hsame =>
          hfirst (hsame ▸ List.mem_map_of_mem hother)
        simpa using hne
      rw [List.eraseIdx_cons_zero, List.filter_cons, if_neg (by simp), hall]
    | succ index =>
      rw [List.getElem?_cons_succ] at hrecord
      have hne : first.key ≠ record.key := fun hsame =>
        hfirst (hsame ▸ List.mem_map_of_mem (List.mem_of_getElem? hrecord))
      rw [List.eraseIdx_cons_succ, List.filter_cons, if_pos (by simpa using hne), ih hrest hrecord]

end Awman.Grants
