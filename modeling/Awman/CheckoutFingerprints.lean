import Awman.EngineErrors
import Awman.Library.ByteFrames
import Awman.Library.Utf8Text
import Mathlib.Data.List.Sort
import Mathlib.Data.List.Destutter

/-!
# Fingerprints of a checkout

Before and after a leader phase a checkout is reduced to a hash of its `HEAD` and of what stands at each
path that git lists.  The bytes hashed are read back here: what two checkouts with one fingerprint have
in common, and how far a directory among the listed paths can hide a difference.
-/

namespace Awman.Checkouts

open Awman.ByteFrames Awman.Utf8Text
open Awman.Engine (EngineError)

/-- What a path shows to system calls that do not follow a link at its end. -/
inductive Node where
  | symlink (target : Bytes)
  | file (mode : UInt32) (contents : Bytes)
  | directory (entries : List (Bytes × Node))
  /-- A socket, a pipe or a device. -/
  | unsupported
  | missing
  | failing (message : String)

/-! ## The bytes that are hashed -/

def symlinkTag : Bytes := asciiBytes "symlink".toList

def fileTag : Bytes := asciiBytes "file".toList

def directoryTag : Bytes := asciiBytes "directory".toList

def missingTag : Bytes := asciiBytes "missing".toList

/-- The name of git's own data in a checkout. -/
def dotGit : Bytes := asciiBytes ".git".toList

/-- The bits of a mode that make a file executable. -/
def executableBits (mode : UInt32) : ℕ := (mode &&& 0o111).toNat

section Listings

variable {β γ : Type}

/-- The entries of a directory by their names, without git's own data. -/
def visible (entries : List (Bytes × β)) : List (Bytes × β) :=
  (entries.insertionSort fun first second => first.1 ≤ second.1).filter fun entry => entry.1 ≠ dotGit

/-- What all entries give, or the first error. -/
def collect (f : Bytes → β → γ) (entries : List (Bytes × Except EngineError β)) :
    Except EngineError (List γ) :=
  entries.mapM fun entry => f entry.1 <$> entry.2

end Listings

mutual

/-- What is hashed of a path. -/
def hashPath : Node → Except EngineError Bytes
  | .symlink target => .ok (symlinkTag ++ target)
  | .file mode contents =>
    .ok (fileTag ++ littleEndian 4 (executableBits mode) ++ littleEndian 8 contents.length ++ contents)
  | .directory entries =>
    (fun parts => directoryTag ++ parts.flatten) <$> collect (· ++ ·) (visible (hashEntries entries))
  | .unsupported => .error (.git "unsupported file in leader mutation guard")
  | .missing => .ok missingTag
  | .failing message => .error (.git message)
termination_by structural node => node

/-- What is hashed of each entry of a directory. -/
def hashEntries : List (Bytes × Node) → List (Bytes × Except EngineError Bytes)
  | [] => []
  | (name, node) :: rest => (name, hashPath node) :: hashEntries rest
termination_by structural entries => entries

end

/-- A path that the system calls take is shorter. -/
def pathMax : ℕ := 4096

/-- A node as a file system can show it. -/
inductive Node.Proper : Node → Prop where
  | symlink {target : Bytes} (htarget : ZeroFree target) : Proper (.symlink target)
  | file (mode : UInt32) {contents : Bytes} (hsize : contents.length < 256 ^ 8) :
      Proper (.file mode contents)
  | directory {entries : List (Bytes × Node)}
      (hnames : ∀ entry ∈ entries, entry.1 ≠ [] ∧ ZeroFree entry.1)
      (hthere : ∀ entry ∈ entries, entry.2 ≠ .missing)
      (hnodes : ∀ entry ∈ entries, Proper entry.2) : Proper (.directory entries)
  | unsupported : Proper .unsupported
  | missing : Proper .missing
  | failing (message : String) : Proper (.failing message)

/-- A checkout. -/
structure Checkout where
  /-- What `git rev-parse HEAD` says. -/
  headSha : Except EngineError Bytes
  /-- What `git ls-files -z --cached --others --exclude-standard` writes. -/
  lsFiles : Except EngineError Bytes
  /-- What stands at a path. -/
  node : Bytes → Node
  /-- The name of a commit has no zero byte. -/
  head_zeroFree : ∀ sha, headSha = .ok sha → ZeroFree sha
  node_proper : ∀ path, (node path).Proper
  node_long : ∀ path : Bytes, pathMax ≤ path.length → ∃ message, node path = .failing message

/-- The paths of a listing, in order and each once. -/
def listedPaths (stdout : Bytes) : List Bytes :=
  (((stdout.splitOn 0).filter (· ≠ [])).insertionSort (· ≤ ·)).destutter (· ≠ ·)

/-- What is hashed of a listed path. -/
def hashListed (checkout : Checkout) (path : Bytes) : Except EngineError Bytes :=
  match fromUtf8 path with
  | none => .error (.gitNotUtf8 path)
  | some _ => (frame path ++ ·) <$> hashPath (checkout.node path)

/-- Fingerprint HEAD and file bytes, including dirty/untracked paths. -/
def checkoutFingerprint (sha256 : Bytes → Bytes) (checkout : Checkout) : Except EngineError Bytes := do
  let stdout ← checkout.lsFiles
  let head ← checkout.headSha
  let parts ← (listedPaths stdout).mapM (hashListed checkout)
  return sha256 (head ++ parts.flatten)

/-! ## What a checkout holds -/

/-- What stands at a path, as far as a checkout is about it. -/
inductive Content where
  | link (target : Bytes)
  | file (executable : ℕ) (contents : Bytes)
  | folder (entries : List (Bytes × Content))
  | missing

mutual

/-- The content of a node. -/
def Node.content : Node → Except EngineError Content
  | .symlink target => .ok (.link target)
  | .file mode contents => .ok (.file (executableBits mode) contents)
  | .directory entries => .folder <$> collect Prod.mk (visible (entryContents entries))
  | .unsupported => .error (.git "unsupported file in leader mutation guard")
  | .missing => .ok .missing
  | .failing message => .error (.git message)
termination_by structural node => node

/-- The content of each entry of a directory. -/
def entryContents : List (Bytes × Node) → List (Bytes × Except EngineError Content)
  | [] => []
  | (name, node) :: rest => (name, node.content) :: entryContents rest
termination_by structural entries => entries

end

mutual

/-- The bytes of a content. -/
def Content.encode : Content → Bytes
  | .link target => symlinkTag ++ target
  | .file executable contents =>
    fileTag ++ littleEndian 4 executable ++ littleEndian 8 contents.length ++ contents
  | .folder entries => directoryTag ++ encodeEntries entries
  | .missing => missingTag
termination_by structural content => content

/-- The bytes of the entries of a folder. -/
def encodeEntries : List (Bytes × Content) → Bytes
  | [] => []
  | (name, content) :: rest => name ++ content.encode ++ encodeEntries rest
termination_by structural entries => entries

end

section Listings

variable {β γ : Type}

theorem visible_map (g : β → γ) (entries : List (Bytes × β)) :
    visible (entries.map fun entry => (entry.1, g entry.2)) =
      (visible entries).map fun entry => (entry.1, g entry.2) := by
  have hsort := List.map_insertionSort (fun first second : Bytes × β => first.1 ≤ second.1)
    (fun first second : Bytes × γ => first.1 ≤ second.1) (fun entry => (entry.1, g entry.2)) entries
    (fun _ _ _ _ => Iff.rfl)
  rw [visible, ← hsort, List.filter_map]
  rfl

theorem mem_visible {entries : List (Bytes × β)} {entry : Bytes × β} :
    entry ∈ visible entries ↔ entry ∈ entries ∧ entry.1 ≠ dotGit := by
  rw [visible, List.mem_filter, List.mem_insertionSort, decide_eq_true_iff]

/-- Collecting stops at the first error. -/
theorem collect_cons (f : Bytes → β → γ) (name : Bytes) (value : Except EngineError β)
    (rest : List (Bytes × Except EngineError β)) :
    collect f ((name, value) :: rest) = (do
      let first ← value
      let others ← collect f rest
      return f name first :: others) := by
  rw [collect, List.mapM_cons]
  cases value with
  | error | ok => rfl

/-- Every value that is collected is that of an entry. -/
theorem mem_collect {f : Bytes → β → γ} {entries : List (Bytes × Except EngineError β)} {values : List γ}
    (h : collect f entries = .ok values) {value : γ} (hmem : value ∈ values) :
    ∃ name first, (name, .ok first) ∈ entries ∧ value = f name first := by
  induction entries generalizing values with
  | nil =>
    cases h
    cases hmem
  | cons entry rest ih =>
    obtain ⟨name, first⟩ := entry
    rw [collect_cons] at h
    cases first with
    | error err => cases h
    | ok first =>
      cases hrest : collect f rest with
      | error err =>
        rw [hrest] at h
        cases h
      | ok others =>
        rw [hrest] at h
        cases h
        rcases List.mem_cons.mp hmem with rfl | hin
        · exact ⟨name, first, List.mem_cons_self, rfl⟩
        · obtain ⟨name', first', hentry, heq⟩ := ih hrest hin
          exact ⟨name', first', List.mem_cons_of_mem _ hentry, heq⟩

end Listings

theorem encodeEntries_eq (entries : List (Bytes × Content)) :
    encodeEntries entries = (entries.map fun entry => entry.1 ++ entry.2.encode).flatten := by
  induction entries with
  | nil => rfl
  | cons entry rest ih =>
    rw [encodeEntries, ih, List.map_cons, List.flatten_cons]

theorem collect_encode (entries : List (Bytes × Except EngineError Content)) :
    collect (· ++ ·) (entries.map fun entry => (entry.1, Content.encode <$> entry.2)) =
      (fun found => found.map fun entry => entry.1 ++ entry.2.encode) <$> collect Prod.mk entries := by
  induction entries with
  | nil => rfl
  | cons entry rest ih =>
    obtain ⟨name, content⟩ := entry
    rw [List.map_cons, collect_cons, collect_cons, ih]
    cases content with
    | error err => rfl
    | ok content =>
      cases collect Prod.mk rest with
      | error | ok => rfl

mutual

/-- What is hashed of a path are the bytes of its content. -/
theorem hashPath_eq : ∀ node : Node, hashPath node = Content.encode <$> node.content
  | .symlink _ => rfl
  | .file _ _ => rfl
  | .directory entries => by
      rw [hashPath, Node.content, hashEntries_eq entries, visible_map, collect_encode]
      cases collect Prod.mk (visible (entryContents entries)) with
      | error err => rfl
      | ok found =>
        apply congrArg Except.ok
        rw [Content.encode, encodeEntries_eq]
  | .unsupported => rfl
  | .missing => rfl
  | .failing _ => rfl

/-- Hashing encodes the contents entry by entry. -/
theorem hashEntries_eq : ∀ entries : List (Bytes × Node), hashEntries entries =
    (entryContents entries).map fun entry => (entry.1, Content.encode <$> entry.2)
  | [] => rfl
  | (name, node) :: rest => by
      rw [hashEntries, entryContents, List.map_cons, hashPath_eq node, hashEntries_eq rest]

end

/-! ## Contents that a file system can show -/

/-- A content as a file system can show it. -/
inductive Content.Proper : Content → Prop where
  | link {target : Bytes} (htarget : ZeroFree target) : Proper (.link target)
  | file {executable : ℕ} {contents : Bytes} (hbits : executable < 256 ^ 1)
      (hsize : contents.length < 256 ^ 8) : Proper (.file executable contents)
  | folder {entries : List (Bytes × Content)}
      (hnames : ∀ entry ∈ entries, entry.1 ≠ [] ∧ ZeroFree entry.1)
      (hthere : ∀ entry ∈ entries, entry.2 ≠ .missing)
      (hcontents : ∀ entry ∈ entries, Proper entry.2) : Proper (.folder entries)
  | missing : Proper .missing

theorem executableBits_lt (mode : UInt32) : executableBits mode < 256 ^ 1 := by
  have hle : executableBits mode ≤ 0o111 := by
    rw [executableBits, UInt32.toNat_and]
    exact Nat.and_le_right
  omega

variable {name back others contents path : Bytes} {node : Node} {executable : ℕ}

theorem mem_entryContents {entries : List (Bytes × Node)} {value : Except EngineError Content}
    (h : (name, value) ∈ entryContents entries) :
    ∃ node, (name, node) ∈ entries ∧ value = node.content := by
  induction entries with
  | nil => cases h
  | cons entry rest ih =>
    rw [entryContents] at h
    rcases List.mem_cons.mp h with heq | hmem
    · cases heq
      exact ⟨entry.2, List.mem_cons_self, rfl⟩
    · obtain ⟨node, hnode, hvalue⟩ := ih hmem
      exact ⟨node, List.mem_cons_of_mem _ hnode, hvalue⟩

/-- The content of a directory has the entries of the directory. -/
theorem content_directory {entries : List (Bytes × Node)} {content : Content}
    (h : (Node.directory entries).content = .ok content) :
    ∃ found, content = .folder found ∧
      ∀ entry ∈ found, ∃ node, (entry.1, node) ∈ entries ∧ node.content = .ok entry.2 := by
  rw [Node.content] at h
  cases hfound : collect Prod.mk (visible (entryContents entries)) with
  | error err =>
    rw [hfound] at h
    cases h
  | ok found =>
    rw [hfound] at h
    cases h
    refine ⟨found, rfl, fun entry hentry => ?_⟩
    obtain ⟨name, content, hmem, rfl⟩ := mem_collect hfound hentry
    obtain ⟨node, hnode, hcontent⟩ := mem_entryContents (mem_visible.mp hmem).1
    exact ⟨node, hnode, hcontent.symm⟩

/-- Only a missing node reads as missing. -/
theorem content_missing (h : node.content = .ok .missing) : node = .missing := by
  cases node with
  | missing => rfl
  | directory entries =>
    obtain ⟨found, hfound, -⟩ := content_directory h
    cases hfound
  | symlink | file | unsupported | failing => cases h

theorem Node.Proper.content (hproper : node.Proper) {content : Content} (h : node.content = .ok content) :
    content.Proper := by
  induction hproper generalizing content with
  | symlink htarget =>
    cases h
    exact .link htarget
  | file mode hsize =>
    cases h
    exact .file (executableBits_lt mode) hsize
  | directory hnames hthere hnodes ih =>
    obtain ⟨found, rfl, hfound⟩ := content_directory h
    refine .folder (fun entry hentry => ?_) (fun entry hentry hmissing => ?_) fun entry hentry => ?_
    · obtain ⟨node, hnode, -⟩ := hfound entry hentry
      exact hnames _ hnode
    · obtain ⟨node, hnode, hcontent⟩ := hfound entry hentry
      rw [hmissing] at hcontent
      exact hthere _ hnode (content_missing hcontent)
    · obtain ⟨node, hnode, hcontent⟩ := hfound entry hentry
      exact ih _ hnode hcontent
  | unsupported | failing => cases h
  | missing =>
    cases h
    exact .missing

/-! ## Reading contents back -/

/-- The kinds of contents. -/
inductive Kind where
  | link
  | file
  | folder
  | missing
  deriving DecidableEq

/-- What the bytes of a content of a kind start with. -/
def Kind.tag : Kind → Bytes
  | .link => symlinkTag
  | .file => fileTag
  | .folder => directoryTag
  | .missing => missingTag

/-- No tag holds a zero byte. -/
theorem Kind.tag_zeroFree (kind : Kind) : ZeroFree kind.tag := by
  cases kind
  all_goals decide

theorem Kind.length_tag (kind : Kind) : 4 ≤ kind.tag.length := by
  cases kind
  all_goals decide

theorem Kind.head?_append (kind : Kind) (back : Bytes) : (kind.tag ++ back).head? = kind.tag.head? := by
  cases kind
  all_goals rfl

/-- The first byte tells the kinds apart. -/
theorem Kind.eq_of_head? {kind other : Kind} (h : kind.tag.head? = other.tag.head?) : kind = other := by
  cases kind with
  | link | file | folder | missing => cases other <;> first | rfl | cases h

/-- The kind of a content. -/
def Content.kind : Content → Kind
  | .link _ => .link
  | .file _ _ => .file
  | .folder _ => .folder
  | .missing => .missing

/-- What stands behind the tag. -/
def Content.body : Content → Bytes
  | .link target => target
  | .file executable contents => littleEndian 4 executable ++ (littleEndian 8 contents.length ++ contents)
  | .folder entries => encodeEntries entries
  | .missing => []

theorem Content.encode_eq (content : Content) : content.encode = content.kind.tag ++ content.body := by
  cases content with
  | file executable contents =>
    rw [Content.encode, Content.body, List.append_assoc, List.append_assoc]
    rfl
  | link | folder | missing => rfl

/-- Equal streams start with equal kinds. -/
theorem Content.kind_eq {first second : Content} (h : first.encode ++ back = second.encode ++ others) :
    first.kind = second.kind := by
  rw [first.encode_eq, second.encode_eq, List.append_assoc, List.append_assoc] at h
  have hheads := congrArg List.head? h
  rw [Kind.head?_append, Kind.head?_append] at hheads
  exact Kind.eq_of_head? hheads

/-- What stands behind the tags is equal. -/
theorem Content.body_eq {first second : Content} (h : first.encode ++ back = second.encode ++ others) :
    first.body ++ back = second.body ++ others := by
  have hkind := Content.kind_eq h
  rw [first.encode_eq, second.encode_eq, hkind, List.append_assoc, List.append_assoc] at h
  exact List.append_cancel_left h

/-- A file is read back from the front of a stream. -/
theorem file_append_inj {second : Content} (hfirst : (Content.file executable contents).Proper)
    (hsecond : second.Proper)
    (h : (Content.file executable contents).encode ++ back = second.encode ++ others) :
    Content.file executable contents = second ∧ back = others := by
  have hkind := Content.kind_eq h
  have hbody := Content.body_eq h
  cases hfirst with
  | file hbits hsize =>
    cases hsecond with
    | @file executable' contents' hbits' hsize' =>
      have hfour : (256 : ℕ) ^ 1 < 256 ^ 4 := by decide
      rw [Content.body, Content.body, List.append_assoc, List.append_assoc] at hbody
      have hmode := littleEndian_append_inj (hbits.trans hfour) (hbits'.trans hfour) hbody
      have hframe := frame_append_inj hsize hsize' hmode.2
      rw [hmode.1, hframe.1]
      exact ⟨rfl, hframe.2⟩
    | link | folder | missing => cases hkind

/-- Both contents end at one place of a stream that goes on at a boundary. -/
def Parted (first second : Content) : Prop :=
  ∀ back others, Boundary back → Boundary others →
    first.encode ++ back = second.encode ++ others → first = second ∧ back = others

/-- Only two folders can run into what comes next. -/
theorem parted_of_not_folders {first second : Content} (hfirst : first.Proper) (hsecond : second.Proper)
    (h : ∀ entries others, first = .folder entries → second ≠ .folder others) :
    Parted first second := by
  intro back others hback hothers hbytes
  have hkind := Content.kind_eq hbytes
  have hbody := Content.body_eq hbytes
  cases hfirst with
  | file hbits hsize => exact file_append_inj (.file hbits hsize) hsecond hbytes
  | link htarget =>
    cases hsecond with
    | link htarget' =>
      have hparts := zeroFree_append_inj htarget htarget' hback hothers hbody
      rw [hparts.1]
      exact ⟨rfl, hparts.2⟩
    | file | folder | missing => cases hkind
  | missing =>
    cases hsecond with
    | missing => exact ⟨rfl, hbody⟩
    | link | file | folder => cases hkind
  | folder hnames hthere hcontents =>
    cases hsecond with
    | folder hnames' hthere' hcontents' => exact absurd rfl (h _ _ rfl)
    | link | file | missing => cases hkind

mutual

/-- What a content looks like when only names, kinds and the lengths of targets are seen. -/
def Content.outline : Content → Content
  | .link target => .link (List.replicate target.length 0)
  | .file _ _ => .file 0 []
  | .folder entries => .folder (outlineEntries entries)
  | .missing => .missing
termination_by structural content => content

/-- What the entries of a folder look like. -/
def outlineEntries : List (Bytes × Content) → List (Bytes × Content)
  | [] => []
  | (name, content) :: rest => (name, content.outline) :: outlineEntries rest
termination_by structural entries => entries

end

mutual

/-- Contents that look alike are read back from the front of a stream. -/
theorem outline_append_inj : ∀ (first second : Content) (back others : Bytes), first.Proper →
    second.Proper → first.outline = second.outline →
    first.encode ++ back = second.encode ++ others → first = second ∧ back = others
  | .link target, second, back, others, _, _, houtline, h => by
      have hkind := Content.kind_eq h
      have hbody := Content.body_eq h
      cases second with
      | link target' =>
        have hlength := congrArg List.length (Content.link.inj houtline)
        rw [List.length_replicate, List.length_replicate] at hlength
        have hparts := List.append_inj hbody hlength
        rw [show target = target' from hparts.1]
        exact ⟨rfl, hparts.2⟩
      | file | folder | missing => cases hkind
  | .file _ _, _, _, _, hfirst, hsecond, _, h => file_append_inj hfirst hsecond h
  | .folder entries, second, back, others, hfirst, hsecond, houtline, h => by
      have hkind := Content.kind_eq h
      have hbody := Content.body_eq h
      cases second with
      | folder entries' =>
        cases hfirst with
        | folder hnames hthere hcontents =>
          cases hsecond with
          | folder hnames' hthere' hcontents' =>
            have hparts := outlineEntries_append_inj entries entries' back others hcontents
              hcontents' (Content.folder.inj houtline) hbody
            rw [hparts.1]
            exact ⟨rfl, hparts.2⟩
      | link | file | missing => cases hkind
  | .missing, second, back, others, _, _, _, h => by
      have hkind := Content.kind_eq h
      have hbody := Content.body_eq h
      cases second with
      | missing => exact ⟨rfl, hbody⟩
      | link | file | folder => cases hkind

theorem outlineEntries_append_inj : ∀ (first second : List (Bytes × Content)) (back others : Bytes),
    (∀ entry ∈ first, entry.2.Proper) → (∀ entry ∈ second, entry.2.Proper) →
    outlineEntries first = outlineEntries second →
    encodeEntries first ++ back = encodeEntries second ++ others → first = second ∧ back = others
  | [], [], _, _, _, _, _, h => ⟨rfl, h⟩
  | [], _ :: _, _, _, _, _, houtline, _ => by
      rw [outlineEntries, outlineEntries] at houtline
      cases houtline
  | _ :: _, [], _, _, _, _, houtline, _ => by
      rw [outlineEntries, outlineEntries] at houtline
      cases houtline
  | (name, content) :: rest, (name', content') :: rest', back, others, hfirst, hsecond, houtline, h => by
      rw [outlineEntries, outlineEntries] at houtline
      obtain ⟨hhead, htail⟩ := List.cons.inj houtline
      obtain ⟨rfl, hcontent⟩ := Prod.mk.inj hhead
      rw [encodeEntries, encodeEntries] at h
      simp only [List.append_assoc] at h
      have hparts := outline_append_inj content content' _ _ (hfirst _ List.mem_cons_self)
        (hsecond _ List.mem_cons_self) hcontent (List.append_cancel_left h)
      have hrest := outlineEntries_append_inj rest rest' back others
        (fun entry hmem => hfirst entry (List.mem_cons_of_mem _ hmem))
        (fun entry hmem => hsecond entry (List.mem_cons_of_mem _ hmem)) htail hparts.2
      rw [hparts.1, hrest.1]
      exact ⟨rfl, hrest.2⟩

end

/-! ## Folders that hold files only -/

/-- A name in which no tag of a kind stands that could end another name. -/
def PlainName (name : Bytes) : Prop := ¬ symlinkTag <:+: name ∧ ¬ directoryTag <:+: name

/-- The folder holds files only, and their names are plain. -/
def PlainEntries (entries : List (Bytes × Content)) : Prop :=
  ∀ entry ∈ entries, PlainName entry.1 ∧ entry.2.kind = .file

/-- No entry of a folder starts at a boundary. -/
theorem not_boundary_entry {content : Content} (hname : name ≠ []) (hzero : ZeroFree name)
    (h : Boundary (name ++ (content.encode ++ back))) : False := by
  rw [content.encode_eq, List.append_assoc, ← List.append_assoc] at h
  have hfree : ZeroFree (name ++ content.kind.tag) := by
    intro hmem
    rcases List.mem_append.mp hmem with hin | hin
    · exact hzero hin
    · exact content.kind.tag_zeroFree hin
  have hlength := h.length_le hfree
  have htag := content.kind.length_tag
  have hpos := List.length_pos_of_ne_nil hname
  rw [List.length_append] at hlength
  omega

/-- Where a file starts, the sixth byte is zero. -/
theorem getElem?_file (hbits : executable < 256 ^ 1) :
    ((Content.file executable contents).encode ++ back)[5]? = some 0 := by
  rw [Content.encode_eq, List.append_assoc, Content.body]
  change (fileTag ++ _)[5]? = _
  rw [List.getElem?_append_right (by decide), List.append_assoc,
    List.getElem?_append_left (by rw [length_littleEndian]; decide)]
  exact getElem?_littleEndian_zero hbits (by decide) (by decide)

/-- A front of a file without a zero byte has at most five bytes. -/
theorem length_le_of_file {front : Bytes} (hfree : ZeroFree front) (hbits : executable < 256 ^ 1)
    (h : front ++ back = (Content.file executable contents).encode ++ others) : front.length ≤ 5 := by
  by_contra hlong
  have hbyte := @getElem?_file others contents executable hbits
  rw [← h, List.getElem?_append_left (by omega)] at hbyte
  exact hfree (List.mem_of_getElem? hbyte)

/-- A file does not start within the tag of another. -/
theorem file_not_shifted {front : Bytes} {executable' : ℕ}
    {contents' : Bytes} (hfree : ZeroFree front) (hbits : executable' < 256 ^ 1)
    (h : front ++ ((Content.file executable contents).encode ++ back) =
      (Content.file executable' contents').encode ++ others) : front = [] := by
  have htagged : ZeroFree (front ++ fileTag) := by
    intro hmem
    rcases List.mem_append.mp hmem with hin | hin
    · exact hfree hin
    · exact absurd hin (by decide)
  have hstream : (front ++ fileTag) ++ ((Content.file executable contents).body ++ back) =
      (Content.file executable' contents').encode ++ others := by
    rw [← h, Content.encode_eq (Content.file executable contents), List.append_assoc, List.append_assoc]
    rfl
  have hlength := length_le_of_file htagged hbits hstream
  have hfour : fileTag.length = 4 := by decide
  rw [List.length_append] at hlength
  have hsecond := congrArg (·[1]?) h
  match front, hlength, hsecond with
  | [], _, _ => rfl
  | [byte], _, hsecond =>
    rw [Content.encode_eq, Content.encode_eq] at hsecond
    exact absurd (show some (102 : UInt8) = some 105 from hsecond) (by decide)
  | first :: second :: rest, hlength, _ =>
    rw [List.length_cons, List.length_cons] at hlength
    omega

/-- A tag that is no part of the name and has no letter that starts a file does not stand where the name
and a file do. -/
theorem tag_not_within {tag front : Bytes} (hletter : (102 : UInt8) ∉ tag) (hplain : ¬ tag <:+: front)
    (h : tag ++ others = front ++ ((Content.file executable contents).encode ++ back)) : False := by
  rcases List.append_eq_append_iff.mp h with ⟨rest, hfront, -⟩ | ⟨rest, htag, hbytes⟩
  · exact hplain (hfront ▸ (List.prefix_append tag rest).isInfix)
  · cases rest with
    | nil =>
      rw [List.append_nil] at htag
      exact hplain (htag ▸ List.infix_refl front)
    | cons byte rest =>
      rw [Content.encode_eq] at hbytes
      have hbyte : (102 : UInt8) = byte := (List.cons.inj hbytes).1
      rw [htag, hbyte] at hletter
      exact hletter (List.mem_append_right front List.mem_cons_self)

/-- A plain name before a file is read back from the front of a folder. -/
theorem plain_name_eq {name' : Bytes} {second : Content} (hplain : PlainName name) (hname : ZeroFree name)
    (hname' : ZeroFree name') (hbits : executable < 256 ^ 1) (hsecond : second.Proper)
    (hthere : second ≠ .missing) (h : name ++ ((Content.file executable contents).encode ++ back) =
      name' ++ (second.encode ++ others)) : name = name' := by
  rcases List.append_eq_append_iff.mp h with ⟨rest, heq, hbytes⟩ | ⟨rest, heq, hbytes⟩
  · -- the other name is longer: its tag would stand on the tag of the file
    have hrest : ZeroFree rest := fun hmem => hname' (heq ▸ List.mem_append_right name hmem)
    have htagged : ZeroFree (rest ++ second.kind.tag) := by
      intro hmem
      rcases List.mem_append.mp hmem with hin | hin
      · exact hrest hin
      · exact second.kind.tag_zeroFree hin
    have hstream : (rest ++ second.kind.tag) ++ (second.body ++ others) =
        (Content.file executable contents).encode ++ back := by
      rw [hbytes, second.encode_eq, List.append_assoc, List.append_assoc]
    have hlength := length_le_of_file htagged hbits hstream
    rw [List.length_append] at hlength
    suffices hnil : rest = [] by rw [heq, hnil, List.append_nil]
    by_contra hne
    have hpos := List.length_pos_of_ne_nil hne
    cases second with
    | file executable' contents' => exact hne (file_not_shifted hrest hbits hbytes.symm)
    | missing => exact hthere rfl
    | link target =>
      have hseven : (Content.link target).kind.tag.length = 7 := rfl
      omega
    | folder entries =>
      have hnine : (Content.folder entries).kind.tag.length = 9 := rfl
      omega
  · -- the other name is shorter: its tag would stand in the plain name
    have hrest : ZeroFree rest := fun hmem => hname (heq ▸ List.mem_append_right name' hmem)
    have hwithin : ∀ tag : Bytes, tag <:+: rest → tag <:+: name := fun tag hin =>
      hin.trans (heq ▸ (List.suffix_append name' rest).isInfix)
    cases hsecond with
    | file hbits' hsize =>
      have hnil := file_not_shifted hrest hbits' hbytes.symm
      rw [heq, hnil, List.append_nil]
    | missing => exact absurd rfl hthere
    | link htarget =>
      rw [Content.encode_eq, List.append_assoc] at hbytes
      exact (tag_not_within (by decide) (fun hin => hplain.1 (hwithin _ hin)) hbytes).elim
    | folder hnames hthere' hcontents =>
      rw [Content.encode_eq, List.append_assoc] at hbytes
      exact (tag_not_within (by decide) (fun hin => hplain.2 (hwithin _ hin)) hbytes).elim

/-- A folder of files with plain names is read back from the front of a stream. -/
theorem plainEntries_append_inj {first second : List (Bytes × Content)} (hplain : PlainEntries first)
    (hfirst : (Content.folder first).Proper) (hsecond : (Content.folder second).Proper)
    (hback : Boundary back) (hothers : Boundary others)
    (h : encodeEntries first ++ back = encodeEntries second ++ others) :
    first = second ∧ back = others := by
  cases hfirst with
  | folder hnames hthere hcontents =>
  cases hsecond with
  | folder hnames' hthere' hcontents' =>
  induction first generalizing second with
  | nil =>
    cases second with
    | nil => exact ⟨rfl, h⟩
    | cons entry rest =>
      obtain ⟨hne, hzero⟩ := hnames' entry List.mem_cons_self
      have hstream : back = entry.1 ++ (entry.2.encode ++ (encodeEntries rest ++ others)) := by
        rw [encodeEntries, encodeEntries, List.append_assoc, List.append_assoc] at h
        exact h
      exact (not_boundary_entry hne hzero (hstream ▸ hback)).elim
  | cons entry rest ih =>
    obtain ⟨name, content⟩ := entry
    obtain ⟨hname, hkind⟩ := hplain _ List.mem_cons_self
    obtain ⟨hne, hzero⟩ := hnames _ List.mem_cons_self
    have hcontent := hcontents _ List.mem_cons_self
    cases second with
    | nil =>
      have hstream : others = name ++ (content.encode ++ (encodeEntries rest ++ back)) := by
        rw [encodeEntries, encodeEntries, List.append_assoc, List.append_assoc] at h
        exact h.symm
      exact (not_boundary_entry hne hzero (hstream ▸ hothers)).elim
    | cons entry' rest' =>
      obtain ⟨name', content'⟩ := entry'
      obtain ⟨-, hzero'⟩ := hnames' _ List.mem_cons_self
      have hcontent' := hcontents' _ List.mem_cons_self
      rw [encodeEntries, encodeEntries] at h
      simp only [List.append_assoc] at h
      cases hcontent with
      | link | folder | missing => cases hkind
      | file hbits hsize =>
        have heq : name = name' := plain_name_eq hname hzero hzero' hbits hcontent'
          (hthere' _ List.mem_cons_self) h
        rw [← heq] at h
        have hparts := file_append_inj (.file hbits hsize) hcontent' (List.append_cancel_left h)
        have hrest := @ih rest'
          (fun entry hmem => hplain entry (List.mem_cons_of_mem _ hmem)) hparts.2
          (fun entry hmem => hnames entry (List.mem_cons_of_mem _ hmem))
          (fun entry hmem => hthere entry (List.mem_cons_of_mem _ hmem))
          (fun entry hmem => hcontents entry (List.mem_cons_of_mem _ hmem))
          (fun entry hmem => hnames' entry (List.mem_cons_of_mem _ hmem))
          (fun entry hmem => hthere' entry (List.mem_cons_of_mem _ hmem))
          (fun entry hmem => hcontents' entry (List.mem_cons_of_mem _ hmem))
        rw [← heq, hparts.1, hrest.1]
        exact ⟨rfl, hrest.2⟩

/-! ## Reading a checkout back -/

/-- The bytes of the listed paths and what stands there. -/
def encodeListed (listed : List (Bytes × Content)) : Bytes :=
  (listed.map fun entry => frame entry.1 ++ entry.2.encode).flatten

/-- A path of a listing whose content was seen. -/
structure Seen (entry : Bytes × Content) : Prop where
  ne : entry.1 ≠ []
  zeroFree : ZeroFree entry.1
  short : entry.1.length < 256 ^ 2
  proper : entry.2.Proper

theorem boundary_encodeListed {listed : List (Bytes × Content)} (hseen : ∀ entry ∈ listed, Seen entry) :
    Boundary (encodeListed listed) := by
  cases listed with
  | nil => exact .done
  | cons entry rest =>
    have hentry := hseen entry List.mem_cons_self
    rw [encodeListed, List.map_cons, List.flatten_cons, List.append_assoc]
    exact .next _ hentry.ne hentry.zeroFree hentry.short

/-- Listed paths are read back when their contents end at one place. -/
theorem encodeListed_inj {first second : List (Bytes × Content)} (hfirst : ∀ entry ∈ first, Seen entry)
    (hsecond : ∀ entry ∈ second, Seen entry)
    (hparted : ∀ path content content', (path, content) ∈ first → (path, content') ∈ second →
      Parted content content')
    (h : encodeListed first = encodeListed second) : first = second := by
  induction first generalizing second with
  | nil =>
    cases second with
    | nil => rfl
    | cons entry rest =>
      have hlength := congrArg List.length h
      rw [encodeListed, encodeListed, List.map_cons, List.flatten_cons, frame] at hlength
      simp only [List.length_append, length_littleEndian, List.map_nil, List.flatten_nil,
        List.length_nil] at hlength
      omega
  | cons entry rest ih =>
    cases second with
    | nil =>
      have hlength := congrArg List.length h
      rw [encodeListed, encodeListed, List.map_cons, List.flatten_cons, frame] at hlength
      simp only [List.length_append, length_littleEndian, List.map_nil, List.flatten_nil,
        List.length_nil] at hlength
      omega
    | cons entry' rest' =>
      obtain ⟨path, content⟩ := entry
      obtain ⟨path', content'⟩ := entry'
      have hentry := hfirst _ List.mem_cons_self
      have hentry' := hsecond _ List.mem_cons_self
      have htail := fun entry hmem => hfirst entry (List.mem_cons_of_mem _ hmem)
      have htail' := fun entry hmem => hsecond entry (List.mem_cons_of_mem _ hmem)
      have hlong : (256 : ℕ) ^ 2 < 256 ^ 8 := by decide
      rw [encodeListed, encodeListed, List.map_cons, List.map_cons, List.flatten_cons,
        List.flatten_cons, List.append_assoc, List.append_assoc] at h
      obtain ⟨hpath, hstream⟩ := frame_append_inj (hentry.short.trans hlong)
        (hentry'.short.trans hlong) h
      have hpath : path = path' := hpath
      subst hpath
      have hparts := hparted path content content' List.mem_cons_self List.mem_cons_self _ _
        (boundary_encodeListed htail) (boundary_encodeListed htail') hstream
      have hrest := ih htail htail'
        (fun path content content' hmem hmem' => hparted path content content'
          (List.mem_cons_of_mem _ hmem) (List.mem_cons_of_mem _ hmem')) hparts.2
      rw [hparts.1, hrest]

/-- The paths that git lists. -/
def Checkout.paths (checkout : Checkout) : Except EngineError (List Bytes) :=
  listedPaths <$> checkout.lsFiles

/-- The path is listed and shows this content. -/
def Checkout.Holds (checkout : Checkout) (path : Bytes) (content : Content) : Prop :=
  ∃ paths, checkout.paths = .ok paths ∧ path ∈ paths ∧ (checkout.node path).content = .ok content

/-- Two checkouts have one HEAD, the same paths and the same contents there. -/
structure Same (first second : Checkout) : Prop where
  head : first.headSha = second.headSha
  paths : first.paths = second.paths
  contents : ∀ path content, first.Holds path content ↔ second.Holds path content

/-- A directory listed in both checkouts looks alike in both. -/
def AlikeFolders (first second : Checkout) : Prop :=
  ∀ path entries others, first.Holds path (.folder entries) → second.Holds path (.folder others) →
    outlineEntries entries = outlineEntries others

/-- The listed directories hold nothing but files with plain names. -/
def PlainFolders (checkout : Checkout) : Prop :=
  ∀ path entries, checkout.Holds path (.folder entries) → PlainEntries entries

theorem mem_splitOn_zeroFree {bytes part : Bytes} (h : part ∈ bytes.splitOn 0) : ZeroFree part := by
  induction bytes generalizing part with
  | nil =>
    rw [List.splitOn_nil, List.mem_singleton] at h
    rw [h]
    exact List.not_mem_nil
  | cons byte rest ih =>
    rw [List.splitOn_cons_eq_if_modifyHead] at h
    split at h
    · rcases List.mem_cons.mp h with rfl | hrest
      · exact List.not_mem_nil
      · exact ih hrest
    · rename_i hbyte
      cases hparts : rest.splitOn 0 with
      | nil => exact absurd hparts (List.splitOn_ne_nil 0 rest)
      | cons head others =>
        rw [hparts, List.modifyHead_cons] at h
        rcases List.mem_cons.mp h with rfl | hrest
        · intro hmem
          rcases List.mem_cons.mp hmem with heq | hin
          · exact hbyte (heq ▸ beq_self_eq_true _)
          · exact ih (hparts ▸ List.mem_cons_self) hin
        · exact ih (hparts ▸ List.mem_cons_of_mem head hrest)

theorem mem_listedPaths {stdout : Bytes} (h : path ∈ listedPaths stdout) : path ≠ [] ∧ ZeroFree path := by
  have hsorted := (List.destutter_sublist _ _).subset h
  rw [List.mem_insertionSort, List.mem_filter] at hsorted
  exact ⟨of_decide_eq_true hsorted.2, mem_splitOn_zeroFree hsorted.1⟩

/-- A path that shows a content is short enough for the calls. -/
theorem Checkout.length_lt (checkout : Checkout) {content : Content}
    (h : (checkout.node path).content = .ok content) : path.length < 256 ^ 2 := by
  by_contra hlong
  have hmax : pathMax = 4096 := rfl
  obtain ⟨message, hfailing⟩ := checkout.node_long path (by omega)
  rw [hfailing] at h
  cases h

theorem hashListed_eq_ok {checkout : Checkout} {part : Bytes} (h : hashListed checkout path = .ok part) :
    ∃ content, (checkout.node path).content = .ok content ∧ part = frame path ++ content.encode := by
  unfold hashListed at h
  split at h
  · cases h
  · rw [hashPath_eq] at h
    cases hcontent : (checkout.node path).content with
    | error err =>
      rw [hcontent] at h
      cases h
    | ok content =>
      rw [hcontent] at h
      exact ⟨content, rfl, (Except.ok.inj h).symm⟩

/-- What is hashed of some paths are the bytes of what they show. -/
theorem mapM_hashListed {checkout : Checkout} {paths parts : List Bytes}
    (h : paths.mapM (hashListed checkout) = .ok parts) :
    ∃ listed : List (Bytes × Content), listed.map Prod.fst = paths ∧
      parts.flatten = encodeListed listed ∧
      ∀ entry ∈ listed, (checkout.node entry.1).content = .ok entry.2 := by
  induction paths generalizing parts with
  | nil =>
    cases h
    exact ⟨[], rfl, rfl, fun entry hmem => absurd hmem List.not_mem_nil⟩
  | cons path rest ih =>
    rw [List.mapM_cons] at h
    cases hpart : hashListed checkout path with
    | error err =>
      rw [hpart] at h
      cases h
    | ok part =>
      cases hrest : rest.mapM (hashListed checkout) with
      | error err =>
        rw [hpart, hrest] at h
        cases h
      | ok others =>
        rw [hpart, hrest] at h
        cases h
        obtain ⟨content, hcontent, rfl⟩ := hashListed_eq_ok hpart
        obtain ⟨listed, rfl, hflatten, hlisted⟩ := ih hrest
        refine ⟨(path, content) :: listed, rfl, ?_, fun entry hmem => ?_⟩
        · rw [List.flatten_cons, hflatten]
          rfl
        · rcases List.mem_cons.mp hmem with rfl | hin
          · exact hcontent
          · exact hlisted entry hin

/-- What a fingerprint is made of. -/
structure Read (sha256 : Bytes → Bytes) (checkout : Checkout) (digest head : Bytes)
    (listed : List (Bytes × Content)) : Prop where
  headSha : checkout.headSha = .ok head
  paths : checkout.paths = .ok (listed.map Prod.fst)
  contents : ∀ entry ∈ listed, (checkout.node entry.1).content = .ok entry.2
  digest_eq : digest = sha256 (head ++ encodeListed listed)

theorem exists_read {sha256 : Bytes → Bytes} {checkout : Checkout} {digest : Bytes}
    (h : checkoutFingerprint sha256 checkout = .ok digest) :
    ∃ head listed, Read sha256 checkout digest head listed := by
  unfold checkoutFingerprint at h
  cases hstdout : checkout.lsFiles with
  | error err =>
    rw [hstdout] at h
    cases h
  | ok stdout =>
    cases hhead : checkout.headSha with
    | error err =>
      rw [hstdout, hhead] at h
      cases h
    | ok head =>
      cases hparts : (listedPaths stdout).mapM (hashListed checkout) with
      | error err =>
        simp only [hstdout, hhead] at h
        change (listedPaths stdout).mapM (hashListed checkout) >>= _ = _ at h
        rw [hparts] at h
        cases h
      | ok parts =>
        simp only [hstdout, hhead] at h
        change (listedPaths stdout).mapM (hashListed checkout) >>= _ = _ at h
        rw [hparts] at h
        obtain ⟨listed, hpaths, hflatten, hcontents⟩ := mapM_hashListed hparts
        refine ⟨head, listed, hhead, ?_, hcontents, ?_⟩
        · rw [Checkout.paths, hstdout, hpaths]
          rfl
        · rw [← hflatten]
          exact (Except.ok.inj h).symm

section Readings

variable {sha256 : Bytes → Bytes} {checkout : Checkout} {digest head : Bytes}
  {listed : List (Bytes × Content)}

/-- A checkout holds exactly what its listing says. -/
theorem Read.holds_iff (h : Read sha256 checkout digest head listed) {content : Content} :
    checkout.Holds path content ↔ (path, content) ∈ listed := by
  constructor
  · rintro ⟨paths, hpaths, hmem, hcontent⟩
    rw [h.paths] at hpaths
    cases hpaths
    obtain ⟨entry, hentry, rfl⟩ := List.mem_map.mp hmem
    have hsame := h.contents entry hentry
    rw [hcontent] at hsame
    rw [Except.ok.inj hsame]
    exact hentry
  · intro hmem
    exact ⟨_, h.paths, List.mem_map.mpr ⟨_, hmem, rfl⟩, h.contents _ hmem⟩

theorem Read.seen (h : Read sha256 checkout digest head listed) {entry : Bytes × Content}
    (hmem : entry ∈ listed) : Seen entry := by
  have hcontent := h.contents entry hmem
  have hpaths := h.paths
  have hin : entry.1 ∈ listed.map Prod.fst := List.mem_map.mpr ⟨entry, hmem, rfl⟩
  cases hstdout : checkout.lsFiles with
  | error err =>
    rw [Checkout.paths, hstdout] at hpaths
    cases hpaths
  | ok stdout =>
    rw [Checkout.paths, hstdout] at hpaths
    rw [← Except.ok.inj hpaths] at hin
    obtain ⟨hne, hzero⟩ := mem_listedPaths hin
    exact ⟨hne, hzero, checkout.length_lt hcontent, (checkout.node_proper entry.1).content hcontent⟩

/-- Checkouts with equal readings are the same. -/
theorem Read.same {second : Checkout} {digest' : Bytes} (hfirst : Read sha256 checkout digest head listed)
    (hsecond : Read sha256 second digest' head listed) : Same checkout second where
  head := hfirst.headSha.trans hsecond.headSha.symm
  paths := hfirst.paths.trans hsecond.paths.symm
  contents := fun _ _ => hfirst.holds_iff.trans hsecond.holds_iff.symm

end Readings

variable {sha256 : Bytes → Bytes} {first second : Checkout} {digest : Bytes}

/-- Equal fingerprints are of equal checkouts where the folders listed in both end at one place. -/
theorem same_of_parted (hsha : Function.Injective sha256)
    (hfirst : checkoutFingerprint sha256 first = .ok digest)
    (hsecond : checkoutFingerprint sha256 second = .ok digest)
    (hparted : ∀ path entries others, first.Holds path (.folder entries) →
      second.Holds path (.folder others) → Parted (.folder entries) (.folder others)) :
    Same first second := by
  obtain ⟨head, listed, hread⟩ := exists_read hfirst
  obtain ⟨head', listed', hread'⟩ := exists_read hsecond
  have hbytes := hsha (hread.digest_eq.symm.trans hread'.digest_eq)
  obtain ⟨hhead, hlisted⟩ := zeroFree_append_inj (first.head_zeroFree head hread.headSha)
    (second.head_zeroFree head' hread'.headSha) (boundary_encodeListed fun _ => hread.seen)
    (boundary_encodeListed fun _ => hread'.seen) hbytes
  have heq : listed = listed' := by
    refine encodeListed_inj (fun _ => hread.seen) (fun _ => hread'.seen) ?_ hlisted
    intro path content content' hmem hmem'
    have hproper : content.Proper := (hread.seen hmem).proper
    have hproper' : content'.Proper := (hread'.seen hmem').proper
    by_cases hfolders : ∃ entries others, content = .folder entries ∧ content' = .folder others
    · obtain ⟨entries, others, rfl, rfl⟩ := hfolders
      exact hparted path entries others (hread.holds_iff.mpr hmem) (hread'.holds_iff.mpr hmem')
    · exact parted_of_not_folders hproper hproper' fun entries others hentries hothers =>
        hfolders ⟨entries, others, hentries, hothers⟩
  subst hhead
  subst heq
  exact hread.same hread'

/-- What a checkout holds is well formed. -/
theorem proper_of_holds {checkout : Checkout} {content : Content} (h : checkout.Holds path content) :
    content.Proper := by
  obtain ⟨_, _, _, hcontent⟩ := h
  exact (checkout.node_proper path).content hcontent

/-- Two checkouts with one fingerprint are the same exactly when the directories listed in both look
alike, and always when those listed in one hold nothing but files with plain names. -/
theorem checkoutFingerprint_faithful (hsha : Function.Injective sha256)
    (hfirst : checkoutFingerprint sha256 first = .ok digest)
    (hsecond : checkoutFingerprint sha256 second = .ok digest) :
    (Same first second ↔ AlikeFolders first second) ∧ (PlainFolders first → Same first second) := by
  refine ⟨⟨fun hsame path entries others hholds hholds' => ?_, fun halike => ?_⟩, fun hplain => ?_⟩
  · obtain ⟨_, _, _, hcontent⟩ := (hsame.contents path _).mp hholds
    obtain ⟨_, _, _, hcontent'⟩ := hholds'
    rw [hcontent] at hcontent'
    rw [Content.folder.inj (Except.ok.inj hcontent')]
  · refine same_of_parted hsha hfirst hsecond fun path entries others hholds hholds' => ?_
    intro back rest _ _ hbytes
    refine outline_append_inj _ _ back rest (proper_of_holds hholds) (proper_of_holds hholds') ?_ hbytes
    rw [Content.outline, Content.outline, halike path entries others hholds hholds']
  · refine same_of_parted hsha hfirst hsecond fun path entries others hholds hholds' => ?_
    intro back rest hback hrest hbytes
    have hparts := plainEntries_append_inj (hplain path entries hholds) (proper_of_holds hholds)
      (proper_of_holds hholds') hback hrest (Content.body_eq hbytes)
    rw [hparts.1]
    exact ⟨rfl, hparts.2⟩

/-! ## Directories that hide a difference -/

/-- A checkout with a submodule. -/
def withSubmodule (stdout : Bytes) (entries : List (Bytes × Node))
    (hproper : (Node.directory entries).Proper) : Checkout where
  headSha := .ok (asciiBytes "c0ffee".toList)
  lsFiles := .ok stdout
  node path := if pathMax ≤ path.length then .failing "File name too long (os error 36)"
    else .directory entries
  head_zeroFree := by
    intro sha hsha
    rw [← Except.ok.inj hsha]
    decide
  node_proper := by
    intro path
    split
    · exact .failing _
    · exact hproper
  node_long := by
    intro path hlong
    exact ⟨_, if_pos hlong⟩

/-- The name of a submodule in a listing. -/
def submoduleListing : Bytes := asciiBytes "sub".toList ++ [0]

/-- A file without contents and the data of git. -/
def oneFile : List (Bytes × Node) := [(dotGit, .file 0o644 [7]), ([98], .file 0o644 [])]

/-- A directory with one node more. -/
theorem Node.Proper.cons {rest : List (Bytes × Node)} (hname : name ≠ [] ∧ ZeroFree name)
    (hthere : node ≠ .missing) (hnode : node.Proper) (hrest : (Node.directory rest).Proper) :
    (Node.directory ((name, node) :: rest)).Proper := by
  cases hrest with
  | directory hnames hall hnodes =>
    refine .directory ?_ ?_ ?_
    · intro entry hmem
      rcases List.mem_cons.mp hmem with rfl | hmem
      · exact hname
      · exact hnames entry hmem
    · intro entry hmem
      rcases List.mem_cons.mp hmem with rfl | hmem
      · exact hthere
      · exact hall entry hmem
    · intro entry hmem
      rcases List.mem_cons.mp hmem with rfl | hmem
      · exact hnode
      · exact hnodes entry hmem

theorem Node.Proper.empty : (Node.directory []).Proper := .directory (by simp) (by simp) (by simp)

theorem oneFile_proper : (Node.directory oneFile).Proper :=
  .cons (by decide) nofun (.file _ (by decide)) (.cons (by decide) nofun (.file _ (by decide)) .empty)

/-- An empty directory with a file behind it. -/
def besideDirectory : List (Bytes × Node) := [([97], .directory []), ([98], .file 0o644 [])]

/-- A directory with a file in it. -/
def insideDirectory : List (Bytes × Node) := [([97], .directory [([98], .file 0o644 [])])]

theorem besideDirectory_proper : (Node.directory besideDirectory).Proper :=
  .cons (by decide) nofun .empty (.cons (by decide) nofun (.file _ (by decide)) .empty)

theorem insideDirectory_proper : (Node.directory insideDirectory).Proper := by
  have hfile : (Node.directory [([98], .file 0o644 [])]).Proper :=
    .cons (by decide) nofun (.file _ (by decide)) .empty
  exact .cons (by decide) nofun hfile .empty

theorem checkoutFingerprint_faithful_relisted :
    let first := withSubmodule submoduleListing oneFile oneFile_proper
    let second := withSubmodule (submoduleListing ++ submoduleListing) oneFile oneFile_proper
    (Same first second ↔ AlikeFolders first second) ∧ (PlainFolders first → Same first second) := by
  apply @checkoutFingerprint_faithful id _ _ _ Function.injective_id rfl
  rfl

theorem moved_file_unseen :
    ¬ ∀ (sha256 : Bytes → Bytes) (first second : Checkout) (digest : Bytes),
      Function.Injective sha256 → checkoutFingerprint sha256 first = .ok digest →
      checkoutFingerprint sha256 second = .ok digest → Same first second := by
  intro h
  have hsame := h id (withSubmodule submoduleListing besideDirectory besideDirectory_proper)
    (withSubmodule submoduleListing insideDirectory insideDirectory_proper) _ Function.injective_id rfl rfl
  have hholds := (hsame.contents (asciiBytes "sub".toList)
    (.folder [([97], .folder []), ([98], .file 0 [])])).mp ⟨_, rfl, by decide, rfl⟩
  obtain ⟨_, _, _, hcontent⟩ := hholds
  have hfolder : Content.folder [([97], .folder [([98], .file 0 [])])] =
      .folder [([97], .folder []), ([98], .file 0 [])] := Except.ok.inj hcontent
  have hlength := congrArg List.length (Content.folder.inj hfolder)
  cases hlength

end Awman.Checkouts
