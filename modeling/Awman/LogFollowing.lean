import Awman.Library.LineEnds
import Awman.Library.TextCuts
import Awman.Library.Utf8Text

/-!
# Following the log of the squad daemon

The log is read again and again while it grows.  Each reading starts at the offset that the one
before it returned, shows the lines that are complete, and returns the offset of what is left.  The
file may be seen at any byte of the log.
-/

namespace Awman.SquadLogs

open Awman.LineEnds Awman.TextCuts Awman.Utf8Text

/-! ## Reading -/

/-- Why a reading failed: what was read is no UTF-8. -/
inductive ReadError where
  | invalidData
  deriving DecidableEq

/-- The lines of a text, each without its line end. -/
def textLines (text : List Char) : List (List Char) :=
  let parts := text.splitOn '\n'
  parts.dropLast.map dropReturn ++
    match parts.getLast? with
    | none => []
    | some last => if last = [] then [] else [last]

/-- The text up to its last line feed. -/
def completed (text : List Char) : List Char :=
  match rsplitOnce '\n' text with
  | some parts => parts.1 ++ ['\n']
  | none => []

/-- Read the complete lines behind an offset of the log, if it exists, and the offset behind
them. -/
def tailNewLines (file : Option (List UInt8)) (offset : Nat) :
    Except ReadError (Option (List (List Char) × Nat)) :=
  match file with
  | none => .ok none
  | some bytes =>
    let size := bytes.length
    -- A log that is shorter than the offset was rotated and is read from its start.
    let start := if size < offset then 0 else offset
    if start = size then .ok (some ([], size))
    else
      match fromUtf8 (bytes.drop start) with
      | none => .error .invalidData
      | some text =>
        let consumed := completed text
        .ok (some (textLines consumed, start + (encode consumed).length))

/-- Follow the log over the states it is seen in, and show the lines. -/
def followLogs (offset : Nat) : List (Option (List UInt8)) → Except ReadError (List (List Char))
  | [] => .ok []
  | file :: files =>
    match tailNewLines file offset with
    | .error error => .error error
    | .ok none => followLogs offset files
    | .ok (some read) =>
      match followLogs read.2 files with
      | .error error => .error error
      | .ok lines => .ok (read.1 ++ lines)

/-! ## A log that grows -/

/-- The sizes at which a growing log is seen, each unless there is no file yet. -/
structure Sightings where
  sizes : List (Option Nat)
  growing : sizes.Pairwise fun earlier later => ∀ size ∈ earlier, ∃ more ∈ later, size ≤ more

/-- The file at a size of the log. -/
def fileAt (log : List Char) (size : Option Nat) : Option (List UInt8) :=
  size.map fun size => (encode log).take size

/-- What was there when the file was seen last. -/
def lastSeen (log : List Char) (sizes : List (Option Nat)) : List UInt8 :=
  sizes.foldl (fun seen size => (fileAt log size).getD seen) []

/-- The complete lines of the bytes. -/
def completeLines (bytes : List UInt8) : List (List Char) :=
  ((fromUtf8Lossy bytes).splitOn '\n').dropLast

/-- The log has a character ending at the size. -/
def AtCharacter (log : List Char) (size : Nat) : Prop :=
  ∃ front, front <+: log ∧ (encode log).take size = encode front

/-- The log is followed without a failure, and each line that was completed is shown once, in order
and unchanged. -/
def Followed (log : List Char) (sizes : List (Option Nat)) : Prop :=
  followLogs 0 (sizes.map (fileAt log)) = .ok (completeLines (lastSeen log sizes))

/-! ## Complete lines -/

/-- A text that ends with a line. -/
def Closed (text : List Char) : Prop :=
  text = [] ∨ ∃ front, text = front ++ ['\n']

theorem closed_completed (text : List Char) : Closed (completed text) := by
  unfold completed
  cases rsplitOnce '\n' text with
  | none => exact Or.inl rfl
  | some parts => exact Or.inr ⟨parts.1, rfl⟩

/-- What is not completed holds no line feed. -/
theorem completed_append (text : List Char) : ∃ rest, text = completed text ++ rest ∧ '\n' ∉ rest := by
  unfold completed
  cases hsplit : rsplitOnce '\n' text with
  | none => exact ⟨text, rfl, rsplitOnce_eq_none.mp hsplit⟩
  | some parts =>
    obtain ⟨htext, hrest⟩ := rsplitOnce_eq_some.mp hsplit
    exact ⟨parts.2, by simpa using htext, hrest⟩

theorem completed_beginning (text : List Char) : completed text <+: text := by
  obtain ⟨rest, htext, _⟩ := completed_append text
  exact ⟨rest, htext.symm⟩

variable {front : List Char} {size : Nat} {sizes : List (Option Nat)}

/-- A text that ends with a line is completed on its own. -/
theorem completed_closed (h : Closed front) (back : List Char) :
    completed (front ++ back) = front ++ completed back := by
  obtain ⟨rest, hback, hrest⟩ := completed_append back
  cases closed_completed back with
  | inr hline =>
    obtain ⟨line, hline⟩ := hline
    have hsplit := rsplitOnce_append (front ++ line) hrest
    have htext : front ++ back = front ++ line ++ '\n' :: rest := by
      rw [hback, hline]
      simp
    rw [← htext] at hsplit
    rw [hline, completed, hsplit]
    simp
  | inl hnone =>
    have htext : back = rest := by simpa [hnone] using hback
    rw [hnone]
    cases h with
    | inl hnil => rw [hnil, List.nil_append, List.nil_append, hnone]
    | inr hline =>
      obtain ⟨line, rfl⟩ := hline
      have hsplit := rsplitOnce_append line hrest
      have hjoin : line ++ ['\n'] ++ back = line ++ '\n' :: rest := by
        rw [htext]
        simp
      rw [hjoin, completed, hsplit]
      simp

/-- The lines of a text, each complete. -/
def lineTexts (text : List Char) : List (List Char) :=
  (text.splitOn '\n').dropLast

/-- A text that ends with a line is cut off from what follows. -/
theorem lineTexts_append (h : Closed front) (back : List Char) :
    lineTexts (front ++ back) = lineTexts front ++ lineTexts back := by
  cases h with
  | inl hnil => rw [hnil]; rfl
  | inr hline =>
    obtain ⟨line, rfl⟩ := hline
    have hwhole : line ++ ['\n'] ++ back = line ++ '\n' :: back := by simp
    have hfront : lineTexts (line ++ ['\n']) = line.splitOn '\n' := by
      rw [lineTexts, List.splitOn_append_cons_self]
      exact List.dropLast_concat
    rw [hfront, hwhole, lineTexts, List.splitOn_append_cons_self,
      List.dropLast_append_of_ne_nil (List.splitOn_ne_nil '\n' back), lineTexts]

theorem lineTexts_completed (text : List Char) : lineTexts (completed text) = lineTexts text := by
  obtain ⟨rest, htext, hrest⟩ := completed_append text
  have happend := lineTexts_append (closed_completed text) rest
  rw [← htext] at happend
  rw [happend, lineTexts, lineTexts, List.splitOn_eq_singleton hrest]
  simp

/-- The lines of a text that ends with one are its complete lines. -/
theorem textLines_of_closed {text : List Char} (h : Closed text) :
    textLines text = (lineTexts text).map dropReturn := by
  have hlast : (text.splitOn '\n').getLast? = some [] := by
    cases h with
    | inl hnil => rw [hnil]; rfl
    | inr hline =>
      obtain ⟨line, rfl⟩ := hline
      rw [List.splitOn_append_cons_self]
      exact List.getLast?_concat
  unfold textLines
  dsimp only
  rw [hlast]
  simp [lineTexts]

/-- Lines keep their text exactly when none ends in a carriage return. -/
theorem map_dropReturn_eq (lines : List (List Char)) :
    lines.map dropReturn = lines ↔ ∀ line ∈ lines, line.getLast? ≠ some '\r' := by
  induction lines with
  | nil => simp
  | cons line lines ih =>
    rw [List.map_cons, List.cons.injEq, ih, dropReturn_eq_self, List.forall_mem_cons]

/-! ## One reading -/

/-- A log that is seen at a character is read from the line where the last reading stopped. -/
theorem tailNewLines_text {head : List Char} (hhead : head <+: front) (hclosed : Closed head) :
    ∃ read, tailNewLines (some (encode front)) (encode head).length =
        .ok (some (read, (encode (completed front)).length)) ∧
      (lineTexts front).map dropReturn = (lineTexts head).map dropReturn ++ read := by
  obtain ⟨tail, rfl⟩ := hhead
  have hlength : (encode (head ++ tail)).length = (encode head).length + (encode tail).length := by
    rw [encode_append, List.length_append]
  have hstart : ¬ (encode (head ++ tail)).length < (encode head).length := by omega
  have hwhole := completed_closed hclosed tail
  unfold tailNewLines
  dsimp only
  rw [if_neg hstart]
  split
  · rename_i hsame
    have hnone : (encode tail).length = 0 := by omega
    have htail : tail = [] := encode_eq_nil.mp (List.length_eq_zero_iff.mp hnone)
    refine ⟨[], ?_, ?_⟩
    · rw [hwhole, htail]
      simp [completed, rsplitOnce, splitOnce]
    · rw [htail]
      simp
  · have hdrop : (encode (head ++ tail)).drop (encode head).length = encode tail := by
      rw [encode_append, List.drop_left]
    rw [hdrop, fromUtf8_encode]
    refine ⟨textLines (completed tail), ?_, ?_⟩
    · rw [hwhole, encode_append, List.length_append]
    · rw [textLines_of_closed (closed_completed tail), lineTexts_completed,
        lineTexts_append hclosed, List.map_append]

/-- A log that is seen inside a character cannot be read. -/
theorem tailNewLines_broken {log head : List Char} (hhead : (encode head).length ≤ size)
    (hlog : head <+: log) (h : ¬ AtCharacter log size) :
    tailNewLines (some ((encode log).take size)) (encode head).length = .error .invalidData := by
  obtain ⟨tail, rfl⟩ := hlog
  have hsize : ((encode (head ++ tail)).take size).length =
      min size ((encode head).length + (encode tail).length) := by
    rw [List.length_take, encode_append, List.length_append]
  have hstart : ¬ ((encode (head ++ tail)).take size).length < (encode head).length := by omega
  have hdrop : ((encode (head ++ tail)).take size).drop (encode head).length =
      (encode tail).take (size - (encode head).length) := by
    rw [encode_append, List.drop_take, List.drop_left]
  have hunread : fromUtf8 ((encode tail).take (size - (encode head).length)) = none := by
    cases hread : fromUtf8 ((encode tail).take (size - (encode head).length)) with
    | none => rfl
    | some read =>
      obtain ⟨hsame, hprefix⟩ := eq_encode_of_prefix (List.take_prefix _ _) hread
      refine absurd ⟨head ++ read, (List.prefix_append_right_inj head).mpr hprefix, ?_⟩ h
      rw [encode_append, encode_append, List.take_append, hsame, List.take_of_length_le hhead]
  unfold tailNewLines
  dsimp only
  rw [if_neg hstart]
  split
  · rename_i hsame
    refine absurd ⟨head, List.prefix_append head tail, ?_⟩ h
    rw [encode_append, List.take_append, List.take_of_length_le hhead]
    have hnone : ((encode tail).take (size - (encode head).length)).length = 0 := by
      rw [List.length_take]
      omega
    rw [List.length_eq_zero_iff.mp hnone, List.append_nil]
  · rw [hdrop, hunread]

/-! ## The run -/

/-- A size at a character, behind a text that was read, shows more of the same text. -/
theorem atCharacter_front {log head : List Char} (hlog : head <+: log)
    (hsize : (encode head).length ≤ size) (h : AtCharacter log size) :
    ∃ front, head <+: front ∧ front <+: log ∧ (encode log).take size = encode front ∧
      (encode front).length ≤ size := by
  obtain ⟨front, hfront, htake⟩ := h
  have hlength := congrArg List.length htake
  rw [List.length_take] at hlength
  have hwhole : (encode head).length ≤ (encode log).length := by
    obtain ⟨rest, rfl⟩ := hlog
    rw [encode_append, List.length_append]
    omega
  refine ⟨front, ?_, hfront, htake, by omega⟩
  cases List.prefix_or_prefix_of_prefix hlog hfront with
  | inl hprefix => exact hprefix
  | inr hprefix =>
    obtain ⟨more, rfl⟩ := hprefix
    rw [encode_append, List.length_append] at hsize hwhole
    have hnone : (encode more).length = 0 := by omega
    rw [encode_eq_nil.mp (List.length_eq_zero_iff.mp hnone), List.append_nil]

/-- What is completed of a front is not longer than what is seen later. -/
theorem completed_length (front : List Char) :
    (encode (completed front)).length ≤ (encode front).length := by
  obtain ⟨rest, hfront, _⟩ := completed_append front
  have hlength := congrArg (fun text => (encode text).length) hfront
  rw [encode_append, List.length_append] at hlength
  omega

/-- A log that only grows is never seen shorter than what was completed of it. -/
theorem completed_le_later (hfirst : ∀ later ∈ sizes, ∀ seen ∈ some size, ∃ more ∈ later, seen ≤ more)
    (hlength : (encode front).length ≤ size) :
    ∀ later, some later ∈ sizes → (encode (completed front)).length ≤ later := by
  intro later hmem
  obtain ⟨more, hsame, hle⟩ := hfirst (some later) hmem size rfl
  have hsame : later = more := Option.some.inj hsame
  have hcompleted := completed_length front
  omega

/-- Following from the end of a line shows what is completed behind it, when the log is always seen
at a character. -/
theorem followLogs_whole {log seen : List Char}
    (hgrowing : sizes.Pairwise fun earlier later => ∀ size ∈ earlier, ∃ more ∈ later, size ≤ more)
    (hlog : seen <+: log) (hsizes : ∀ size, some size ∈ sizes → (encode (completed seen)).length ≤ size)
    (hchars : ∀ size, some size ∈ sizes → AtCharacter log size) :
    ∃ front lines,
      sizes.foldl (fun seen size => (fileAt log size).getD seen) (encode seen) = encode front ∧
      followLogs (encode (completed seen)).length (sizes.map (fileAt log)) = .ok lines ∧
      (lineTexts front).map dropReturn = (lineTexts seen).map dropReturn ++ lines := by
  induction sizes generalizing seen with
  | nil => exact ⟨seen, [], rfl, rfl, (List.append_nil _).symm⟩
  | cons size sizes ih =>
    obtain ⟨hfirst, hrest⟩ := List.pairwise_cons.mp hgrowing
    have hlaterChars : ∀ size, some size ∈ sizes → AtCharacter log size :=
      fun size hsize => hchars size (List.mem_cons_of_mem _ hsize)
    cases size with
    | none =>
      have hlater : ∀ size, some size ∈ sizes → (encode (completed seen)).length ≤ size :=
        fun size hsize => hsizes size (List.mem_cons_of_mem _ hsize)
      exact ih hrest hlog hlater hlaterChars
    | some size =>
      have hhead : completed seen <+: log := (completed_beginning seen).trans hlog
      obtain ⟨front, hmore, hfront, htake, hlength⟩ := atCharacter_front hhead
        (hsizes size List.mem_cons_self) (hchars size List.mem_cons_self)
      obtain ⟨read, hread, hlines⟩ := tailNewLines_text hmore (closed_completed seen)
      have hlater := completed_le_later hfirst hlength
      obtain ⟨last, lines, hlast, hfollow, hall⟩ := ih hrest hfront hlater hlaterChars
      refine ⟨last, read ++ lines, ?_, ?_, ?_⟩
      · rw [List.foldl_cons, fileAt, Option.map_some, Option.getD_some, htake, hlast]
      · have hfile : fileAt log (some size) = some (encode front) := by
          rw [fileAt, Option.map_some, htake]
        rw [List.map_cons, followLogs, hfile, hread]
        dsimp only
        rw [hfollow]
      · rw [hall, hlines, lineTexts_completed, List.append_assoc]

/-- Following fails when the log is seen inside a character. -/
theorem followLogs_broken {log seen : List Char}
    (hgrowing : sizes.Pairwise fun earlier later => ∀ size ∈ earlier, ∃ more ∈ later, size ≤ more)
    (hlog : seen <+: log) (hsizes : ∀ size, some size ∈ sizes → (encode (completed seen)).length ≤ size)
    (hbroken : ∃ size, some size ∈ sizes ∧ ¬ AtCharacter log size) :
    followLogs (encode (completed seen)).length (sizes.map (fileAt log)) = .error .invalidData := by
  induction sizes generalizing seen with
  | nil =>
    obtain ⟨size, hsize, _⟩ := hbroken
    cases hsize
  | cons size sizes ih =>
    obtain ⟨hfirst, hrest⟩ := List.pairwise_cons.mp hgrowing
    obtain ⟨broken, hmem, hchar⟩ := hbroken
    have hhead : completed seen <+: log := (completed_beginning seen).trans hlog
    cases size with
    | none =>
      have hlater : ∀ size, some size ∈ sizes → (encode (completed seen)).length ≤ size :=
        fun size hsize => hsizes size (List.mem_cons_of_mem _ hsize)
      have hthere : some broken ∈ sizes := by simpa using hmem
      exact ih hrest hlog hlater ⟨broken, hthere, hchar⟩
    | some size =>
      have hsize := hsizes size List.mem_cons_self
      rw [List.map_cons, followLogs]
      by_cases hhere : AtCharacter log size
      · obtain ⟨front, hmore, hfront, htake, hlength⟩ := atCharacter_front hhead hsize hhere
        obtain ⟨read, hread, hlines⟩ := tailNewLines_text hmore (closed_completed seen)
        have hlater := completed_le_later hfirst hlength
        have hthere : some broken ∈ sizes := by
          cases List.mem_cons.mp hmem with
          | inl hsame =>
            rw [Option.some.inj hsame] at hchar
            exact absurd hhere hchar
          | inr hthere => exact hthere
        have hfollow := ih hrest hfront hlater ⟨broken, hthere, hchar⟩
        have hfile : fileAt log (some size) = some (encode front) := by
          rw [fileAt, Option.map_some, htake]
        rw [hfile, hread]
        dsimp only
        rw [hfollow]
      · have hfile : fileAt log (some size) = some ((encode log).take size) := rfl
        rw [hfile, tailNewLines_broken hsize hhead hhere]

/-- A growing log is followed as it should be exactly when it is always seen at a character and no
line that was completed ends in a carriage return. -/
theorem followed_iff (log : List Char) (seen : Sightings) :
    Followed log seen.sizes ↔
      (∀ size, some size ∈ seen.sizes → AtCharacter log size) ∧
        ∀ line ∈ completeLines (lastSeen log seen.sizes), line.getLast? ≠ some '\r' := by
  have hempty : completed [] = [] := rfl
  have hstart : ∀ size, some size ∈ seen.sizes → (encode (completed [])).length ≤ size := by
    intro size hsize
    rw [hempty]
    exact Nat.zero_le size
  by_cases hchars : ∀ size, some size ∈ seen.sizes → AtCharacter log size
  · obtain ⟨front, lines, hlast, hfollow, hlines⟩ :=
      followLogs_whole seen.growing List.nil_prefix hstart hchars
    have hseen : completeLines (lastSeen log seen.sizes) = lineTexts front := by
      have hbytes : lastSeen log seen.sizes = encode front := hlast
      rw [hbytes, completeLines, encode, fromUtf8Lossy_encode]
      rfl
    have hshown : lines = (lineTexts front).map dropReturn := by
      rw [hlines]
      rfl
    have hrun : followLogs 0 (seen.sizes.map (fileAt log)) = .ok lines := hfollow
    unfold Followed
    rw [hseen, hrun, hshown, Except.ok.injEq, map_dropReturn_eq]
    exact (and_iff_right hchars).symm
  · have hbroken : ∃ size, some size ∈ seen.sizes ∧ ¬ AtCharacter log size := by
      simpa using hchars
    have hrun : followLogs 0 (seen.sizes.map (fileAt log)) = .error .invalidData :=
      followLogs_broken seen.growing List.nil_prefix hstart hbroken
    unfold Followed
    rw [hrun]
    simp [hchars]

/-- A log that is seen inside a character cannot be followed. -/
theorem character_cut_not_followed :
    ¬ ∀ (log : List Char) (seen : Sightings), Followed log seen.sizes := by
  intro hall
  have hfollowed := hall ['é', '\n'] ⟨[some 1, some 3], by simp⟩
  have hfails : followLogs 0 ([some 1, some 3].map (fileAt ['é', '\n'])) = .error .invalidData := rfl
  rw [Followed, hfails] at hfollowed
  cases hfollowed

end Awman.SquadLogs
