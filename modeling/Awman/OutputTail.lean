import Awman.Library.LineEnds
import Awman.Library.LineRecords
import Awman.Library.Utf8Text

/-!
# The output tail of a container

The bytes of a running container are gathered into lines, each decoded when it is complete.  A line
that grows too long is cut, and so may be a character in it.  A tail without a bound keeps every
line: what it says is compared with the text of the whole stream.
-/

namespace Awman.AgentRuntime

open Awman.LineEnds Awman.LineRecords Awman.Utf8Text

/-! ## The tail -/

/-- The byte that ends a line. -/
def newline : UInt8 := 0x0A

/-- The byte of a carriage return. -/
def carriageReturn : UInt8 := 0x0D

/-- How many bytes a line that is not terminated may have. -/
def maxLineBytes : Nat := 64 * 1024

/-- What a tail holds. -/
structure Inner where
  /-- The completed lines, the oldest first. -/
  lines : List (List Char)
  /-- The bytes since the last newline. -/
  pending : List UInt8

/-- A tail.  No capacity is the largest machine number: more lines than that do not exist. -/
structure OutputTail where
  /-- How many lines are kept. -/
  capacity : Option Nat
  inner : Inner

/-- Commit a completed line, evicting the oldest at the capacity. -/
def Inner.commit (inner : Inner) (line : List Char) (capacity : Option Nat) : Inner :=
  let kept := match capacity with
    | some capacity => if capacity ≤ inner.lines.length then inner.lines.tail else inner.lines
    | none => inner.lines
  { inner with lines := kept ++ [line] }

/-- The text of a raw line, without a carriage return at its end. -/
def decodeLine (bytes : List UInt8) : List Char :=
  dropReturn (fromUtf8Lossy bytes)

/-- A tail that keeps so many lines, one at least. -/
def OutputTail.new (capacity : Option Nat) : OutputTail :=
  ⟨capacity.map fun capacity => max capacity 1, ⟨[], []⟩⟩

/-- A tail that keeps every line. -/
def OutputTail.unbounded : OutputTail := .new none

/-- Append a byte. -/
def Inner.pushByte (capacity : Option Nat) (inner : Inner) (byte : UInt8) : Inner :=
  if byte = newline then
    { inner with pending := [] }.commit (decodeLine inner.pending) capacity
  else
    let pending := inner.pending ++ [byte]
    if maxLineBytes ≤ pending.length then
      { inner with pending := [] }.commit (decodeLine pending) capacity
    else { inner with pending }

/-- Append a chunk of bytes. -/
def OutputTail.pushBytes (tail : OutputTail) (bytes : List UInt8) : OutputTail :=
  { tail with inner := bytes.foldl (Inner.pushByte tail.capacity) tail.inner }

/-- The lines, the bytes that are not terminated as the last of them. -/
def Inner.snapshot (inner : Inner) : List (List Char) :=
  inner.lines ++ if inner.pending = [] then [] else [decodeLine inner.pending]

/-- The lines joined by newlines, with one at the end. -/
def OutputTail.snapshotText (tail : OutputTail) : List Char :=
  let lines := tail.inner.snapshot
  if lines = [] then [] else List.intercalate ['\n'] lines ++ ['\n']

/-- The tail after chunks. -/
def OutputTail.pushAll (tail : OutputTail) (chunks : List (List UInt8)) : OutputTail :=
  chunks.foldl OutputTail.pushBytes tail

/-! ## What a transcript says -/

/-- The text of a stream, each line end a line feed and the last line ended. -/
def transcript (bytes : List UInt8) : List Char :=
  closed '\n' (toLineFeeds (fromUtf8Lossy bytes))

/-- A text says what the stream says: it is its transcript, and neither a line break nor a
replacement is more often in it than in the stream's own text. -/
structure Says (text : List Char) (bytes : List UInt8) : Prop where
  same : text = transcript bytes
  /-- No line break is introduced. -/
  breaks : text.count '\n' ≤ (closed '\n' (fromUtf8Lossy bytes)).count '\n'
  replaced : text.count replacement ≤ (fromUtf8Lossy bytes).count replacement

/-- Every line of the stream has room, and what follows the last newline does not end in a carriage
return. -/
def Roomy (bytes : List UInt8) : Prop :=
  (∀ line ∈ (bytes.splitOn newline).dropLast, line.length < maxLineBytes) ∧
    ∀ last, (bytes.splitOn newline).getLast? = some last →
      last.length ≤ maxLineBytes ∧ last.getLast? ≠ some carriageReturn

/-! ## Chunks -/

theorem pushBytes_append (tail : OutputTail) (front back : List UInt8) :
    (tail.pushBytes front).pushBytes back = tail.pushBytes (front ++ back) := by
  simp [OutputTail.pushBytes]

/-- However the bytes are cut, the tail is the same. -/
theorem pushAll_eq (tail : OutputTail) (chunks : List (List UInt8)) :
    tail.pushAll chunks = tail.pushBytes chunks.flatten := by
  induction chunks generalizing tail with
  | nil => rfl
  | cons chunk chunks ih =>
    have hrest := ih (tail.pushBytes chunk)
    rw [OutputTail.pushAll, List.foldl_cons, ← OutputTail.pushAll, hrest, pushBytes_append,
      List.flatten_cons]

/-! ## A tail without a bound -/

/-- What is held after the bytes, from the bytes that wait. -/
def fed (pending bytes : List UInt8) : Inner :=
  bytes.foldl (Inner.pushByte none) ⟨[], pending⟩

/-- The lines that are there already stay. -/
theorem foldl_pushByte (lines : List (List Char)) (pending bytes : List UInt8) :
    bytes.foldl (Inner.pushByte none) ⟨lines, pending⟩ =
      ⟨lines ++ (fed pending bytes).lines, (fed pending bytes).pending⟩ := by
  unfold fed
  induction bytes generalizing lines pending with
  | nil => simp
  | cons byte bytes ih =>
    have hbyte : Inner.pushByte none ⟨lines, pending⟩ byte =
        ⟨lines ++ (Inner.pushByte none ⟨[], pending⟩ byte).lines,
          (Inner.pushByte none ⟨[], pending⟩ byte).pending⟩ := by
      unfold Inner.pushByte
      split
      · simp [Inner.commit]
      · dsimp only
        split
        · simp [Inner.commit]
        · simp
    rw [List.foldl_cons, List.foldl_cons, hbyte, ih]
    have hempty := ih (Inner.pushByte none ⟨[], pending⟩ byte).lines
      (Inner.pushByte none ⟨[], pending⟩ byte).pending
    rw [hempty, List.append_assoc]

/-- The text that a tail shows. -/
def Inner.text (inner : Inner) : List Char :=
  render inner.snapshot

theorem snapshotText_eq (tail : OutputTail) : tail.snapshotText = tail.inner.text := by
  unfold OutputTail.snapshotText Inner.text
  dsimp only
  split
  · rename_i hnone
    rw [hnone, render_nil]
  · rename_i hsome
    exact intercalate_append hsome

theorem pushAll_text (chunks : List (List UInt8)) :
    (OutputTail.unbounded.pushAll chunks).snapshotText = (fed [] chunks.flatten).text := by
  rw [snapshotText_eq, pushAll_eq]
  rfl

/-- Bytes without a newline wait, but for whole lines of the greatest length. -/
theorem fed_line {pending bytes : List UInt8} (hpending : pending.length < maxLineBytes)
    (h : newline ∉ bytes) :
    (fed pending bytes).lines.length = (pending.length + bytes.length) / maxLineBytes ∧
      (fed pending bytes).pending.length = (pending.length + bytes.length) % maxLineBytes := by
  induction bytes generalizing pending with
  | nil =>
    have hdiv : pending.length / maxLineBytes = 0 := Nat.div_eq_of_lt hpending
    have hmod : pending.length % maxLineBytes = pending.length := Nat.mod_eq_of_lt hpending
    simp [fed, hdiv, hmod]
  | cons byte bytes ih =>
    have hbyte : byte ≠ newline := fun heq => h (heq ▸ List.mem_cons_self)
    have hbytes : newline ∉ bytes := fun hmem => h (List.mem_cons_of_mem _ hmem)
    have hpositive : 0 < maxLineBytes := by decide
    unfold fed
    rw [List.foldl_cons, Inner.pushByte, if_neg hbyte]
    dsimp only
    rw [List.length_append, List.length_singleton]
    split
    · rename_i hfull
      have hlength : pending.length + 1 = maxLineBytes := by omega
      have hsum : pending.length + (byte :: bytes).length = bytes.length + maxLineBytes := by
        rw [List.length_cons]
        omega
      have hrest := @ih [] hpositive hbytes
      rw [List.length_nil, Nat.zero_add] at hrest
      simp only [Inner.commit, List.nil_append]
      rw [foldl_pushByte, hsum, Nat.add_div_right _ hpositive, Nat.add_mod_right, hrest.2,
        List.length_append, List.length_singleton, hrest.1]
      omega
    · rename_i hroom
      have hrest := @ih (pending ++ [byte]) (by simp; omega) hbytes
      have hsum : (pending ++ [byte]).length + bytes.length =
          pending.length + (byte :: bytes).length := by
        simp
        omega
      rw [hsum] at hrest
      exact hrest

/-- Bytes without a newline wait as long as they have room. -/
theorem fed_room {pending bytes : List UInt8}
    (hroom : pending.length + bytes.length < maxLineBytes) (h : newline ∉ bytes) :
    fed pending bytes = ⟨[], pending ++ bytes⟩ := by
  induction bytes generalizing pending with
  | nil => simp [fed]
  | cons byte bytes ih =>
    have hbyte : byte ≠ newline := fun heq => h (heq ▸ List.mem_cons_self)
    have hbytes : newline ∉ bytes := fun hmem => h (List.mem_cons_of_mem _ hmem)
    rw [List.length_cons] at hroom
    have hfull : ¬ maxLineBytes ≤ (pending ++ [byte]).length := by
      simp
      omega
    have hrest := @ih (pending ++ [byte]) (by simp; omega) hbytes
    unfold fed at hrest ⊢
    rw [List.foldl_cons, Inner.pushByte, if_neg hbyte]
    rw [if_neg hfull, hrest, List.append_assoc]
    rfl

theorem fed_append (pending front back : List UInt8) :
    fed pending (front ++ back) =
      ⟨(fed pending front).lines ++ (fed (fed pending front).pending back).lines,
        (fed (fed pending front).pending back).pending⟩ := by
  have hback := foldl_pushByte (fed pending front).lines (fed pending front).pending back
  unfold fed at hback ⊢
  rw [List.foldl_append]
  exact hback

/-- The lines that a line makes with its newline. -/
def lineOf (line : List UInt8) : List (List Char) :=
  (fed [] (line ++ [newline])).lines

theorem fed_newline (line : List UInt8) :
    fed [] (line ++ [newline]) =
      ⟨(fed [] line).lines ++ [decodeLine (fed [] line).pending], []⟩ := by
  rw [fed_append]
  rfl

/-- What follows a newline is shown behind what the line before it makes. -/
theorem text_line (line back : List UInt8) :
    (fed [] (line ++ newline :: back)).text = render (lineOf line) ++ (fed [] back).text := by
  have hsplit : line ++ newline :: back = line ++ [newline] ++ back := by simp
  rw [hsplit, fed_append]
  have hwait : (fed [] (line ++ [newline])).pending = [] := by rw [fed_newline]
  rw [hwait, Inner.text, Inner.text, Inner.snapshot, Inner.snapshot, List.append_assoc,
    render_append]
  rfl

/-! ## What a line reads as -/

theorem ofNat_newline : Char.ofNat newline.toNat = '\n' := rfl

theorem not_mem_decode {bytes : List UInt8} (h : newline ∉ bytes) : '\n' ∉ fromUtf8Lossy bytes := by
  intro hmem
  exact h (mem_fromUtf8Lossy (by decide) hmem)

theorem not_mem_decodeLine {bytes : List UInt8} (h : newline ∉ bytes) : '\n' ∉ decodeLine bytes :=
  fun hmem => not_mem_decode h (mem_of_mem_dropReturn hmem)

/-- No line of a tail holds a newline. -/
theorem fed_no_newline {pending bytes : List UInt8} (hpending : newline ∉ pending) :
    (∀ line ∈ (fed pending bytes).lines, '\n' ∉ line) ∧ newline ∉ (fed pending bytes).pending := by
  induction bytes generalizing pending with
  | nil => exact ⟨by simp [fed], hpending⟩
  | cons byte bytes ih =>
    have hclear := @ih [] List.not_mem_nil
    unfold fed
    rw [List.foldl_cons, Inner.pushByte]
    split
    · simp only [Inner.commit, List.nil_append]
      rw [foldl_pushByte]
      refine ⟨?_, hclear.2⟩
      intro line hline
      cases List.mem_append.mp hline with
      | inl hfirst =>
        rw [List.mem_singleton.mp hfirst]
        exact not_mem_decodeLine hpending
      | inr hrest => exact hclear.1 line hrest
    · rename_i hbyte
      have hnext : newline ∉ pending ++ [byte] := by
        intro hmem
        cases List.mem_append.mp hmem with
        | inl hold => exact hpending hold
        | inr hnew => exact hbyte (List.mem_singleton.mp hnew).symm
      dsimp only
      split
      · simp only [Inner.commit, List.nil_append]
        rw [foldl_pushByte]
        refine ⟨?_, hclear.2⟩
        intro line hline
        cases List.mem_append.mp hline with
        | inl hfirst =>
          rw [List.mem_singleton.mp hfirst]
          exact not_mem_decodeLine hnext
        | inr hrest => exact hclear.1 line hrest
      · exact ih hnext

/-- How many lines a line with its newline makes. -/
theorem count_lineOf {line : List UInt8} (h : newline ∉ line) :
    (render (lineOf line)).count '\n' = line.length / maxLineBytes + 1 := by
  have hclear := @fed_no_newline [] line List.not_mem_nil
  have hlines := @fed_line [] line (by decide) h
  rw [List.length_nil, Nat.zero_add] at hlines
  unfold lineOf
  rw [fed_newline]
  have hnone : ∀ other ∈ (fed [] line).lines ++ [decodeLine (fed [] line).pending],
      '\n' ∉ other := by
    intro other hother
    cases List.mem_append.mp hother with
    | inl hfull => exact hclear.1 other hfull
    | inr hlast =>
      rw [List.mem_singleton.mp hlast]
      exact not_mem_decodeLine hclear.2
  rw [count_render hnone, List.length_append, List.length_singleton, hlines.1]

/-- A line with room makes one line. -/
theorem lineOf_room {line : List UInt8} (h : newline ∉ line) (hroom : line.length < maxLineBytes) :
    lineOf line = [decodeLine line] := by
  have hfed := @fed_room [] line (by simpa using hroom) h
  unfold lineOf
  rw [fed_newline, hfed]
  rfl

/-- How many lines bytes without a newline show. -/
theorem count_last {last : List UInt8} (h : newline ∉ last) :
    (fed [] last).text.count '\n' =
      last.length / maxLineBytes + if last.length % maxLineBytes = 0 then 0 else 1 := by
  have hclear := @fed_no_newline [] last List.not_mem_nil
  have hlines := @fed_line [] last (by decide) h
  rw [List.length_nil, Nat.zero_add] at hlines
  have hnone : ∀ line ∈ (fed [] last).snapshot, '\n' ∉ line := by
    intro line hline
    cases List.mem_append.mp hline with
    | inl hfull => exact hclear.1 line hfull
    | inr hwait =>
      split at hwait
      · cases hwait
      · rw [List.mem_singleton.mp hwait]
        exact not_mem_decodeLine hclear.2
  rw [Inner.text, count_render hnone, Inner.snapshot, List.length_append, hlines.1, ← hlines.2]
  by_cases hempty : (fed [] last).pending = []
  · simp [hempty]
  · simp [hempty]

/-- Bytes without a newline that have room are shown as one line. -/
theorem text_last {last : List UInt8} (h : newline ∉ last) (hroom : last.length ≤ maxLineBytes)
    (hsome : last ≠ []) : (fed [] last).text = decodeLine last ++ ['\n'] := by
  by_cases hless : last.length < maxLineBytes
  · have hfed := @fed_room [] last (by simpa using hless) h
    rw [hfed, Inner.text, Inner.snapshot]
    simp [hsome, render]
  · obtain ⟨front, byte, rfl⟩ := (List.eq_nil_or_concat' last).resolve_left hsome
    have hfront : newline ∉ front := fun hmem => h (List.mem_append_left _ hmem)
    have hbyte : byte ≠ newline := by
      rintro rfl
      exact h (by simp)
    rw [List.length_append, List.length_singleton] at hroom hless
    have hfed := @fed_room [] front (by simp; omega) hfront
    have hfull : maxLineBytes ≤ (front ++ [byte]).length := by
      simp
      omega
    have hlast : fed front [byte] = ⟨[decodeLine (front ++ [byte])], []⟩ := by
      unfold fed
      rw [List.foldl_cons, List.foldl_nil, Inner.pushByte, if_neg hbyte]
      rw [if_pos hfull]
      rfl
    rw [fed_append, hfed, List.nil_append, List.nil_append, hlast]
    simp [Inner.text, Inner.snapshot, render]

/-! ## The transcript by lines -/

theorem transcript_nil : transcript [] = [] := rfl

theorem closed_append (front back : List Char) :
    closed '\n' (front ++ '\n' :: back) = front ++ '\n' :: closed '\n' back := by
  cases hback : back.getLast? with
  | none =>
    rw [List.getLast?_eq_none_iff.mp hback]
    simp [closed]
  | some last =>
    have hlast : (front ++ '\n' :: back).getLast? = some last := by
      obtain ⟨start, rfl⟩ := List.getLast?_eq_some_iff.mp hback
      have hwhole : front ++ '\n' :: (start ++ [last]) = front ++ '\n' :: start ++ [last] := by simp
      rw [hwhole, List.getLast?_concat]
    unfold closed
    rw [hback, hlast]
    dsimp only
    split
    · rfl
    · simp

/-- A line of the stream is a line of its transcript. -/
theorem transcript_line {line : List UInt8} (h : newline ∉ line) (back : List UInt8) :
    transcript (line ++ newline :: back) = decodeLine line ++ '\n' :: transcript back := by
  have hdecoded := fromUtf8Lossy_append_ascii (by decide : newline < 0x80) line back
  unfold transcript
  rw [hdecoded, ofNat_newline, toLineFeeds_line (not_mem_decode h), closed_append]
  rfl

/-- What follows the last newline is ended in the transcript. -/
theorem transcript_last {last : List UInt8} (h : newline ∉ last) (hsome : last ≠ []) :
    transcript last = fromUtf8Lossy last ++ ['\n'] := by
  have hnone := not_mem_decode h
  have hdecoded : fromUtf8Lossy last ≠ [] := fun hnil => hsome (fromUtf8Lossy_eq_nil.mp hnil)
  unfold transcript
  rw [toLineFeeds_of_not_mem hnone, closed]
  split
  · rename_i hnil
    exact absurd (List.getLast?_eq_none_iff.mp hnil) hdecoded
  · rename_i char hchar
    have hne : char ≠ '\n' := by
      rintro rfl
      exact hnone (List.mem_of_getLast? hchar)
    rw [if_neg hne]

/-! ## When the text is the transcript -/

theorem roomy_line {line : List UInt8} (h : newline ∉ line) (back : List UInt8) :
    Roomy (line ++ newline :: back) ↔ line.length < maxLineBytes ∧ Roomy back := by
  have hback : back.splitOn newline ≠ [] := List.splitOn_ne_nil newline back
  unfold Roomy
  rw [List.splitOn_append_cons_self, List.splitOn_eq_singleton h, List.singleton_append,
    List.dropLast_cons_of_ne_nil hback, List.getLast?_cons_of_ne_nil hback, List.forall_mem_cons,
    and_assoc]

theorem roomy_last {last : List UInt8} (h : newline ∉ last) :
    Roomy last ↔ last.length ≤ maxLineBytes ∧ last.getLast? ≠ some carriageReturn := by
  simp [Roomy, List.splitOn_eq_singleton h]

/-- The tail shows every line end of the transcript. -/
theorem count_transcript_le (bytes : List UInt8) :
    (transcript bytes).count '\n' ≤ (fed [] bytes).text.count '\n' := by
  induction bytes using lines_induction newline with
  | last last hlast =>
    by_cases hnil : last = []
    · rw [hnil]
      rfl
    · have hdecoded : (fromUtf8Lossy last).count '\n' = 0 :=
        List.count_eq_zero.mpr (not_mem_decode hlast)
      have hlength : 0 < last.length := List.length_pos_iff.mpr hnil
      have hdiv := Nat.div_add_mod last.length maxLineBytes
      rw [transcript_last hlast hnil, List.count_append, hdecoded, count_last hlast]
      split
      · rename_i hmod
        have hpositive : last.length / maxLineBytes ≠ 0 := by
          intro hzero
          rw [hzero, hmod] at hdiv
          omega
        have hone : 1 ≤ last.length / maxLineBytes := Nat.pos_of_ne_zero hpositive
        simpa using hone
      · simp
  | line line back hline ih =>
    have hdecoded : (decodeLine line).count '\n' = 0 :=
      List.count_eq_zero.mpr (not_mem_decodeLine hline)
    rw [transcript_line hline, text_line, List.count_append, List.count_append,
      List.count_cons_self, hdecoded, count_lineOf hline]
    generalize line.length / maxLineBytes = more
    omega

/-- What is not terminated is shown as its text when it has room and no carriage return ends it. -/
theorem text_last_eq_iff {last : List UInt8} (h : newline ∉ last) :
    (fed [] last).text = transcript last ↔
      last.length ≤ maxLineBytes ∧ last.getLast? ≠ some carriageReturn := by
  by_cases hnil : last = []
  · rw [hnil]
    simp [fed, Inner.text, Inner.snapshot, transcript_nil]
  · rw [transcript_last h hnil]
    have hreturn : (fromUtf8Lossy last).getLast? = some '\r' ↔
        last.getLast? = some carriageReturn :=
      getLast?_fromUtf8Lossy (by decide : carriageReturn < 0x80) last
    constructor
    · intro hsame
      have hdecoded : (fromUtf8Lossy last).count '\n' = 0 :=
        List.count_eq_zero.mpr (not_mem_decode h)
      have hcount := congrArg (List.count '\n') hsame
      rw [count_last h, List.count_append, hdecoded] at hcount
      simp only [Nat.zero_add, List.count_singleton_self] at hcount
      have hdiv := Nat.div_add_mod last.length maxLineBytes
      have hroom : last.length ≤ maxLineBytes := by
        split at hcount
        · rename_i hmod
          rw [Nat.add_zero] at hcount
          rw [hcount, hmod] at hdiv
          omega
        · have hzero : last.length / maxLineBytes = 0 := by omega
          have hpositive : 0 < maxLineBytes := by decide
          rw [Nat.div_eq_zero_iff] at hzero
          omega
      rw [text_last h hroom hnil] at hsame
      have hkept := dropReturn_eq_self.mp (List.append_cancel_right hsame)
      exact ⟨hroom, fun hend => hkept (hreturn.mpr hend)⟩
    · intro hfits
      have hkept : dropReturn (fromUtf8Lossy last) = fromUtf8Lossy last :=
        dropReturn_eq_self.mpr fun hend => hfits.2 (hreturn.mp hend)
      rw [text_last h hfits.1 hnil, decodeLine, hkept]

/-- The text of a tail without a bound is the transcript exactly for a stream whose lines have
room. -/
theorem text_eq_transcript_iff (bytes : List UInt8) :
    (fed [] bytes).text = transcript bytes ↔ Roomy bytes := by
  induction bytes using lines_induction newline with
  | last last hlast => rw [text_last_eq_iff hlast, roomy_last hlast]
  | line line back hline ih =>
    rw [roomy_line hline, transcript_line hline, text_line, ← ih]
    constructor
    · intro hsame
      have hdecoded : (decodeLine line).count '\n' = 0 :=
        List.count_eq_zero.mpr (not_mem_decodeLine hline)
      have hcount := congrArg (List.count '\n') hsame
      rw [List.count_append, List.count_append, List.count_cons_self, hdecoded,
        count_lineOf hline] at hcount
      have hback := count_transcript_le back
      have hzero : line.length / maxLineBytes = 0 := by
        generalize line.length / maxLineBytes = more at hcount ⊢
        omega
      have hroom : line.length < maxLineBytes := by
        have hpositive : 0 < maxLineBytes := by decide
        rw [Nat.div_eq_zero_iff] at hzero
        omega
      rw [lineOf_room hline hroom, render_cons, List.append_assoc] at hsame
      exact ⟨hroom, List.cons.inj (List.append_cancel_left hsame) |>.2⟩
    · intro hfits
      rw [lineOf_room hline hfits.1, render_cons, hfits.2, List.append_assoc]
      rfl

/-! ## Nothing is introduced -/

/-- Turning line ends into line feeds keeps how many lines there are. -/
theorem count_closed_toLineFeeds (text : List Char) :
    (closed '\n' (toLineFeeds text)).count '\n' = (closed '\n' text).count '\n' := by
  induction text using lines_induction '\n' with
  | last last hlast => rw [toLineFeeds_of_not_mem hlast]
  | line line back hline ih =>
    have hkept : '\n' ∉ dropReturn line := fun hmem => hline (mem_of_mem_dropReturn hmem)
    rw [toLineFeeds_line hline, closed_append, closed_append, List.count_append,
      List.count_append, List.count_cons_self, List.count_cons_self, ih,
      List.count_eq_zero.mpr hkept, List.count_eq_zero.mpr hline]

theorem count_closed {char : Char} (h : char ≠ '\n') (text : List Char) :
    (closed '\n' text).count char = text.count char := by
  unfold closed
  split
  · rfl
  · split
    · rfl
    · rw [List.count_append, List.count_singleton, if_neg (by simpa using h.symm), Nat.add_zero]

/-- What a transcript says is in the stream. -/
theorem says_transcript (bytes : List UInt8) : Says (transcript bytes) bytes where
  same := rfl
  breaks := Nat.le_of_eq (count_closed_toLineFeeds (fromUtf8Lossy bytes))
  replaced := by
    have hfeed : replacement ≠ '\n' := by decide
    have hreturn : replacement ≠ '\r' := by decide
    rw [transcript, count_closed hfeed, count_toLineFeeds hreturn]

/-- The text of a tail without a bound does not depend on the chunks, and it says what the stream
says exactly when the lines of the stream have room and its end is no carriage return. -/
theorem unbounded_snapshotText (chunks : List (List UInt8)) :
    (OutputTail.unbounded.pushAll chunks).snapshotText =
        (OutputTail.unbounded.pushAll [chunks.flatten]).snapshotText ∧
      (Says (OutputTail.unbounded.pushAll chunks).snapshotText chunks.flatten ↔
        Roomy chunks.flatten) := by
  have htext := pushAll_text chunks
  have hwhole := pushAll_text [chunks.flatten]
  rw [List.flatten_singleton] at hwhole
  refine ⟨htext.trans hwhole.symm, ?_⟩
  rw [htext, ← text_eq_transcript_iff]
  constructor
  · intro hsays
    exact hsays.same
  · intro hsame
    rw [hsame]
    exact says_transcript chunks.flatten

/-- A character that stands where a line is cut is broken, and so is the line. -/
theorem long_line_broken :
    ¬ Says (OutputTail.unbounded.pushAll
      [List.replicate 65535 0x78 ++ [0xC3, 0xA9, 0x0A]]).snapshotText
      (List.replicate 65535 0x78 ++ [0xC3, 0xA9, 0x0A]) := by
  intro hsays
  have htext := pushAll_text [List.replicate 65535 0x78 ++ [0xC3, 0xA9, 0x0A]]
  rw [List.flatten_singleton] at htext
  have hsame := hsays.same
  rw [htext] at hsame
  have hroomy := (text_eq_transcript_iff _).mp hsame
  have hline : newline ∉ List.replicate 65535 (0x78 : UInt8) ++ [0xC3, 0xA9] := by
    intro hmem
    cases List.mem_append.mp hmem with
    | inl hletter =>
      have hletter := List.eq_of_mem_replicate hletter
      cases hletter
    | inr hmark => exact absurd hmark (by decide)
  have hsplit : List.replicate 65535 (0x78 : UInt8) ++ [0xC3, 0xA9, 0x0A] =
      List.replicate 65535 0x78 ++ [0xC3, 0xA9] ++ newline :: [] := by
    rw [List.append_assoc]
    rfl
  rw [hsplit] at hroomy
  have hlength := ((roomy_line hline []).mp hroomy).1
  rw [List.length_append, List.length_replicate] at hlength
  exact absurd hlength (by decide)

end Awman.AgentRuntime
