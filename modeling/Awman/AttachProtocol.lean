import Awman.Library.ByteFrames
import Mathlib.Data.List.Forall2

/-!
# The frames of an attached terminal

Both ends of an attach connection send frames: a tag, the length of the payload in four bytes and the
payload.  A long message is cut into frames that keep below a bound, and a reader takes the frames off
the front of what has arrived.
-/

namespace Awman.Attach

open Awman.ByteFrames (Bytes littleEndian ofLittleEndian)

/-- The bound on the payload of one frame. -/
def maxFrame : ℕ := 2 ^ 20

/-- What a frame is about. -/
inductive Tag where
  | output
  | stdin
  | resize
  | stderr
  | exit
  | failed
  | lagged
  deriving DecidableEq

/-- The number of a tag. -/
def Tag.toU8 : Tag → UInt8
  | .output => 0
  | .stdin => 1
  | .resize => 2
  | .stderr => 3
  | .exit => 4
  | .failed => 5
  | .lagged => 6

/-- The tag of a number. -/
def Tag.fromU8 : UInt8 → Option Tag
  | 0 => some .output
  | 1 => some .stdin
  | 2 => some .resize
  | 3 => some .stderr
  | 4 => some .exit
  | 5 => some .failed
  | 6 => some .lagged
  | _ => none

/-- The kinds of errors that are told apart. -/
inductive ErrorKind where
  | invalidData
  | unexpectedEof
  | timedOut
  | other
  deriving DecidableEq

/-- Why a call brings no value. -/
inductive Stop where
  /-- An error of a kind; a failure of the stream itself brings a message of the system, which is left
  out. -/
  | error (kind : ErrorKind) (message : Option String)
  /-- It waits for the peer and does not come back. -/
  | pending
  deriving DecidableEq

/-- A violation of the protocol. -/
def invalid (message : String) : Stop := .error .invalidData (some message)

/-- The stream has ended. -/
def earlyEof : Stop := .error .unexpectedEof none

/-- A frame that was read: its tag and its payload. -/
abbrev Frame := Tag × Bytes

/-- The layout of a frame. -/
def encodeFrame (tag : Tag) (payload : Bytes) : Bytes :=
  tag.toU8 :: (littleEndian 4 payload.length ++ payload)

/-! ## Writing -/

/-- Writing on a connection, with the bytes that have been taken from it. -/
abbrev Writing := EStateM Stop Bytes

/-- What becomes of a write, given the bytes taken before and the ones written: how many of them are taken
before it stops, and why; nothing where all of them are taken. -/
abbrev Peer := Bytes → Bytes → Option (ℕ × Stop)

/-- Hands all bytes to the peer. -/
def writeAll (peer : Peer) (bytes : Bytes) : Writing Unit := fun taken =>
  match peer taken bytes with
  | none => .ok () (taken ++ bytes)
  | some (count, stop) => .error stop (taken ++ bytes.take count)

/-- Write one frame. -/
def writeFrame (peer : Peer) (tag : Tag) (payload : Bytes) : Writing Unit := do
  if maxFrame < payload.length then throw (invalid "attach frame exceeds bound")
  writeAll peer [tag.toU8]
  writeAll peer (littleEndian 4 payload.length)
  writeAll peer payload
  -- The flush writes nothing more, but it can fail.
  writeAll peer []

/-- Write one frame, and give up on a peer that does not take it in time. -/
def writeFrameBounded (peer : Peer) (tag : Tag) (payload : Bytes) : Writing Unit := fun taken =>
  match writeFrame peer tag payload taken with
  | .error .pending taken => .error (.error .timedOut (some "attach client write timed out")) taken
  | result => result

/-- The bytes in pieces of a size; the last one may be shorter. -/
def chunks (size : ℕ) : Bytes → List Bytes
  | [] => []
  | byte :: bytes => (byte :: bytes.take (size - 1)) :: chunks size (bytes.drop (size - 1))
termination_by bytes => bytes.length
decreasing_by
  rw [List.length_drop, List.length_cons]
  omega

/-- Send bytes as one or more frames. -/
def writeChunkedBounded (peer : Peer) (tag : Tag) (bytes : Bytes) : Writing Unit :=
  if bytes = [] then writeFrameBounded peer tag []
  else (chunks maxFrame bytes).forM (writeFrameBounded peer tag)

/-- A message, and how it is sent. -/
inductive Send where
  | whole (tag : Tag) (payload : Bytes)
  | chunked (tag : Tag) (bytes : Bytes)

/-- The tag of the message. -/
def Send.tag : Send → Tag
  | .whole tag _ => tag
  | .chunked tag _ => tag

/-- The bytes of the message. -/
def Send.message : Send → Bytes
  | .whole _ payload => payload
  | .chunked _ bytes => bytes

/-- Sends one message. -/
def Send.run (peer : Peer) : Send → Writing Unit
  | .whole tag payload => writeFrame peer tag payload
  | .chunked tag bytes => writeChunkedBounded peer tag bytes

/-- Sends one message after another. -/
def sendAll (peer : Peer) (sends : List Send) : Writing Unit := sends.forM (Send.run peer)

/-! ## Reading -/

/-- Reading from a stream that ends behind its last byte, with the bytes not yet consumed. -/
abbrev Reading := EStateM Stop Bytes

/-- Reads so many bytes; a stream that is too short is used up. -/
def readExact (count : ℕ) : Reading Bytes := fun stream =>
  if stream.length < count then .error earlyEof [] else .ok (stream.take count) (stream.drop count)

/-- Reads one byte. -/
def readU8 : Reading UInt8
  | [] => .error earlyEof []
  | byte :: rest => .ok byte rest

/-- Reads a number of four bytes. -/
def readU32Le : Reading ℕ := do
  let bytes ← readExact 4
  return ofLittleEndian bytes

/-- Read one frame. -/
def readFrame : Reading Frame := do
  let tag ← readU8
  let length ← readU32Le
  match Tag.fromU8 tag with
  | none => throw (invalid "unknown attach frame tag")
  | some tag =>
    if maxFrame < length then throw (invalid "attach frame exceeds bound")
    let bytes ← readExact length
    return (tag, bytes)

variable {tag : Tag} {payload stream rest front bytes : Bytes} {frame : Frame} {peer : Peer}

/-! ## One frame -/

@[simp]
theorem fromU8_toU8 (tag : Tag) : Tag.fromU8 tag.toU8 = some tag := by
  cases tag <;> rfl

theorem toU8_of_fromU8 {value : UInt8} (h : Tag.fromU8 value = some tag) : tag.toU8 = value := by
  unfold Tag.fromU8 at h
  split at h
  all_goals cases h
  all_goals rfl

/-- A frame is its payload and five bytes. -/
@[simp]
theorem length_encodeFrame (tag : Tag) (payload : Bytes) :
    (encodeFrame tag payload).length = payload.length + 5 := by
  rw [encodeFrame, List.length_cons, List.length_append, ByteFrames.length_littleEndian]
  omega

theorem readExact_append (front rest : Bytes) :
    readExact front.length (front ++ rest) = .ok front rest := by
  have hlong : ¬ (front ++ rest).length < front.length := by
    rw [List.length_append]
    omega
  rw [readExact, if_neg hlong, List.take_left, List.drop_left]

theorem readExact_short {count : ℕ} (h : stream.length < count) :
    readExact count stream = .error earlyEof [] := if_pos h

/-- What is read behind a header. -/
def readPayload (tag : Option Tag) (length : ℕ) : Reading Frame := do
  match tag with
  | none => throw (invalid "unknown attach frame tag")
  | some tag =>
    if maxFrame < length then throw (invalid "attach frame exceeds bound")
    let bytes ← readExact length
    return (tag, bytes)

theorem readFrame_header {value : UInt8} {header : Bytes} (hheader : header.length = 4) (rest : Bytes) :
    readFrame (value :: (header ++ rest)) =
      readPayload (Tag.fromU8 value) (ofLittleEndian header) rest := by
  have hread : readExact 4 (header ++ rest) = .ok header rest := by
    rw [← hheader]
    exact readExact_append header rest
  simp only [readFrame, readU32Le, readU8, readPayload, bind, pure, EStateM.bind, EStateM.pure, hread]

/-- Less than a header is an early end. -/
theorem readFrame_short (h : stream.length < 5) : readFrame stream = .error earlyEof [] := by
  cases stream with
  | nil => rfl
  | cons value rest =>
    have hread : readExact 4 rest = .error earlyEof [] := by
      apply readExact_short
      rw [List.length_cons] at h
      omega
    simp only [readFrame, readU32Le, readU8, bind, EStateM.bind, hread]

/-- What a reader makes of bytes with a header in front. -/
theorem readPayload_cases (tag : Option Tag) (length : ℕ) (stream : Bytes) :
    (tag = none ∧ readPayload tag length stream = .error (invalid "unknown attach frame tag") stream) ∨
      (maxFrame < length ∧ ∃ known, tag = some known ∧
        readPayload tag length stream = .error (invalid "attach frame exceeds bound") stream) ∨
      (length ≤ maxFrame ∧ stream.length < length ∧ ∃ known, tag = some known ∧
        readPayload tag length stream = .error earlyEof []) ∨
      (length ≤ maxFrame ∧ length ≤ stream.length ∧ ∃ known, tag = some known ∧
        readPayload tag length stream = .ok (known, stream.take length) (stream.drop length)) := by
  cases tag with
  | none => exact Or.inl ⟨rfl, rfl⟩
  | some known =>
    apply Or.inr
    by_cases hlarge : maxFrame < length
    · refine Or.inl ⟨hlarge, known, rfl, ?_⟩
      simp only [readPayload, if_pos hlarge, bind, EStateM.bind, throw, throwThe, MonadExceptOf.throw]
      rfl
    · apply Or.inr
      have hbound := Nat.not_lt.mp hlarge
      by_cases hshort : stream.length < length
      · refine Or.inl ⟨hbound, hshort, known, rfl, ?_⟩
        simp only [readPayload, if_neg hlarge, bind, pure, EStateM.bind,
          readExact_short hshort]
      · refine Or.inr ⟨hbound, Nat.not_lt.mp hshort, known, rfl, ?_⟩
        simp only [readPayload, if_neg hlarge, bind, pure, EStateM.bind, EStateM.pure, readExact,
          if_neg hshort]

/-- Five bytes in front of a stream are a header. -/
theorem exists_header (h : 5 ≤ stream.length) :
    ∃ value header rest, stream = value :: (header ++ rest) ∧ header.length = 4 := by
  cases stream with
  | nil => exact absurd h (by decide)
  | cons value stream =>
    rw [List.length_cons] at h
    refine ⟨value, stream.take 4, stream.drop 4, ?_, ?_⟩
    · rw [List.take_append_drop]
    · rw [List.length_take]
      omega

/-- A frame stands for the bytes it was read from, and it keeps to the bound. -/
theorem encodeFrame_of_readFrame (h : readFrame stream = .ok frame rest) :
    encodeFrame frame.1 frame.2 ++ rest = stream ∧ frame.2.length ≤ maxFrame := by
  by_cases hshort : stream.length < 5
  · rw [readFrame_short hshort] at h
    cases h
  obtain ⟨value, header, back, rfl, hheader⟩ := exists_header (Nat.not_lt.mp hshort)
  rw [readFrame_header hheader] at h
  rcases readPayload_cases (Tag.fromU8 value) (ofLittleEndian header) back with
    ⟨_, hread⟩ | ⟨_, _, _, hread⟩ | ⟨_, _, _, _, hread⟩ | ⟨hbound, hlength, known, htag, hread⟩
  · rw [hread] at h
    cases h
  · rw [hread] at h
    cases h
  · rw [hread] at h
    cases h
  · rw [hread] at h
    cases h
    have htake : (back.take (ofLittleEndian header)).length = ofLittleEndian header := by
      rw [List.length_take]
      omega
    have hbytes : littleEndian 4 (ofLittleEndian header) = header := by
      rw [← hheader]
      exact ByteFrames.littleEndian_ofLittleEndian header
    refine ⟨?_, Nat.le_trans (Nat.le_of_eq htake) hbound⟩
    rw [encodeFrame, htake, hbytes, toU8_of_fromU8 htag, List.cons_append, List.append_assoc,
      List.take_append_drop]

theorem ofLittleEndian_length (h : payload.length ≤ maxFrame) :
    ofLittleEndian (littleEndian 4 payload.length) = payload.length := by
  have hroom : maxFrame < 256 ^ 4 := by decide
  exact ByteFrames.ofLittleEndian_littleEndian (by omega)

/-- A frame is read off the front of a stream. -/
theorem readFrame_encodeFrame (tag : Tag) (h : payload.length ≤ maxFrame) (rest : Bytes) :
    readFrame (encodeFrame tag payload ++ rest) = .ok (tag, payload) rest := by
  rw [encodeFrame, List.cons_append, List.append_assoc,
    readFrame_header (ByteFrames.length_littleEndian 4 _), fromU8_toU8, ofLittleEndian_length h]
  rcases readPayload_cases (some tag) payload.length (payload ++ rest) with
    ⟨hnone, _⟩ | ⟨hlarge, _⟩ | ⟨_, hshort, _⟩ | ⟨_, _, known, htag, hread⟩
  · cases hnone
  · omega
  · rw [List.length_append] at hshort
    omega
  · cases htag
    rw [hread, List.take_left, List.drop_left]

/-- A frame that has not arrived whole is not read. -/
theorem readFrame_cut (tag : Tag) (h : payload.length ≤ maxFrame) {count : ℕ}
    (hcount : count < (encodeFrame tag payload).length) :
    readFrame ((encodeFrame tag payload).take count) = .error earlyEof [] := by
  rw [length_encodeFrame] at hcount
  by_cases hshort : count < 5
  · apply readFrame_short
    rw [List.length_take]
    omega
  · obtain ⟨more, rfl⟩ := Nat.exists_eq_add_of_le' (Nat.not_lt.mp hshort)
    have htake : (encodeFrame tag payload).take (more + 5) =
        tag.toU8 :: (littleEndian 4 payload.length ++ payload.take more) := by
      rw [encodeFrame, List.take_succ_cons, List.take_append, ByteFrames.length_littleEndian,
        List.take_of_length_le (by rw [ByteFrames.length_littleEndian]; omega), Nat.add_sub_cancel]
    rw [htake, readFrame_header (ByteFrames.length_littleEndian 4 _), fromU8_toU8,
      ofLittleEndian_length h]
    rcases readPayload_cases (some tag) payload.length (payload.take more) with
      ⟨hnone, _⟩ | ⟨hlarge, _⟩ | ⟨_, _, _, _, hread⟩ | ⟨_, hlong, _⟩
    · cases hnone
    · omega
    · exact hread
    · rw [List.length_take] at hlong
      omega

/-! ## One frame after another -/

/-- Reads frames until no frame is read, and says why none is. -/
def readFrames (stream : Bytes) : List Frame × Stop :=
  match hread : readFrame stream with
  | .ok frame rest =>
    have : rest.length < stream.length := by
      rw [← (encodeFrame_of_readFrame hread).1, List.length_append, length_encodeFrame]
      omega
    (frame :: (readFrames rest).1, (readFrames rest).2)
  | .error stop _ => ([], stop)
termination_by stream.length

/-- The bytes of frames, one after another. -/
def wire (frames : List Frame) : Bytes := frames.flatMap fun frame => encodeFrame frame.1 frame.2

theorem readFrames_of_ok (h : readFrame stream = .ok frame rest) :
    readFrames stream = (frame :: (readFrames rest).1, (readFrames rest).2) := by
  rw [readFrames]
  split
  · rename_i frame' rest' h'
    rw [h] at h'
    cases h'
    rfl
  · rename_i h'
    rw [h] at h'
    cases h'

theorem readFrames_of_error {stop : Stop} (h : readFrame stream = .error stop rest) :
    readFrames stream = ([], stop) := by
  rw [readFrames]
  split
  · rename_i h'
    rw [h] at h'
    cases h'
  · rename_i h'
    rw [h] at h'
    cases h'
    rfl

/-- Frames that keep to the bound are read back, whatever follows. -/
theorem readFrames_wire {frames : List Frame} (h : ∀ frame ∈ frames, frame.2.length ≤ maxFrame)
    (rest : Bytes) :
    readFrames (wire frames ++ rest) = (frames ++ (readFrames rest).1, (readFrames rest).2) := by
  induction frames with
  | nil => rfl
  | cons frame frames ih =>
    have hfirst := readFrame_encodeFrame frame.1 (h frame List.mem_cons_self) (wire frames ++ rest)
    have hrest := ih fun other hmem => h other (List.mem_cons_of_mem _ hmem)
    rw [wire, List.flatMap_cons, List.append_assoc, ← wire, readFrames_of_ok hfirst, hrest,
      List.cons_append]

/-- Whatever was sent, the frames read stand for a beginning of it, and behind it no frame is read. -/
theorem wire_readFrames (stream : Bytes) :
    ∃ rest left, wire (readFrames stream).1 ++ rest = stream ∧
      readFrame rest = .error (readFrames stream).2 left := by
  induction stream using readFrames.induct with
  | case1 stream frame rest hread hlength ih =>
    obtain ⟨back, left, hback, herror⟩ := ih
    rw [readFrames_of_ok hread]
    refine ⟨back, left, ?_, herror⟩
    rw [wire, List.flatMap_cons, ← wire, List.append_assoc, hback]
    exact (encodeFrame_of_readFrame hread).1
  | case2 stream stop left hread =>
    rw [readFrames_of_error hread]
    exact ⟨stream, left, rfl, hread⟩

/-! ## What is on the connection -/

theorem exists_of_bind_ok {α β : Type} {first : Writing α} {next : α → Writing β} {value : β}
    {taken later : Bytes} (h : (first >>= next) taken = .ok value later) :
    ∃ middle between, first taken = .ok middle between ∧ next middle between = .ok value later := by
  simp only [bind, EStateM.bind] at h
  split at h
  · rename_i middle between hfirst
    exact ⟨middle, between, hfirst, h⟩
  · cases h

theorem writeAll_ok {taken later : Bytes} {done : Unit} (h : writeAll peer bytes taken = .ok done later) :
    later = taken ++ bytes := by
  rw [writeAll] at h
  split at h
  · cases h
    rfl
  · cases h

/-- A call that returns has put these frames on the connection. -/
def Puts (write : Writing Unit) (frames : List Frame) : Prop :=
  ∀ taken later, write taken = .ok () later →
    later = taken ++ wire frames ∧ ∀ frame ∈ frames, frame.2.length ≤ maxFrame

/-- A payload above the bound is refused before anything is written. -/
theorem writeFrame_large (peer : Peer) (tag : Tag) (h : maxFrame < payload.length) (taken : Bytes) :
    writeFrame peer tag payload taken = .error (invalid "attach frame exceeds bound") taken := by
  rw [writeFrame, if_pos h]
  rfl

/-- A finished write puts its one frame. -/
theorem puts_writeFrame (peer : Peer) (tag : Tag) (payload : Bytes) :
    Puts (writeFrame peer tag payload) [(tag, payload)] := by
  intro taken later h
  by_cases hlarge : maxFrame < payload.length
  · rw [writeFrame_large peer tag hlarge] at h
    cases h
  · rw [writeFrame, if_neg hlarge] at h
    obtain ⟨_, first, hfirst, h⟩ := exists_of_bind_ok h
    obtain ⟨_, second, hsecond, h⟩ := exists_of_bind_ok h
    obtain ⟨_, third, hthird, h⟩ := exists_of_bind_ok h
    constructor
    · rw [writeAll_ok h, writeAll_ok hthird, writeAll_ok hsecond, writeAll_ok hfirst]
      simp [wire, encodeFrame]
    · intro frame hmem
      rw [List.mem_singleton.mp hmem]
      exact Nat.not_lt.mp hlarge

theorem puts_writeFrameBounded (peer : Peer) (tag : Tag) (payload : Bytes) :
    Puts (writeFrameBounded peer tag payload) [(tag, payload)] := by
  intro taken later h
  rw [writeFrameBounded] at h
  split at h
  · cases h
  · exact puts_writeFrame peer tag payload taken later h

/-- Calls one after another put the frames of each on the connection. -/
theorem Puts.forM {α : Type} {write : α → Writing Unit} {frames : α → List Frame}
    (h : ∀ value, Puts (write value) (frames value)) (values : List α) :
    Puts (values.forM write) (values.flatMap frames) := by
  induction values with
  | nil =>
    intro taken later hdone
    cases hdone
    exact ⟨(List.append_nil taken).symm, nofun⟩
  | cons value values ih =>
    intro taken later hdone
    obtain ⟨_, between, hfirst, hrest⟩ := exists_of_bind_ok hdone
    obtain ⟨hbetween, hvalue⟩ := h value taken between hfirst
    obtain ⟨hlater, hvalues⟩ := ih between later hrest
    constructor
    · rw [hlater, hbetween, List.flatMap_cons, wire, wire, wire, List.flatMap_append, List.append_assoc]
    · intro frame hmem
      rcases List.mem_append.mp hmem with hmem | hmem
      · exact hvalue frame hmem
      · exact hvalues frame hmem

/-- The frames of a message. -/
def Send.frames : Send → List Frame
  | .whole tag payload => [(tag, payload)]
  | .chunked tag bytes =>
    if bytes = [] then [(tag, [])] else (chunks maxFrame bytes).map fun chunk => (tag, chunk)

/-- A finished send puts exactly its frames. -/
theorem Send.puts (peer : Peer) (send : Send) : Puts (send.run peer) send.frames := by
  cases send with
  | whole tag payload => exact puts_writeFrame peer tag payload
  | chunked tag bytes =>
    rw [Send.run, writeChunkedBounded, Send.frames]
    split
    · exact puts_writeFrameBounded peer tag []
    · have hchunks := Puts.forM (puts_writeFrameBounded peer tag) (chunks maxFrame bytes)
      rwa [← List.map_eq_flatMap] at hchunks

/-- The chunks of a message join to it. -/
theorem flatten_chunks (size : ℕ) (bytes : Bytes) : (chunks size bytes).flatten = bytes := by
  induction bytes using chunks.induct size with
  | case1 => rw [chunks, List.flatten_nil]
  | case2 byte bytes ih =>
    rw [chunks, List.flatten_cons, ih, List.cons_append, List.take_append_drop]

/-- The frames carry the message under its tag. -/
def Send.Carried (send : Send) (frames : List Frame) : Prop :=
  frames ≠ [] ∧ (frames.map Prod.snd).flatten = send.message ∧
    ∀ frame ∈ frames, frame.1 = send.tag ∧ frame.2.length ≤ maxFrame

theorem Send.frames_ne_nil (send : Send) : send.frames ≠ [] := by
  cases send with
  | whole tag payload => exact List.cons_ne_nil _ _
  | chunked tag bytes =>
    cases bytes with
    | nil => exact List.cons_ne_nil _ _
    | cons byte bytes =>
      rw [Send.frames, if_neg (List.cons_ne_nil _ _), chunks]
      exact List.cons_ne_nil _ _

/-- The frames of a message carry it whole. -/
theorem Send.flatten_frames (send : Send) : (send.frames.map Prod.snd).flatten = send.message := by
  cases send with
  | whole tag payload => exact List.append_nil payload
  | chunked tag bytes =>
    rw [Send.frames, Send.message]
    split
    · rename_i hnil
      rw [hnil]
      rfl
    · rw [List.map_map]
      have hchunks : (chunks maxFrame bytes).map (Prod.snd ∘ fun chunk => (tag, chunk)) =
          chunks maxFrame bytes := List.map_id' _
      rw [hchunks, flatten_chunks]

theorem Send.tag_of_mem_frames {send : Send} (h : frame ∈ send.frames) : frame.1 = send.tag := by
  cases send with
  | whole tag payload =>
    rw [List.mem_singleton.mp h]
    rfl
  | chunked tag bytes =>
    rw [Send.frames] at h
    split at h
    · rw [List.mem_singleton.mp h]
      rfl
    · obtain ⟨chunk, _, rfl⟩ := List.mem_map.mp h
      rfl

/-- A peer that takes everything. -/
def willing : Peer := fun _ _ => none

/-- Only what is written whole is ever refused for its length. -/
def Send.Allowed : Send → Prop
  | .whole _ payload => payload.length ≤ maxFrame
  | .chunked _ _ => True

theorem writeFrame_willing (tag : Tag) (h : payload.length ≤ maxFrame) (taken : Bytes) :
    ∃ later, writeFrame willing tag payload taken = .ok () later := by
  rw [writeFrame, if_neg (Nat.not_lt.mpr h)]
  exact ⟨_, rfl⟩

theorem writeFrameBounded_willing (tag : Tag) (h : payload.length ≤ maxFrame) (taken : Bytes) :
    ∃ later, writeFrameBounded willing tag payload taken = .ok () later := by
  obtain ⟨later, hlater⟩ := writeFrame_willing tag h taken
  refine ⟨later, ?_⟩
  rw [writeFrameBounded, hlater]

theorem forM_returns {α : Type} {write : α → Writing Unit} {values : List α}
    (h : ∀ value ∈ values, ∀ taken, ∃ later, write value taken = .ok () later) (taken : Bytes) :
    ∃ later, values.forM write taken = .ok () later := by
  induction values generalizing taken with
  | nil => exact ⟨taken, rfl⟩
  | cons value values ih =>
    obtain ⟨between, hbetween⟩ := h value List.mem_cons_self taken
    obtain ⟨later, hlater⟩ := ih (fun other hmem => h other (List.mem_cons_of_mem _ hmem)) between
    refine ⟨later, ?_⟩
    change (write value >>= fun _ => values.forM write) taken = _
    simp only [bind, EStateM.bind, hbetween]
    exact hlater

theorem length_le_of_mem_chunks {size : ℕ} (hsize : 0 < size) {chunk : Bytes}
    (h : chunk ∈ chunks size bytes) : chunk.length ≤ size := by
  induction bytes using chunks.induct size with
  | case1 =>
    rw [chunks] at h
    cases h
  | case2 byte bytes ih =>
    rw [chunks, List.mem_cons] at h
    rcases h with rfl | h
    · rw [List.length_cons, List.length_take]
      omega
    · exact ih h

/-- A message that is not refused is sent. -/
theorem Send.run_willing {send : Send} (h : send.Allowed) (taken : Bytes) :
    ∃ later, send.run willing taken = .ok () later := by
  cases send with
  | whole tag payload => exact writeFrame_willing tag h taken
  | chunked tag bytes =>
    rw [Send.run, writeChunkedBounded]
    split
    · exact writeFrameBounded_willing tag (Nat.zero_le _) taken
    · refine forM_returns (fun chunk hmem => writeFrameBounded_willing tag ?_) taken
      exact length_le_of_mem_chunks (by decide) hmem

/-- Whatever messages are sent, the reader finds the frames of each, in order; a frame that is read stands
for the bytes it was read from; and from anything else no frame is read: an unknown tag and a length above
the bound are refused right behind the header, and a frame that has not arrived whole is an early end. -/
theorem framing_round_trip :
    (∀ (peer : Peer) (sends : List Send) (taken : Bytes), sendAll peer sends [] = .ok () taken →
      ∃ groups, List.Forall₂ Send.Carried sends groups ∧
        readFrames taken = (groups.flatten, earlyEof)) ∧
    (∀ (sends : List Send) (before : Bytes), (∀ send ∈ sends, send.Allowed) →
      ∃ taken, sendAll willing sends before = .ok () taken) ∧
    (∀ (peer : Peer) (tag : Tag) (payload before : Bytes), maxFrame < payload.length →
      writeFrame peer tag payload before = .error (invalid "attach frame exceeds bound") before) ∧
    (∀ (stream : Bytes) (frame : Frame) (rest : Bytes), readFrame stream = .ok frame rest →
      encodeFrame frame.1 frame.2 ++ rest = stream ∧ frame.2.length ≤ maxFrame) ∧
    (∀ (value : UInt8) (header rest : Bytes), header.length = 4 →
      (Tag.fromU8 value = none →
        readFrame (value :: (header ++ rest)) =
          .error (invalid "unknown attach frame tag") rest) ∧
      ((Tag.fromU8 value).isSome = true → maxFrame < ofLittleEndian header →
        readFrame (value :: (header ++ rest)) =
          .error (invalid "attach frame exceeds bound") rest)) ∧
    (∀ (tag : Tag) (payload : Bytes) (count : ℕ), payload.length ≤ maxFrame →
      count < (encodeFrame tag payload).length →
        readFrame ((encodeFrame tag payload).take count) = .error earlyEof []) := by
  refine ⟨?_, fun _ _ h => forM_returns (fun _ hmem => Send.run_willing (h _ hmem)) _,
    fun peer tag _ before h => writeFrame_large peer tag h before, fun _ _ _ => encodeFrame_of_readFrame,
    ?_, fun tag _ _ h => readFrame_cut tag h⟩
  · intro peer sends taken hsend
    obtain ⟨htaken, hbound⟩ := Puts.forM (Send.puts peer) sends [] taken hsend
    refine ⟨sends.map Send.frames, ?_, ?_⟩
    · rw [List.forall₂_map_right_iff, List.forall₂_same]
      intro send hmem
      refine ⟨send.frames_ne_nil, send.flatten_frames, fun frame hframe => ?_⟩
      exact ⟨Send.tag_of_mem_frames hframe, hbound frame (List.mem_flatMap.mpr ⟨send, hmem, hframe⟩)⟩
    · have hread := readFrames_wire hbound []
      rw [List.append_nil] at hread
      have hend : readFrames [] = ([], earlyEof) := readFrames_of_error (readFrame_short (by decide))
      rw [htaken, List.nil_append, hread, hend, List.append_nil, List.flatMap_def]
  · intro value header rest hheader
    rw [readFrame_header hheader]
    constructor
    · intro htag
      rw [htag]
      rfl
    · intro htag hlarge
      rcases readPayload_cases (Tag.fromU8 value) (ofLittleEndian header) rest with
        ⟨hnone, _⟩ | ⟨_, _, _, hread⟩ | ⟨hbound, _⟩ | ⟨hbound, _⟩
      · rw [hnone] at htag
        cases htag
      · exact hread
      · omega
      · omega

/-- Two typed letters and the end of a terminal that failed. -/
theorem typed_letters_round_trip :
    ∃ groups, List.Forall₂ Send.Carried [.chunked .stdin [104, 105], .chunked .failed []] groups ∧
      readFrames [1, 2, 0, 0, 0, 104, 105, 5, 0, 0, 0, 0] = (groups.flatten, earlyEof) := by
  apply framing_round_trip.1 willing _ _
  have hletters : chunks maxFrame [104, 105] = [[104, 105]] := by
    rw [chunks, maxFrame, List.take_of_length_le (by decide), List.drop_of_length_le (by decide), chunks]
  have hsend : sendAll willing [.chunked .stdin [104, 105], .chunked .failed []] =
      (((chunks maxFrame [104, 105]).forM (writeFrameBounded willing .stdin)) >>= fun _ =>
        (writeFrameBounded willing .failed []) >>= fun _ => pure ()) := rfl
  rw [hsend, hletters]
  rfl

end Awman.Attach
