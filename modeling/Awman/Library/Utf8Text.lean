import Mathlib.Data.List.Basic
import Mathlib.Data.UInt

/-!
# Texts decoded from bytes

UTF-8 decoding of bytes that need not be UTF-8.  Each longest start of a character that is not
completed, and each byte that starts none, counts as one unreadable character; the lossy decoding
puts a replacement character in its place.  ASCII characters are decoded from their own byte and
from nothing else, wherever they stand.
-/

namespace Awman.Utf8Text

/-- The character that stands for bytes that cannot be read. -/
def replacement : Char := '\uFFFD'

/-- A character above the ASCII range by its number. -/
def highChar (scalar : Nat) : Char :=
  if 0x80 ≤ scalar ∧ scalar.isValidChar then Char.ofNat scalar else replacement

/-- The start of a character of several bytes. -/
structure Begun where
  /-- The bits read so far. -/
  scalar : Nat
  /-- The bounds of the bytes that are owed. -/
  owed : List (UInt8 × UInt8)

/-- What a byte amounts to: a character, or none that can be read, or the start of one. -/
inductive Reading where
  | done (char : Option Char)
  | more (begun : Begun)

/-- Read the first byte of a character. -/
def start (byte : UInt8) : Reading :=
  if byte < 0x80 then .done (some (Char.ofNat byte.toNat))
  else if 0xC2 ≤ byte ∧ byte ≤ 0xDF then .more ⟨byte.toNat - 0xC0, [(0x80, 0xBF)]⟩
  else if byte = 0xE0 then .more ⟨0, [(0xA0, 0xBF), (0x80, 0xBF)]⟩
  else if byte = 0xED then .more ⟨0xD, [(0x80, 0x9F), (0x80, 0xBF)]⟩
  else if 0xE1 ≤ byte ∧ byte ≤ 0xEF then
    .more ⟨byte.toNat - 0xE0, [(0x80, 0xBF), (0x80, 0xBF)]⟩
  else if byte = 0xF0 then .more ⟨0, [(0x90, 0xBF), (0x80, 0xBF), (0x80, 0xBF)]⟩
  else if 0xF1 ≤ byte ∧ byte ≤ 0xF3 then
    .more ⟨byte.toNat - 0xF0, [(0x80, 0xBF), (0x80, 0xBF), (0x80, 0xBF)]⟩
  else if byte = 0xF4 then .more ⟨4, [(0x80, 0x8F), (0x80, 0xBF), (0x80, 0xBF)]⟩
  else .done none

/-- Read a further byte of a character, if it belongs to it. -/
def Begun.next (begun : Begun) (byte : UInt8) : Option Reading :=
  let scalar := begun.scalar * 0x40 + (byte.toNat - 0x80)
  match begun.owed with
  | [] => none
  | bounds :: owed =>
    if 0x80 ≤ byte ∧ bounds.1 ≤ byte ∧ byte ≤ bounds.2 then
      some (if owed = [] then .done (some (highChar scalar)) else .more ⟨scalar, owed⟩)
    else none

/-- Go on after a reading. -/
def Reading.andThen (reading : Reading) (rest : Option Begun → List (Option Char)) :
    List (Option Char) :=
  match reading with
  | .done char => char :: rest none
  | .more begun => rest (some begun)

/-- The characters of the bytes, each unless it cannot be read. -/
def decodeFrom : List UInt8 → Option Begun → List (Option Char)
  | [], none => []
  | [], some _ => [none]
  | byte :: rest, none => (start byte).andThen (decodeFrom rest)
  | byte :: rest, some begun =>
    match begun.next byte with
    | some reading => reading.andThen (decodeFrom rest)
    -- The byte does not belong to the character: it is read again as a first byte.
    | none => none :: (start byte).andThen (decodeFrom rest)

/-- The text of the bytes, with a replacement for what cannot be read. -/
def fromUtf8Lossy (bytes : List UInt8) : List Char :=
  (decodeFrom bytes none).map fun char => char.getD replacement

/-- The text of the bytes, if they are UTF-8. -/
def fromUtf8 (bytes : List UInt8) : Option (List Char) :=
  (decodeFrom bytes none).mapM id

/-- The bytes of an ASCII text. -/
def asciiBytes (text : List Char) : List UInt8 :=
  text.map fun char => UInt8.ofNat char.toNat

/-- A decoded character that is no ASCII character, or none that can be read. -/
def High (char : Option Char) : Prop :=
  ∀ read, char = some read → 0x80 ≤ read.toNat

theorem toNat_ofNat {scalar : Nat} (h : scalar.isValidChar) : (Char.ofNat scalar).toNat = scalar := by
  unfold Char.ofNat
  rw [dif_pos h]
  rfl

theorem high_highChar {scalar : Nat} : High (some (highChar scalar)) := by
  intro read hread
  cases hread
  unfold highChar
  split
  · rename_i hscalar
    rw [toNat_ofNat hscalar.2]
    exact hscalar.1
  · decide

theorem Begun.next_ascii (begun : Begun) {byte : UInt8} (h : byte < 0x80) : begun.next byte = none := by
  have hlow : ¬ 0x80 ≤ byte := UInt8.not_le.mpr h
  unfold Begun.next
  cases begun.owed with
  | nil => rfl
  | cons bounds owed => simp [hlow]

theorem start_ascii {byte : UInt8} (h : byte < 0x80) :
    start byte = .done (some (Char.ofNat byte.toNat)) := by
  simp [start, h]

/-- What follows an ASCII byte is decoded on its own, and so is what comes before it. -/
theorem decodeFrom_append_ascii {byte : UInt8} (h : byte < 0x80) (front back : List UInt8)
    (begun : Option Begun) :
    decodeFrom (front ++ byte :: back) begun =
      decodeFrom front begun ++ some (Char.ofNat byte.toNat) :: decodeFrom back none := by
  induction front generalizing begun with
  | nil =>
    cases begun with
    | none => simp [decodeFrom, start_ascii h, Reading.andThen]
    | some begun => simp [decodeFrom, Begun.next_ascii begun h, start_ascii h, Reading.andThen]
  | cons first rest ih =>
    have hthen : ∀ reading : Reading, reading.andThen (decodeFrom (rest ++ byte :: back)) =
        reading.andThen (decodeFrom rest) ++
          some (Char.ofNat byte.toNat) :: decodeFrom back none := by
      intro reading
      cases reading with
      | done | more => simp [Reading.andThen, ih]
    cases begun with
    | none => simp [decodeFrom, hthen]
    | some begun =>
      simp only [List.cons_append, decodeFrom]
      cases begun.next first with
      | none | some => simp [hthen]

theorem fromUtf8Lossy_append_ascii {byte : UInt8} (h : byte < 0x80) (front back : List UInt8) :
    fromUtf8Lossy (front ++ byte :: back) =
      fromUtf8Lossy front ++ Char.ofNat byte.toNat :: fromUtf8Lossy back := by
  simp [fromUtf8Lossy, decodeFrom_append_ascii h]

/-- What has begun ends in a character that is not ASCII, or in none. -/
theorem decodeFrom_begun (bytes : List UInt8) (begun : Begun) :
    ∃ char rest, decodeFrom bytes (some begun) = char :: rest ∧ High char := by
  induction bytes generalizing begun with
  | nil => exact ⟨none, [], rfl, by simp [High]⟩
  | cons byte bytes ih =>
    cases hnext : begun.next byte with
    | none =>
      refine ⟨none, (start byte).andThen (decodeFrom bytes), ?_, by simp [High]⟩
      simp only [decodeFrom, hnext]
    | some reading =>
      simp only [decodeFrom, hnext]
      unfold Begun.next at hnext
      cases howed : begun.owed with
      | nil => simp [howed] at hnext
      | cons bounds owed =>
        simp only [howed, Option.ite_none_right_eq_some, Option.some.injEq] at hnext
        obtain ⟨_, rfl⟩ := hnext
        split
        · exact ⟨_, _, rfl, high_highChar⟩
        · exact ih _

/-- A byte that is not ASCII decodes to a character that is not, or to none. -/
theorem decodeFrom_high {byte : UInt8} (h : ¬ byte < 0x80) (bytes : List UInt8) :
    ∃ char rest, decodeFrom (byte :: bytes) none = char :: rest ∧ High char := by
  rw [decodeFrom]
  cases hstart : start byte with
  | more begun => exact decodeFrom_begun bytes begun
  | done char =>
    have hnone : char = none := by
      unfold start at hstart
      rw [if_neg h] at hstart
      repeat' split at hstart
      all_goals cases hstart
      rfl
    exact ⟨char, _, rfl, by simp [High, hnone]⟩

/-- A text starts with an ASCII character exactly when the bytes start with its byte. -/
theorem fromUtf8Lossy_eq_cons {bytes : List UInt8} {char : Char} {text : List Char}
    (hascii : char.toNat < 0x80) (h : fromUtf8Lossy bytes = char :: text) :
    ∃ rest, bytes = UInt8.ofNat char.toNat :: rest ∧ fromUtf8Lossy rest = text := by
  cases bytes with
  | nil => cases h
  | cons byte rest =>
    by_cases hbyte : byte < 0x80
    · have hdecoded := fromUtf8Lossy_append_ascii hbyte [] rest
      rw [List.nil_append, h] at hdecoded
      obtain ⟨rfl, hrest⟩ := List.cons.inj hdecoded
      refine ⟨rest, ?_, hrest.symm⟩
      have hvalid : byte.toNat.isValidChar := Or.inl (by have := byte.toNat_lt; omega)
      rw [toNat_ofNat hvalid, UInt8.ofNat_toNat]
    · obtain ⟨read, others, hdecoded, hhigh⟩ := decodeFrom_high hbyte rest
      rw [fromUtf8Lossy, hdecoded, List.map_cons] at h
      obtain ⟨hchar, _⟩ := List.cons.inj h
      cases read with
      | none =>
        rw [← hchar] at hascii
        exact absurd hascii (by decide)
      | some read =>
        have hread := hhigh read rfl
        simp only [Option.getD_some] at hchar
        rw [hchar] at hread
        omega

theorem fromUtf8Lossy_eq_nil {bytes : List UInt8} : fromUtf8Lossy bytes = [] ↔ bytes = [] := by
  constructor
  · intro h
    cases bytes with
    | nil => rfl
    | cons byte rest =>
      by_cases hbyte : byte < 0x80
      · have hdecoded := fromUtf8Lossy_append_ascii hbyte [] rest
        rw [List.nil_append, h] at hdecoded
        cases hdecoded
      · obtain ⟨_, _, hdecoded, _⟩ := decodeFrom_high hbyte rest
        rw [fromUtf8Lossy, hdecoded] at h
        cases h
  · rintro rfl
    rfl

/-- An ASCII text. -/
def Ascii (text : List Char) : Prop :=
  ∀ char ∈ text, char.toNat < 0x80

instance (text : List Char) : Decidable (Ascii text) :=
  List.decidableBAll (fun char : Char => char.toNat < 0x80) text

/-- A text starts with an ASCII text exactly when the bytes start with its bytes. -/
theorem fromUtf8Lossy_eq_append {bytes : List UInt8} {front text : List Char} (hascii : Ascii front) :
    fromUtf8Lossy bytes = front ++ text ↔
      ∃ rest, bytes = asciiBytes front ++ rest ∧ fromUtf8Lossy rest = text := by
  induction front generalizing bytes with
  | nil => simp [asciiBytes]
  | cons char front ih =>
    have hchar : char.toNat < 0x80 := hascii char List.mem_cons_self
    have hfront : Ascii front := fun other hother => hascii other (List.mem_cons_of_mem _ hother)
    constructor
    · intro h
      obtain ⟨others, rfl, hothers⟩ := fromUtf8Lossy_eq_cons hchar h
      obtain ⟨rest, rfl, hrest⟩ := (ih hfront).mp hothers
      exact ⟨rest, rfl, hrest⟩
    · rintro ⟨rest, rfl, hrest⟩
      have hbyte : UInt8.ofNat char.toNat < 0x80 := by
        rw [UInt8.lt_iff_toNat_lt, UInt8.toNat_ofNat']
        have hsmall : (0x80 : UInt8).toNat = 0x80 := rfl
        omega
      have hback : Char.ofNat (UInt8.ofNat char.toNat).toNat = char := by
        have hsame : (UInt8.ofNat char.toNat).toNat = char.toNat := by
          rw [UInt8.toNat_ofNat']
          omega
        rw [hsame, Char.ofNat_toNat]
      have hdecoded := fromUtf8Lossy_append_ascii hbyte [] (asciiBytes front ++ rest)
      have hothers := (ih hfront).mpr ⟨rest, rfl, hrest⟩
      rw [hback, hothers] at hdecoded
      exact hdecoded

/-- An ASCII text is decoded from its own bytes alone. -/
theorem fromUtf8Lossy_eq_ascii {bytes : List UInt8} {text : List Char} (hascii : Ascii text) :
    fromUtf8Lossy bytes = text ↔ bytes = asciiBytes text := by
  have happend := @fromUtf8Lossy_eq_append bytes text [] hascii
  simp only [List.append_nil] at happend
  rw [happend]
  constructor
  · rintro ⟨rest, rfl, hrest⟩
    rw [fromUtf8Lossy_eq_nil.mp hrest, List.append_nil]
  · rintro rfl
    exact ⟨[], (List.append_nil _).symm, rfl⟩

theorem start_eq_done {byte : UInt8} {char : Char} (h : start byte = .done (some char)) :
    byte < 0x80 ∧ char = Char.ofNat byte.toNat := by
  unfold start at h
  split at h
  · rename_i hbyte
    exact ⟨hbyte, by simpa using h.symm⟩
  · repeat' split at h
    all_goals cases h

theorem next_eq_done {begun : Begun} {byte : UInt8} {char : Char}
    (h : begun.next byte = some (.done (some char))) : 0x80 ≤ char.toNat := by
  unfold Begun.next at h
  cases howed : begun.owed with
  | nil => simp [howed] at h
  | cons bounds owed =>
    simp only [howed, Option.ite_none_right_eq_some, Option.some.injEq] at h
    obtain ⟨_, hread⟩ := h
    split at hread
    · simp only [Reading.done.injEq, Option.some.injEq] at hread
      rw [← hread]
      exact high_highChar _ rfl
    · cases hread

/-- An ASCII character is decoded from its own byte. -/
theorem mem_decodeFrom {bytes : List UInt8} {begun : Option Begun} {char : Char}
    (hascii : char.toNat < 0x80) (h : some char ∈ decodeFrom bytes begun) :
    UInt8.ofNat char.toNat ∈ bytes := by
  induction bytes generalizing begun with
  | nil =>
    cases begun with
    | none => cases h
    | some begun => simp [decodeFrom] at h
  | cons byte rest ih =>
    have hstart : some char ∈ (start byte).andThen (decodeFrom rest) →
        UInt8.ofNat char.toNat ∈ byte :: rest := by
      intro hmem
      cases hread : start byte with
      | more begun =>
        rw [hread] at hmem
        exact List.mem_cons_of_mem _ (ih hmem)
      | done read =>
        rw [hread] at hmem
        rcases List.mem_cons.mp hmem with rfl | hrest
        · obtain ⟨hbyte, rfl⟩ := start_eq_done hread
          have hvalid : byte.toNat.isValidChar := Or.inl (by have := byte.toNat_lt; omega)
          rw [toNat_ofNat hvalid, UInt8.ofNat_toNat]
          exact List.mem_cons_self
        · exact List.mem_cons_of_mem _ (ih hrest)
    cases begun with
    | none => exact hstart h
    | some begun =>
      cases hnext : begun.next byte with
      | none =>
        simp only [decodeFrom, hnext, List.mem_cons, reduceCtorEq, false_or] at h
        exact hstart h
      | some reading =>
        simp only [decodeFrom, hnext] at h
        cases reading with
        | more begun => exact List.mem_cons_of_mem _ (ih h)
        | done read =>
          rcases List.mem_cons.mp h with rfl | hrest
          · have hhigh := next_eq_done hnext
            omega
          · exact List.mem_cons_of_mem _ (ih hrest)

theorem mem_fromUtf8Lossy {bytes : List UInt8} {char : Char} (hascii : char.toNat < 0x80)
    (h : char ∈ fromUtf8Lossy bytes) : UInt8.ofNat char.toNat ∈ bytes := by
  obtain ⟨read, hread, hchar⟩ := List.mem_map.mp h
  cases read with
  | none =>
    rw [← hchar] at hascii
    exact absurd hascii (by decide)
  | some read =>
    obtain rfl : read = char := hchar
    exact mem_decodeFrom hascii hread

/-- Bytes are cut at an ASCII separator where their text is. -/
theorem splitOn_fromUtf8Lossy {byte : UInt8} (h : byte < 0x80) (bytes : List UInt8) :
    (fromUtf8Lossy bytes).splitOn (Char.ofNat byte.toNat) =
      (bytes.splitOn byte).map fromUtf8Lossy := by
  have hsmall : byte.toNat < 0x80 := h
  have hvalid : byte.toNat.isValidChar := Or.inl (by omega)
  induction hlength : bytes.length using Nat.strong_induction_on generalizing bytes with
  | _ length ih =>
    by_cases hmem : byte ∈ bytes
    · obtain ⟨front, back, rfl⟩ := List.append_of_mem hmem
      simp only [List.length_append, List.length_cons] at hlength
      have hfront := ih front.length (by omega) front rfl
      have hback := ih back.length (by omega) back rfl
      rw [fromUtf8Lossy_append_ascii h, List.splitOn_append_cons_self,
        List.splitOn_append_cons_self, List.map_append, hfront, hback]
    · have hnone : Char.ofNat byte.toNat ∉ fromUtf8Lossy bytes := by
        intro hchar
        have hbyte := mem_fromUtf8Lossy (by rwa [toNat_ofNat hvalid]) hchar
        rw [toNat_ofNat hvalid, UInt8.ofNat_toNat] at hbyte
        exact hmem hbyte
      rw [List.splitOn_eq_singleton hnone, List.splitOn_eq_singleton hmem]
      rfl

/-- A text ends in an ASCII character exactly when the bytes end in its byte. -/
theorem getLast?_fromUtf8Lossy {byte : UInt8} (h : byte < 0x80) (bytes : List UInt8) :
    (fromUtf8Lossy bytes).getLast? = some (Char.ofNat byte.toNat) ↔ bytes.getLast? = some byte := by
  have hsmall : byte.toNat < 0x80 := h
  have hvalid : byte.toNat.isValidChar := Or.inl (by omega)
  constructor
  · intro hlast
    have hchar := List.mem_of_getLast? hlast
    have hmem := mem_fromUtf8Lossy (by rwa [toNat_ofNat hvalid]) hchar
    rw [toNat_ofNat hvalid, UInt8.ofNat_toNat] at hmem
    -- Nothing stands behind the last of its bytes, as it would show.
    obtain ⟨back, front, hreverse, hnone⟩ :=
      List.eq_append_cons_of_mem (List.mem_reverse.mpr hmem)
    have hbytes : bytes = front.reverse ++ byte :: back.reverse := by
      rw [← List.reverse_reverse bytes, hreverse]
      simp
    have hnotback : byte ∉ back.reverse := fun hback => hnone (List.mem_reverse.mp hback)
    rw [hbytes, fromUtf8Lossy_append_ascii h] at hlast
    cases hshown : fromUtf8Lossy back.reverse with
    | nil => rw [hbytes, fromUtf8Lossy_eq_nil.mp hshown, List.getLast?_concat]
    | cons first rest =>
      have hend : (fromUtf8Lossy back.reverse).getLast? = some (Char.ofNat byte.toNat) := by
        rw [hshown] at hlast ⊢
        rw [← hlast, List.getLast?_append_cons, List.getLast?_cons_of_ne_nil (List.cons_ne_nil _ _)]
      have hback := mem_fromUtf8Lossy (by rwa [toNat_ofNat hvalid]) (List.mem_of_getLast? hend)
      rw [toNat_ofNat hvalid, UInt8.ofNat_toNat] at hback
      exact absurd hback hnotback
  · intro hlast
    obtain ⟨front, rfl⟩ := List.getLast?_eq_some_iff.mp hlast
    rw [fromUtf8Lossy_append_ascii h]
    exact List.getLast?_concat

/-! ## Encoding -/

theorem toNat_ofNat_byte {number : Nat} (h : number < 0x100) : (UInt8.ofNat number).toNat = number := by
  rw [UInt8.toNat_ofNat']
  exact Nat.mod_eq_of_lt h

theorem highChar_toNat {char : Char} (h : 0x80 ≤ char.toNat) : highChar char.toNat = char := by
  have hvalid : char.toNat.isValidChar := char.valid
  unfold highChar
  rw [if_pos ⟨h, hvalid⟩, Char.ofNat_toNat]

/-- A further byte whose number is within the bounds is read. -/
theorem decodeFrom_next {scalar number : Nat} {bounds : UInt8 × UInt8} {owed : List (UInt8 × UInt8)}
    (hsmall : number < 0x40) (hlow : bounds.1.toNat ≤ number + 0x80)
    (hhigh : number + 0x80 ≤ bounds.2.toNat) (rest : List UInt8) :
    decodeFrom (UInt8.ofNat (number + 0x80) :: rest) (some ⟨scalar, bounds :: owed⟩) =
      if owed = [] then some (highChar (scalar * 0x40 + number)) :: decodeFrom rest none
      else decodeFrom rest (some ⟨scalar * 0x40 + number, owed⟩) := by
  have hnumber : (UInt8.ofNat (number + 0x80)).toNat = number + 0x80 := toNat_ofNat_byte (by omega)
  have hbounds : (0x80 : UInt8) ≤ UInt8.ofNat (number + 0x80) ∧
      bounds.1 ≤ UInt8.ofNat (number + 0x80) ∧ UInt8.ofNat (number + 0x80) ≤ bounds.2 := by
    simp only [UInt8.le_iff_toNat_le, hnumber]
    exact ⟨Nat.le_add_left 0x80 number, hlow, hhigh⟩
  have hnext : (⟨scalar, bounds :: owed⟩ : Begun).next (UInt8.ofNat (number + 0x80)) =
      some (if owed = [] then .done (some (highChar (scalar * 0x40 + number)))
        else .more ⟨scalar * 0x40 + number, owed⟩) := by
    unfold Begun.next
    dsimp only
    rw [if_pos hbounds, hnumber, Nat.add_sub_cancel]
  rw [decodeFrom, hnext]
  by_cases hlast : owed = []
  · rw [if_pos hlast, if_pos hlast]
    rfl
  · rw [if_neg hlast, if_neg hlast]
    rfl

theorem start_two {byte : UInt8} (hlow : 0xC2 ≤ byte.toNat) (hhigh : byte.toNat ≤ 0xDF) :
    start byte = .more ⟨byte.toNat - 0xC0, [(0x80, 0xBF)]⟩ := by
  have hbounds : ¬ byte < 0x80 ∧ 0xC2 ≤ byte ∧ byte ≤ 0xDF := by
    simp only [UInt8.lt_iff_toNat_lt, UInt8.le_iff_toNat_le, UInt8.reduceToNat]
    omega
  unfold start
  rw [if_neg hbounds.1, if_pos hbounds.2]

theorem start_three {byte : UInt8} (hlow : 0xE0 ≤ byte.toNat) (hhigh : byte.toNat ≤ 0xEF) :
    start byte = .more ⟨byte.toNat - 0xE0, [(if byte.toNat = 0xE0 then 0xA0 else 0x80,
      if byte.toNat = 0xED then 0x9F else 0xBF), (0x80, 0xBF)]⟩ := by
  have hbounds : ¬ byte < 0x80 ∧ ¬ (0xC2 ≤ byte ∧ byte ≤ 0xDF) ∧ 0xE1 ≤ byte.toNat + 1 := by
    simp only [UInt8.lt_iff_toNat_lt, UInt8.le_iff_toNat_le, UInt8.reduceToNat]
    omega
  unfold start
  rw [if_neg hbounds.1, if_neg hbounds.2.1]
  by_cases hfirst : byte = 0xE0
  · subst hfirst
    rfl
  · by_cases hsurrogate : byte = 0xED
    · subst hsurrogate
      rfl
    · have hnotFirst : byte.toNat ≠ 0xE0 := fun h => hfirst (UInt8.toNat_inj.mp h)
      have hnotSurrogate : byte.toNat ≠ 0xED := fun h => hsurrogate (UInt8.toNat_inj.mp h)
      have hrange : 0xE1 ≤ byte ∧ byte ≤ 0xEF := by
        simp only [UInt8.le_iff_toNat_le, UInt8.reduceToNat]
        omega
      rw [if_neg hfirst, if_neg hsurrogate, if_pos hrange, if_neg hnotFirst, if_neg hnotSurrogate]

theorem start_four {byte : UInt8} (hlow : 0xF0 ≤ byte.toNat) (hhigh : byte.toNat ≤ 0xF4) :
    start byte = .more ⟨byte.toNat - 0xF0, [(if byte.toNat = 0xF0 then 0x90 else 0x80,
      if byte.toNat = 0xF4 then 0x8F else 0xBF), (0x80, 0xBF), (0x80, 0xBF)]⟩ := by
  have hbounds : ¬ byte < 0x80 ∧ ¬ (0xC2 ≤ byte ∧ byte ≤ 0xDF) ∧
      ¬ (0xE1 ≤ byte ∧ byte ≤ 0xEF) := by
    simp only [UInt8.lt_iff_toNat_lt, UInt8.le_iff_toNat_le, UInt8.reduceToNat]
    omega
  have hthree : byte ≠ 0xE0 ∧ byte ≠ 0xED := by
    constructor
    · rintro rfl
      exact absurd hlow (by decide)
    · rintro rfl
      exact absurd hlow (by decide)
  unfold start
  rw [if_neg hbounds.1, if_neg hbounds.2.1, if_neg hthree.1, if_neg hthree.2, if_neg hbounds.2.2]
  by_cases hfirst : byte = 0xF0
  · subst hfirst
    rfl
  · by_cases hlast : byte = 0xF4
    · subst hlast
      rfl
    · have hnotFirst : byte.toNat ≠ 0xF0 := fun h => hfirst (UInt8.toNat_inj.mp h)
      have hnotLast : byte.toNat ≠ 0xF4 := fun h => hlast (UInt8.toNat_inj.mp h)
      have hrange : 0xF1 ≤ byte ∧ byte ≤ 0xF3 := by
        simp only [UInt8.le_iff_toNat_le, UInt8.reduceToNat]
        omega
      rw [if_neg hfirst, if_pos hrange, if_neg hnotFirst, if_neg hnotLast]

/-- An encoded character is decoded, whatever follows it. -/
theorem decodeFrom_utf8EncodeChar (char : Char) (rest : List UInt8) :
    decodeFrom (String.utf8EncodeChar char ++ rest) none = some char :: decodeFrom rest none := by
  have hvalid : char.toNat < 0xD800 ∨ 0xDFFF < char.toNat ∧ char.toNat < 0x110000 := char.valid
  have hval : char.val.toNat = char.toNat := rfl
  unfold String.utf8EncodeChar
  dsimp only
  rw [hval]
  split
  case isTrue hone =>
    have hbyte : (UInt8.ofNat char.toNat).toNat = char.toNat := toNat_ofNat_byte (by omega)
    have hascii : UInt8.ofNat char.toNat < 0x80 := by
      rw [UInt8.lt_iff_toNat_lt, hbyte]
      exact Nat.lt_succ_of_le hone
    rw [List.singleton_append, decodeFrom, start_ascii hascii, hbyte, Char.ofNat_toNat]
    rfl
  case isFalse hone =>
    have hhigh : highChar char.toNat = char := highChar_toNat (by omega)
    split
    case isTrue htwo =>
      have hfirst : (UInt8.ofNat (char.toNat / 64 % 0x20 + 0xC0)).toNat =
          char.toNat / 64 + 0xC0 := by
        rw [toNat_ofNat_byte (by omega)]
        omega
      have hscalar : char.toNat / 64 * 0x40 + char.toNat % 0x40 = char.toNat := by omega
      rw [List.cons_append, List.singleton_append, decodeFrom, start_two (by omega) (by omega),
        hfirst, Nat.add_sub_cancel]
      change decodeFrom _ (some _) = _
      rw [decodeFrom_next (by omega) (by simp) (by simp; omega), if_pos rfl, hscalar, hhigh]
    case isFalse htwo =>
      split
      case isTrue hthree =>
        have hfirst : (UInt8.ofNat (char.toNat / 4096 % 0x10 + 0xE0)).toNat =
            char.toNat / 4096 + 0xE0 := by
          rw [toNat_ofNat_byte (by omega)]
          omega
        have hscalar : (char.toNat / 4096 * 0x40 + char.toNat / 64 % 0x40) * 0x40 +
            char.toNat % 0x40 = char.toNat := by omega
        rw [List.cons_append, List.cons_append, List.singleton_append, decodeFrom,
          start_three (by omega) (by omega), hfirst, Nat.add_sub_cancel]
        change decodeFrom _ (some _) = _
        rw [decodeFrom_next (by omega) (by dsimp only; split <;> simp; omega)
            (by dsimp only; split <;> simp <;> omega),
          if_neg (by simp), decodeFrom_next (by omega) (by simp) (by simp; omega), if_pos rfl,
          hscalar, hhigh]
      case isFalse hthree =>
        have hfirst : (UInt8.ofNat (char.toNat / 262144 % 0x08 + 0xF0)).toNat =
            char.toNat / 262144 + 0xF0 := by
          rw [toNat_ofNat_byte (by omega)]
          omega
        have hscalar : ((char.toNat / 262144 * 0x40 + char.toNat / 4096 % 0x40) * 0x40 +
            char.toNat / 64 % 0x40) * 0x40 + char.toNat % 0x40 = char.toNat := by omega
        rw [List.cons_append, List.cons_append, List.cons_append, List.singleton_append, decodeFrom,
          start_four (by omega) (by omega), hfirst, Nat.add_sub_cancel]
        change decodeFrom _ (some _) = _
        rw [decodeFrom_next (by omega) (by dsimp only; split <;> simp; omega)
            (by dsimp only; split <;> simp <;> omega),
          if_neg (by simp), decodeFrom_next (by omega) (by simp) (by simp; omega), if_neg (by simp),
          decodeFrom_next (by omega) (by simp) (by simp; omega), if_pos rfl, hscalar, hhigh]

/-- An encoded text is decoded to itself. -/
theorem fromUtf8Lossy_encode (text : List Char) :
    fromUtf8Lossy (text.flatMap String.utf8EncodeChar) = text := by
  unfold fromUtf8Lossy
  induction text with
  | nil => rfl
  | cons char rest ih =>
    rw [List.flatMap_cons, decodeFrom_utf8EncodeChar, List.map_cons, ih, Option.getD_some]

/-- The bytes of a text. -/
def encode (text : List Char) : List UInt8 :=
  text.flatMap String.utf8EncodeChar

@[simp] theorem encode_nil : encode [] = [] := rfl

theorem encode_cons (char : Char) (rest : List Char) :
    encode (char :: rest) = String.utf8EncodeChar char ++ encode rest :=
  List.flatMap_cons

theorem encode_append (front back : List Char) :
    encode (front ++ back) = encode front ++ encode back :=
  List.flatMap_append

/-- The bytes of a text are read character by character, whatever follows them. -/
theorem decodeFrom_encode (text : List Char) (rest : List UInt8) :
    decodeFrom (encode text ++ rest) none = text.map some ++ decodeFrom rest none := by
  induction text with
  | nil => rfl
  | cons char text ih =>
    rw [encode_cons, List.append_assoc, decodeFrom_utf8EncodeChar, ih]
    rfl

theorem fromUtf8_encode_append (text : List Char) (rest : List UInt8) :
    fromUtf8 (encode text ++ rest) = (fromUtf8 rest).map (text ++ ·) := by
  unfold fromUtf8
  rw [decodeFrom_encode]
  induction text with
  | nil =>
    rw [List.map_nil, List.nil_append]
    cases List.mapM id (decodeFrom rest none) <;> rfl
  | cons char text ih =>
    rw [List.map_cons, List.cons_append, List.mapM_cons, ih]
    cases List.mapM id (decodeFrom rest none) <;> rfl

theorem fromUtf8_encode (text : List Char) : fromUtf8 (encode text) = some text := by
  have happend := fromUtf8_encode_append text []
  rw [List.append_nil] at happend
  rw [happend]
  simp [fromUtf8, decodeFrom]

theorem encode_eq_nil {text : List Char} : encode text = [] ↔ text = [] := by
  constructor
  · intro h
    have hdecoded := fromUtf8_encode text
    rw [h] at hdecoded
    simpa [fromUtf8, decodeFrom] using hdecoded.symm
  · rintro rfl
    rfl

/-- What is read without a fault ends with a character, so that what follows is read afresh. -/
theorem decodeFrom_append {bytes : List UInt8} {begun : Option Begun} (h : none ∉ decodeFrom bytes begun)
    (rest : List UInt8) :
    decodeFrom (bytes ++ rest) begun = decodeFrom bytes begun ++ decodeFrom rest none := by
  induction bytes generalizing begun with
  | nil =>
    cases begun with
    | none => rfl
    | some begun => exact absurd List.mem_cons_self h
  | cons byte bytes ih =>
    have hthen : ∀ reading : Reading, none ∉ reading.andThen (decodeFrom bytes) →
        reading.andThen (decodeFrom (bytes ++ rest)) =
          reading.andThen (decodeFrom bytes) ++ decodeFrom rest none := by
      intro reading hreading
      cases reading with
      | done char =>
        have hrest := ih fun hmem => hreading (List.mem_cons_of_mem char hmem)
        simp [Reading.andThen, hrest]
      | more begun => exact ih hreading
    cases begun with
    | none => exact hthen (start byte) h
    | some begun =>
      simp only [List.cons_append, decodeFrom] at h ⊢
      cases hnext : begun.next byte with
      | none =>
        rw [hnext] at h
        exact absurd List.mem_cons_self h
      | some reading =>
        rw [hnext] at h
        exact hthen reading h

theorem mapM_id_eq_some {chars : List (Option Char)} {text : List Char} :
    chars.mapM id = some text ↔ chars = text.map some := by
  induction chars generalizing text with
  | nil => cases text <;> simp
  | cons char chars ih =>
    rw [List.mapM_cons]
    cases char with
    | none => cases text <;> simp
    | some char =>
      cases text with
      | nil => cases chars.mapM id <;> simp
      | cons first text =>
        rw [List.map_cons, List.cons.injEq, ← @ih text]
        cases chars.mapM id <;> simp

/-- A front of the bytes of a text that can be read is the bytes of what is read. -/
theorem eq_encode_of_prefix {text read : List Char} {bytes : List UInt8} (hfront : bytes <+: encode text)
    (hread : fromUtf8 bytes = some read) :
    bytes = encode read ∧ read <+: text := by
  have hdecoded : decodeFrom bytes none = read.map some := mapM_id_eq_some.mp hread
  induction text generalizing bytes read with
  | nil =>
    have hnil : bytes = [] := List.prefix_nil.mp hfront
    subst hnil
    have hempty : read = [] := by simpa [decodeFrom] using hdecoded.symm
    exact ⟨by rw [hempty]; rfl, by rw [hempty]⟩
  | cons char text ih =>
    rw [encode_cons] at hfront
    cases List.prefix_or_prefix_of_prefix hfront (List.prefix_append _ (encode text)) with
    | inr hwhole =>
      -- The first character is there whole.
      obtain ⟨rest, rfl⟩ := hwhole
      have hrest : rest <+: encode text := (List.prefix_append_right_inj _).mp hfront
      rw [decodeFrom_utf8EncodeChar] at hdecoded
      cases read with
      | nil => cases hdecoded
      | cons first read =>
        obtain ⟨hchar, hothers⟩ := List.cons.inj hdecoded
        cases hchar
        obtain ⟨hsame, hprefix⟩ := ih hrest (mapM_id_eq_some.mpr hothers) hothers
        refine ⟨by rw [encode_cons, ← hsame], ?_⟩
        exact (List.prefix_cons_inj char).mpr hprefix
    | inl hpart =>
      -- The bytes end in the first character: they are none of it, or all.
      obtain ⟨rest, hchar⟩ := hpart
      have hclear : none ∉ decodeFrom bytes none := by
        rw [hdecoded]
        simp
      have hsplit := decodeFrom_append hclear rest
      have hone := decodeFrom_utf8EncodeChar char []
      rw [List.append_nil, ← hchar, hsplit, hdecoded] at hone
      cases read with
      | nil =>
        have hnil : bytes = [] := by
          have hlossy : fromUtf8Lossy bytes = [] := by rw [fromUtf8Lossy, hdecoded]; rfl
          exact fromUtf8Lossy_eq_nil.mp hlossy
        exact ⟨hnil, List.nil_prefix⟩
      | cons first read =>
        obtain ⟨hfirst, hothers⟩ := List.cons.inj hone
        cases hfirst
        obtain ⟨hread, hrest⟩ := List.append_eq_nil_iff.mp hothers
        have hnone : rest = [] := by
          have hlossy : fromUtf8Lossy rest = [] := by rw [fromUtf8Lossy, hrest]; rfl
          exact fromUtf8Lossy_eq_nil.mp hlossy
        rw [hnone, List.append_nil] at hchar
        have hempty : read = [] := List.map_eq_nil_iff.mp hread
        rw [hempty, encode_cons, encode_nil, List.append_nil, hchar]
        exact ⟨rfl, ⟨text, rfl⟩⟩

end Awman.Utf8Text
