import Mathlib.Tactic.Common

/-!
# Bytes in hexadecimal

A byte is written as two lowercase hexadecimal digits and read back from them.
-/

namespace Awman.HexPairs

/-- A lowercase hexadecimal digit. -/
def isLowerHex (character : Char) : Bool :=
  character.isDigit || ('a' ≤ character && character ≤ 'f')

/-- The two lowercase hexadecimal digits of a byte. -/
def hexPair (byte : UInt8) : List Char :=
  [Nat.digitChar (byte.toNat / 16), Nat.digitChar (byte.toNat % 16)]

/-- The value of a hexadecimal digit. -/
def hexValue (digit : Char) : Option Nat :=
  if digit.isDigit then some (digit.toNat - '0'.toNat)
  else if 'a' ≤ digit ∧ digit ≤ 'f' then some (digit.toNat - 'a'.toNat + 10)
  else if 'A' ≤ digit ∧ digit ≤ 'F' then some (digit.toNat - 'A'.toNat + 10)
  else none

/-- Read a byte from two characters, the first of which may be a plus. -/
def readByte (high low : Char) : Option UInt8 :=
  if high = '+' then (hexValue low).map fun low => UInt8.ofNat low
  else
    match hexValue high, hexValue low with
    | some high, some low => some (UInt8.ofNat (high * 16 + low))
    | _, _ => none

/-- Read bytes from pairs of characters. -/
def readBytes : List Char → Option (List UInt8)
  | [] => some []
  | [_] => none
  | high :: low :: rest =>
    match readByte high low, readBytes rest with
    | some byte, some bytes => some (byte :: bytes)
    | _, _ => none

theorem hexValue_digitChar {number : Nat} (h : number < 16) :
    hexValue (Nat.digitChar number) = some number ∧ Nat.digitChar number ≠ '+' := by
  have hall : ∀ number : Fin 16, hexValue (Nat.digitChar number.val) = some number.val ∧
      Nat.digitChar number.val ≠ '+' := by decide
  exact hall ⟨number, h⟩

theorem readByte_hexPair (byte : UInt8) :
    readByte (Nat.digitChar (byte.toNat / 16)) (Nat.digitChar (byte.toNat % 16)) = some byte := by
  have hbyte : byte.toNat < 256 := byte.toNat_lt
  obtain ⟨hhigh, hsign⟩ := @hexValue_digitChar (byte.toNat / 16) (by omega)
  obtain ⟨hlow, _⟩ := @hexValue_digitChar (byte.toNat % 16) (by omega)
  have hwhole : byte.toNat / 16 * 16 + byte.toNat % 16 = byte.toNat := by omega
  rw [readByte, if_neg hsign, hhigh, hlow]
  dsimp only
  rw [hwhole, UInt8.ofNat_toNat]

theorem readBytes_hexPair (bytes : List UInt8) : readBytes (bytes.flatMap hexPair) = some bytes := by
  induction bytes with
  | nil => rfl
  | cons byte bytes ih =>
    rw [List.flatMap_cons, hexPair, List.cons_append, List.singleton_append, readBytes,
      readByte_hexPair, ih]

theorem length_hexPair (bytes : List UInt8) : (bytes.flatMap hexPair).length = 2 * bytes.length := by
  induction bytes with
  | nil => rfl
  | cons byte bytes ih =>
    rw [List.flatMap_cons, List.length_append, ih, List.length_cons, hexPair]
    simp only [List.length_cons, List.length_nil]
    omega

end Awman.HexPairs
