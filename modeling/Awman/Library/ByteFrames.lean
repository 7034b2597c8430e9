import Mathlib.Data.List.Basic
import Mathlib.Algebra.Group.Nat.Defs

/-!
# Byte strings laid one after another

A number of a fixed width and a byte string behind its own length can be read back from the front of a
stream, whatever follows.  A byte string without a zero byte needs no length before it where the stream
ends behind it or goes on with a short framed string: the zero bytes of that length tell them apart.
-/

namespace Awman.ByteFrames

/-- A byte string. -/
abbrev Bytes := List UInt8

/-- The lowest bytes of a number, the lowest first. -/
def littleEndian : ℕ → ℕ → Bytes
  | 0, _ => []
  | width + 1, number => UInt8.ofNat number :: littleEndian width (number / 256)

@[simp]
theorem length_littleEndian (width number : ℕ) : (littleEndian width number).length = width := by
  induction width generalizing number with
  | zero => rfl
  | succ width ih => rw [littleEndian, List.length_cons, ih]

/-- The number that bytes stand for, the lowest first. -/
def ofLittleEndian : Bytes → ℕ
  | [] => 0
  | byte :: bytes => byte.toNat + 256 * ofLittleEndian bytes

theorem ofLittleEndian_littleEndian {width number : ℕ} (h : number < 256 ^ width) :
    ofLittleEndian (littleEndian width number) = number := by
  induction width generalizing number with
  | zero =>
    have hone : 256 ^ 0 = 1 := Nat.pow_zero 256
    rw [littleEndian, ofLittleEndian]
    omega
  | succ width ih =>
    have hpow : 256 ^ (width + 1) = 256 ^ width * 256 := Nat.pow_succ 256 width
    have hhigh := ih (Nat.div_lt_of_lt_mul (show number < 256 * 256 ^ width by omega))
    rw [littleEndian, ofLittleEndian, hhigh, UInt8.toNat_ofNat']
    omega

theorem littleEndian_ofLittleEndian (bytes : Bytes) :
    littleEndian bytes.length (ofLittleEndian bytes) = bytes := by
  induction bytes with
  | nil => rfl
  | cons byte bytes ih =>
    have hlow : UInt8.ofNat (byte.toNat + 256 * ofLittleEndian bytes) = byte := by
      rw [← UInt8.toNat_inj, UInt8.toNat_ofNat']
      have hbyte := byte.toNat_lt
      omega
    have hhigh : (byte.toNat + 256 * ofLittleEndian bytes) / 256 = ofLittleEndian bytes := by
      have hbyte := byte.toNat_lt
      omega
    rw [List.length_cons, littleEndian, ofLittleEndian, hlow, hhigh, ih]

/-- Bytes tell the numbers they have room for apart. -/
theorem littleEndian_inj {width first second : ℕ} (hfirst : first < 256 ^ width)
    (hsecond : second < 256 ^ width) (h : littleEndian width first = littleEndian width second) :
    first = second := by
  rw [← ofLittleEndian_littleEndian hfirst, h, ofLittleEndian_littleEndian hsecond]

/-- A number is read back from the front of a stream. -/
theorem littleEndian_append_inj {width first second : ℕ} {back others : Bytes}
    (hfirst : first < 256 ^ width) (hsecond : second < 256 ^ width)
    (h : littleEndian width first ++ back = littleEndian width second ++ others) :
    first = second ∧ back = others := by
  have hparts := List.append_inj h (by rw [length_littleEndian, length_littleEndian])
  exact ⟨littleEndian_inj hfirst hsecond hparts.1, hparts.2⟩

/-- Nothing but zero bytes stands above a small number. -/
theorem getElem?_littleEndian_zero {width number low index : ℕ} (hnumber : number < 256 ^ low)
    (hlow : low ≤ index) (hindex : index < width) :
    (littleEndian width number)[index]? = some 0 := by
  induction width generalizing number low index with
  | zero => omega
  | succ width ih =>
    cases low with
    | zero =>
      have hone : 256 ^ 0 = 1 := Nat.pow_zero 256
      have hzero : number = 0 := by omega
      subst hzero
      cases index with
      | zero => rfl
      | succ index =>
        rw [littleEndian, List.getElem?_cons_succ]
        exact ih (show 0 / 256 < 256 ^ 0 by decide) (Nat.zero_le index) (by omega)
    | succ low =>
      have hpow : 256 ^ (low + 1) = 256 ^ low * 256 := Nat.pow_succ 256 low
      cases index with
      | zero => omega
      | succ index =>
        have hhigh : number / 256 < 256 ^ low := Nat.div_lt_of_lt_mul (by omega)
        rw [littleEndian, List.getElem?_cons_succ]
        exact ih hhigh (by omega) (by omega)

/-- The bytes behind their length, which takes eight bytes. -/
def frame (contents : Bytes) : Bytes :=
  littleEndian 8 contents.length ++ contents

/-- A framed string is read back from the front of a stream. -/
theorem frame_append_inj {first second back others : Bytes} (hfirst : first.length < 256 ^ 8)
    (hsecond : second.length < 256 ^ 8) (h : frame first ++ back = frame second ++ others) :
    first = second ∧ back = others := by
  rw [frame, frame, List.append_assoc, List.append_assoc] at h
  have hparts := littleEndian_append_inj hfirst hsecond h
  exact List.append_inj hparts.2 hparts.1

/-- No byte of the string is zero. -/
def ZeroFree (bytes : Bytes) : Prop := (0 : UInt8) ∉ bytes

instance (bytes : Bytes) : Decidable (ZeroFree bytes) :=
  inferInstanceAs (Decidable ((0 : UInt8) ∉ bytes))

/-- The stream ends here, or a framed string that is short and has no zero byte comes next. -/
inductive Boundary : Bytes → Prop where
  | done : Boundary []
  | next {contents : Bytes} (back : Bytes) (hne : contents ≠ []) (hzero : ZeroFree contents)
      (hshort : contents.length < 256 ^ 2) : Boundary (frame contents ++ back)

theorem getElem?_frame {contents back : Bytes} {index : ℕ} (hshort : contents.length < 256 ^ 2)
    (hlow : 2 ≤ index) (hindex : index < 8) : (frame contents ++ back)[index]? = some 0 := by
  have hlength : index < (littleEndian 8 contents.length).length := by
    rw [length_littleEndian]
    exact hindex
  rw [frame, List.append_assoc, List.getElem?_append_left hlength]
  exact getElem?_littleEndian_zero hshort hlow hindex

theorem getElem?_frame_first {contents back : Bytes} (hne : contents ≠ []) (hzero : ZeroFree contents) :
    ∃ byte, (frame contents ++ back)[8]? = some byte ∧ byte ≠ 0 := by
  cases contents with
  | nil => exact absurd rfl hne
  | cons byte rest =>
    refine ⟨byte, ?_, fun hbyte => hzero (hbyte ▸ List.mem_cons_self)⟩
    rw [frame, List.append_assoc, List.getElem?_append_right (Nat.le_of_eq (length_littleEndian 8 _)),
      length_littleEndian]
    rfl

/-- A front of a stream at a boundary that has no zero byte has at most two bytes. -/
theorem Boundary.length_le {front back : Bytes} (hfree : ZeroFree front) (h : Boundary (front ++ back)) :
    front.length ≤ 2 := by
  generalize hstream : front ++ back = stream at h
  cases h with
  | done =>
    rw [(List.append_eq_nil_iff.mp hstream).1]
    exact Nat.zero_le 2
  | @next contents rest hne hzero hshort =>
    by_contra hlong
    have hlt : 2 < front.length := by omega
    have hbyte : (frame contents ++ rest)[2]? = some 0 :=
      getElem?_frame hshort (Nat.le_refl 2) (by decide)
    rw [← hstream, List.getElem?_append_left hlt] at hbyte
    exact hfree (List.mem_of_getElem? hbyte)

/-- Where a boundary comes behind a string without zero bytes and where it starts the stream, the
string is empty. -/
theorem Boundary.front_eq_nil {front back : Bytes} (hfree : ZeroFree front) (h : Boundary (front ++ back))
    (hback : Boundary back) : front = [] := by
  have hlength := h.length_le hfree
  by_contra hne
  have hpos := List.length_pos_of_ne_nil hne
  generalize hstream : front ++ back = stream at h
  cases h with
  | done => exact hne (List.append_eq_nil_iff.mp hstream).1
  | @next contents rest hcontents hzero hshort =>
    obtain ⟨byte, hbyte, hnot⟩ := @getElem?_frame_first contents rest hcontents hzero
    rw [← hstream, List.getElem?_append_right (by omega)] at hbyte
    cases hback with
    | done => exact absurd hbyte (by rw [List.getElem?_nil]; exact nofun)
    | next others _ _ hshort' =>
      rw [getElem?_frame hshort' (by omega) (by omega)] at hbyte
      exact hnot (Option.some.inj hbyte).symm

/-- A string without zero bytes is read back from the front of a stream that goes on at a boundary. -/
theorem zeroFree_append_inj {first second back others : Bytes} (hfirst : ZeroFree first)
    (hsecond : ZeroFree second) (hback : Boundary back) (hothers : Boundary others)
    (h : first ++ back = second ++ others) : first = second ∧ back = others := by
  rcases List.append_eq_append_iff.mp h with ⟨rest, hsecond', hback'⟩ | ⟨rest, hfirst', hothers'⟩
  · have hnil : rest = [] := by
      refine Boundary.front_eq_nil ?_ (hback' ▸ hback) hothers
      exact fun hmem => hsecond (hsecond' ▸ List.mem_append_right first hmem)
    rw [hsecond', hback', hnil]
    exact ⟨(List.append_nil first).symm, rfl⟩
  · have hnil : rest = [] := by
      refine Boundary.front_eq_nil ?_ (hothers' ▸ hothers) hback
      exact fun hmem => hfirst (hfirst' ▸ List.mem_append_right second hmem)
    rw [hfirst', hothers', hnil]
    exact ⟨List.append_nil second, rfl⟩

end Awman.ByteFrames
