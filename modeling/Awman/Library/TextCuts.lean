import Mathlib.Data.List.DropRight
import Mathlib.Data.List.Infix
import Mathlib.Algebra.GroupWithZero.Nat

/-!
# Cutting a text

A text is cut at a prefix, at its first or last separator, or at an offset counted in units of which
each of its elements takes some.  Every cut is known by the parts it gives: they make up the text
again, and the part that was searched holds no separator.
-/

namespace Awman.TextCuts

/-- Texts that compare equal are equal. -/
instance lawful_text : LawfulBEq (List Char) :=
  inferInstance

section Separators

variable {α : Type} [DecidableEq α] {separator : α} {mark text front back rest : List α}

/-- What follows the mark in a text that starts with it. -/
def stripPrefix (mark text : List α) : Option (List α) :=
  if mark <+: text then some (text.drop mark.length) else none

/-- What stands in front of the ending in a text that ends with it. -/
def stripSuffix (ending text : List α) : Option (List α) :=
  if ending <:+ text then some (text.take (text.length - ending.length)) else none

/-- The parts of the text around its first separator. -/
def splitOnce (separator : α) : List α → Option (List α × List α)
  | [] => none
  | element :: rest =>
    if element = separator then some ([], rest)
    else (splitOnce separator rest).map fun parts => (element :: parts.1, parts.2)

/-- The parts of the text around its last separator. -/
def rsplitOnce (separator : α) (text : List α) : Option (List α × List α) :=
  (splitOnce separator text.reverse).map fun parts => (parts.2.reverse, parts.1.reverse)

/-- A mark in front comes off again. -/
theorem stripPrefix_append (mark rest : List α) : stripPrefix mark (mark ++ rest) = some rest := by
  have hstarts : mark <+: mark ++ rest := List.prefix_append mark rest
  rw [stripPrefix, if_pos hstarts, List.drop_left]

theorem stripPrefix_eq_some : stripPrefix mark text = some rest ↔ text = mark ++ rest := by
  constructor
  · intro h
    unfold stripPrefix at h
    split at h
    · rename_i hstarts
      have hrest : text.drop mark.length = rest := Option.some.inj h
      rw [← hrest, List.prefix_iff_eq_append.mp hstarts]
    · cases h
  · intro h
    rw [h, stripPrefix_append]

theorem stripSuffix_eq_some {ending : List α} :
    stripSuffix ending text = some front ↔ text = front ++ ending := by
  unfold stripSuffix
  constructor
  · intro h
    split at h
    · rename_i hends
      obtain ⟨start, rfl⟩ := hends
      simp only [List.length_append, Nat.add_sub_cancel, List.take_left, Option.some.injEq] at h
      rw [h]
    · cases h
  · rintro rfl
    simp

/-- Nothing comes off a text that lacks the mark. -/
theorem stripPrefix_eq_none : stripPrefix mark text = none ↔ ¬ mark <+: text := by
  unfold stripPrefix
  split
  · rename_i hstarts
    simp [hstarts]
  · rename_i hstarts
    simp [hstarts]

/-- The split is at the first separator. -/
theorem splitOnce_append (h : separator ∉ front) (back : List α) :
    splitOnce separator (front ++ separator :: back) = some (front, back) := by
  induction front with
  | nil => simp [splitOnce]
  | cons element rest ih =>
    have hne : element ≠ separator := fun heq => h (heq ▸ List.mem_cons_self)
    have hrest : separator ∉ rest := fun hmem => h (List.mem_cons_of_mem _ hmem)
    have hsplit := ih hrest
    rw [List.cons_append, splitOnce, if_neg hne, hsplit]
    rfl

/-- Only a text without the separator is not split. -/
theorem splitOnce_eq_none : splitOnce separator text = none ↔ separator ∉ text := by
  induction text with
  | nil => simp [splitOnce]
  | cons element rest ih =>
    by_cases heq : element = separator
    · simp [splitOnce, heq]
    · have hne : separator ≠ element := fun h => heq h.symm
      simp [splitOnce, heq, hne, ih]

theorem splitOnce_eq_some :
    splitOnce separator text = some (front, back) ↔
      text = front ++ separator :: back ∧ separator ∉ front := by
  constructor
  · intro h
    induction text generalizing front with
    | nil => cases h
    | cons element rest ih =>
      rw [splitOnce] at h
      split at h
      · rename_i heq
        have hparts := Prod.mk.inj (Option.some.inj h)
        rw [← hparts.1, ← hparts.2, heq]
        exact ⟨rfl, List.not_mem_nil⟩
      · rename_i hne
        obtain ⟨parts, hparts, hfront⟩ := Option.map_eq_some_iff.mp h
        have heq := Prod.mk.inj hfront
        have hrest := @ih parts.1 (by rw [hparts, ← heq.2])
        rw [← heq.1, hrest.1]
        have hnotmem : separator ∉ element :: parts.1 := by
          intro hmem
          cases List.mem_cons.mp hmem with
          | inl h => exact hne h.symm
          | inr h => exact hrest.2 h
        exact ⟨rfl, hnotmem⟩
  · intro h
    rw [h.1, splitOnce_append h.2]

/-- The split is at the last separator. -/
theorem rsplitOnce_append (front : List α) (h : separator ∉ back) :
    rsplitOnce separator (front ++ separator :: back) = some (front, back) := by
  have hnot : separator ∉ back.reverse := fun hmem => h (List.mem_reverse.mp hmem)
  have hsplit := splitOnce_append hnot front.reverse
  have hreverse : (front ++ separator :: back).reverse =
      back.reverse ++ separator :: front.reverse := by simp
  rw [rsplitOnce, hreverse, hsplit]
  simp

theorem rsplitOnce_eq_none : rsplitOnce separator text = none ↔ separator ∉ text := by
  rw [rsplitOnce, Option.map_eq_none_iff, splitOnce_eq_none, List.mem_reverse]

theorem rsplitOnce_eq_some :
    rsplitOnce separator text = some (front, back) ↔
      text = front ++ separator :: back ∧ separator ∉ back := by
  constructor
  · intro h
    obtain ⟨parts, hparts, heq⟩ := Option.map_eq_some_iff.mp h
    have hsplit := splitOnce_eq_some.mp hparts
    have hends := Prod.mk.inj heq
    have htext : text = (parts.1 ++ separator :: parts.2).reverse := by
      rw [← hsplit.1, List.reverse_reverse]
    have hnot : separator ∉ back := by
      rw [← hends.2]
      exact fun hmem => hsplit.2 (List.mem_reverse.mp hmem)
    refine ⟨?_, hnot⟩
    rw [htext, ← hends.1, ← hends.2]
    simp
  · intro h
    rw [h.1, rsplitOnce_append front h.2]

/-- An element that is no separator stands in one of the parts. -/
theorem exists_mem_splitOn {element : α} (h : element ∈ text) (hne : element ≠ separator) :
    ∃ part ∈ text.splitOn separator, element ∈ part := by
  induction text with
  | nil => cases h
  | cons first rest ih =>
    rw [List.splitOn_cons_eq_if_modifyHead]
    cases List.mem_cons.mp h with
    | inl heq =>
      have hfirst : ¬ (first == separator) = true := by
        rw [beq_iff_eq, ← heq]
        exact hne
      rw [if_neg hfirst]
      cases hparts : rest.splitOn separator with
      | nil => exact absurd hparts (List.splitOn_ne_nil separator rest)
      | cons head others =>
        rw [List.modifyHead_cons, heq]
        exact ⟨first :: head, List.mem_cons_self, List.mem_cons_self⟩
    | inr hrest =>
      obtain ⟨part, hpart, hmem⟩ := ih hrest
      split
      · exact ⟨part, List.mem_cons_of_mem _ hpart, hmem⟩
      · cases hparts : rest.splitOn separator with
        | nil => exact absurd hparts (List.splitOn_ne_nil separator rest)
        | cons head others =>
          rw [hparts] at hpart
          rw [List.modifyHead_cons]
          cases List.mem_cons.mp hpart with
          | inl heq =>
            rw [heq] at hmem
            exact ⟨first :: head, List.mem_cons_self, List.mem_cons_of_mem _ hmem⟩
          | inr hothers => exact ⟨part, List.mem_cons_of_mem _ hothers, hmem⟩

end Separators

section Offsets

variable {α : Type} {width : α → Nat} {text front back : List α} {offset : Nat}

/-- The units a text takes. -/
def units (width : α → Nat) (text : List α) : Nat := (text.map width).sum

/-- The length of a text in bytes. -/
def byteLength (text : List Char) : Nat := units Char.utf8Size text

@[simp]
theorem units_nil : units width [] = 0 := rfl

@[simp]
theorem units_cons (element : α) (rest : List α) :
    units width (element :: rest) = width element + units width rest := by
  simp [units]

/-- Widths add up over an append. -/
@[simp]
theorem units_append (front back : List α) :
    units width (front ++ back) = units width front + units width back := by
  simp [units]

/-- The parts of the text before and after the offset, none if it lies inside an element or beyond
the end. -/
def cutAt (width : α → Nat) : List α → Nat → Option (List α × List α)
  | text, 0 => some ([], text)
  | [], _ + 1 => none
  | element :: rest, offset + 1 =>
    if width element ≤ offset + 1 then
      (cutAt width rest (offset + 1 - width element)).map fun parts =>
        (element :: parts.1, parts.2)
    else none

/-- A cut is made exactly between two elements. -/
theorem cutAt_eq_some (hwidth : ∀ element, 0 < width element) :
    cutAt width text offset = some (front, back) ↔ text = front ++ back ∧ units width front = offset := by
  induction text generalizing front offset with
  | nil =>
    cases offset with
    | zero =>
      constructor
      · intro h
        have hparts := Prod.mk.inj (Option.some.inj h)
        rw [← hparts.1, ← hparts.2]
        exact ⟨rfl, rfl⟩
      · intro h
        obtain ⟨hfront, hback⟩ := List.append_eq_nil_iff.mp h.1.symm
        rw [hfront, hback]
        rfl
    | succ offset =>
      constructor
      · intro h
        cases h
      · intro h
        obtain ⟨hfront, -⟩ := List.append_eq_nil_iff.mp h.1.symm
        have hunits := h.2
        rw [hfront, units_nil] at hunits
        omega
  | cons element rest ih =>
    have hpos := hwidth element
    cases offset with
    | zero =>
      constructor
      · intro h
        have hparts := Prod.mk.inj (Option.some.inj h)
        rw [← hparts.1, ← hparts.2]
        exact ⟨rfl, rfl⟩
      · intro h
        cases front with
        | nil =>
          have hback : element :: rest = back := h.1
          rw [← hback]
          rfl
        | cons first others =>
          have hfirst := hwidth first
          have hunits := h.2
          rw [units_cons] at hunits
          omega
    | succ offset =>
      constructor
      · intro h
        rw [cutAt] at h
        split at h
        · rename_i hfits
          obtain ⟨parts, hparts, heq⟩ := Option.map_eq_some_iff.mp h
          have hends := Prod.mk.inj heq
          have hrest := (@ih parts.1 _).mp (by rw [hparts, ← hends.2])
          rw [← hends.1, units_cons, hrest.2, hrest.1]
          exact ⟨rfl, by omega⟩
        · cases h
      · intro h
        cases front with
        | nil =>
          have hunits := h.2
          rw [units_nil] at hunits
          omega
        | cons first others =>
          obtain ⟨hfirst, hothers⟩ := List.cons.inj h.1
          have hunits := h.2
          rw [units_cons, ← hfirst] at hunits
          have hfits : width element ≤ offset + 1 := by omega
          have hcut := (@ih others (offset + 1 - width element)).mpr
            ⟨hothers, by omega⟩
          rw [cutAt, if_pos hfits, hcut, hfirst]
          rfl

/-- A cut fails exactly inside an element or past the end. -/
theorem cutAt_eq_none (hwidth : ∀ element, 0 < width element) :
    cutAt width text offset = none ↔
      ∀ front back, text = front ++ back → units width front ≠ offset := by
  cases hcut : cutAt width text offset with
  | none =>
    have hno : ∀ front back, text = front ++ back → units width front ≠ offset := by
      intro front back htext hunits
      have hsome := (cutAt_eq_some hwidth).mpr ⟨htext, hunits⟩
      rw [hcut] at hsome
      cases hsome
    exact ⟨fun _ => hno, fun _ => rfl⟩
  | some parts =>
    have hparts := (@cutAt_eq_some α width text parts.1 parts.2 offset hwidth).mp hcut
    constructor
    · intro h
      cases h
    · intro h
      exact absurd hparts.2 (h parts.1 parts.2 hparts.1)

end Offsets

end Awman.TextCuts
