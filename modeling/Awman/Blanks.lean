import Awman.NetworkConfig

/-!
# White space around texts

A text is trimmed when it neither begins nor ends with white space.  Trimming gives such a text and
leaves one as it is.
-/

namespace Awman.Network

/-- The text neither begins nor ends with white space. -/
def Trimmed (text : List Char) : Prop :=
  (∀ character ∈ text.head?, isWhiteSpace character = false) ∧
    ∀ character ∈ text.getLast?, isWhiteSpace character = false

variable {text : List Char} {character : Char}

theorem Trimmed.trim_eq (htrimmed : Trimmed text) : trim text = text := by
  unfold trim
  have hfront : text.dropWhile isWhiteSpace = text := by
    cases text with
    | nil => rfl
    | cons first rest =>
      have hfirst := htrimmed.1 first rfl
      rw [List.dropWhile_cons_of_neg (by simp [hfirst])]
  rw [hfront, List.rdropWhile_eq_self_iff]
  intro hnonempty
  have hlast := htrimmed.2 _ (List.getLast?_eq_getLast_of_ne_nil hnonempty)
  simp [hlast]

theorem trimmed_trim (text : List Char) : Trimmed (trim text) := by
  unfold trim
  constructor
  · intro character hhead
    obtain ⟨rest, hrest⟩ : (text.dropWhile isWhiteSpace).rdropWhile isWhiteSpace <+:
        text.dropWhile isWhiteSpace := List.rdropWhile_prefix isWhiteSpace _
    have hsame : (text.dropWhile isWhiteSpace).head? = some character := by
      rw [← hrest, List.head?_append, hhead]
      rfl
    have hnot := List.head?_dropWhile_not isWhiteSpace text
    rw [hsame] at hnot
    exact hnot
  · intro character hlast
    have hnonempty : (text.dropWhile isWhiteSpace).rdropWhile isWhiteSpace ≠ [] := by
      intro hempty
      rw [hempty] at hlast
      cases hlast
    have hnot := List.rdropWhile_last_not isWhiteSpace _ hnonempty
    rw [Option.mem_def, List.getLast?_eq_getLast_of_ne_nil hnonempty, Option.some.injEq] at hlast
    rw [← hlast]
    simpa using hnot

theorem mem_of_mem_trim (hmem : character ∈ trim text) : character ∈ text := by
  have hfront := (List.rdropWhile_prefix isWhiteSpace _).subset hmem
  exact (List.dropWhile_sublist isWhiteSpace).subset hfront

theorem trim_trim (text : List Char) : trim (trim text) = trim text := (trimmed_trim text).trim_eq

/-- A blank behind a text is trimmed away. -/
theorem Trimmed.trim_append_blank (htrimmed : Trimmed text) : trim (text ++ [' ']) = text := by
  unfold trim
  cases text with
  | nil => decide
  | cons first rest =>
    have hfirst := htrimmed.1 first rfl
    have htext := htrimmed.trim_eq
    rw [List.cons_append, List.dropWhile_cons_of_neg (by simp [hfirst]), ← List.cons_append,
      List.rdropWhile_concat_pos isWhiteSpace _ _ (by decide)]
    rw [trim, List.dropWhile_cons_of_neg (by simp [hfirst])] at htext
    exact htext

/-- A text without white space is trimmed. -/
theorem trimmed_of_forall (hall : ∀ character ∈ text, isWhiteSpace character = false) :
    Trimmed text :=
  ⟨fun character hhead => hall character (List.mem_of_mem_head? hhead),
    fun character hlast => hall character (List.mem_of_mem_getLast? hlast)⟩

/-- A visible ASCII character is no white space. -/
theorem not_isWhiteSpace (hrange : 33 ≤ character.toNat ∧ character.toNat ≤ 126) :
    isWhiteSpace character = false := by
  unfold isWhiteSpace
  simp
  omega

theorem isAlpha_eq : character.isAlpha = (character.isUpper || character.isLower) :=
  rfl

theorem isUpper_eq : character.isUpper = decide (65 ≤ character.val ∧ character.val ≤ 90) :=
  rfl

theorem isLower_eq :
    character.isLower = (decide (97 ≤ character.val) && decide (character.val ≤ 122)) :=
  rfl

theorem isAlphanum_range (halphanum : character.isAlphanum = true) :
    48 ≤ character.toNat ∧ character.toNat ≤ 57 ∨ 65 ≤ character.toNat ∧ character.toNat ≤ 90 ∨
      97 ≤ character.toNat ∧ character.toNat ≤ 122 := by
  have hval : character.toNat = character.val.toNat := rfl
  simp only [Char.isAlphanum, isAlpha_eq, isUpper_eq, isLower_eq, Char.isDigit, Bool.or_eq_true,
    Bool.and_eq_true, decide_eq_true_eq, ge_iff_le, UInt32.le_iff_toNat_le] at halphanum
  simp at halphanum
  omega

end Awman.Network
