import Awman.Blanks
import Awman.Library.Checks
import Awman.OverlayGrammar

/-!
# Lists separated by commas outside parentheses

Splitting a list and joining its parts are inverse to each other on parts that leave no parenthesis open
and hold no comma outside parentheses.
-/

namespace Awman.Overlay

open Awman.Network (trim isWhiteSpace)

variable {text front rest part : List Char} {depth after : Nat}

/-- The depth behind a character. -/
def depthStep (depth : Nat) (character : Char) : Nat :=
  if character = '(' then depth + 1 else if character = ')' then depth - 1 else depth

/-- The depth behind a text that begins at a depth, if no comma of it separates. -/
def depthAfter : Nat → List Char → Option Nat
  | depth, [] => some depth
  | depth, character :: rest =>
    if character = ',' ∧ depth = 0 then none else depthAfter (depthStep depth character) rest

/-- Every parenthesis that is open at the beginning or opened later is closed, and no other one. -/
def balanced : Nat → List Char → Bool
  | depth, [] => depth == 0
  | depth, character :: rest =>
    if character = '(' then balanced (depth + 1) rest
    else if character = ')' then
      match depth with
      | 0 => false
      | depth + 1 => balanced depth rest
    else balanced depth rest

/-! ## Splitting and joining -/

theorem splitTopLevelCommas_ne_nil (depth : Nat) (text : List Char) :
    splitTopLevelCommas depth text ≠ [] := by
  cases text with
  | nil => simp [splitTopLevelCommas]
  | cons character rest =>
    rw [splitTopLevelCommas]
    by_cases hcomma : character = ',' ∧ depth = 0
    · rw [if_pos hcomma]
      exact List.cons_ne_nil _ _
    · rw [if_neg hcomma]
      dsimp only
      generalize splitTopLevelCommas _ rest = parts
      cases parts <;> exact List.cons_ne_nil _ _

theorem splitTopLevelCommas_cons {character : Char} (h : ¬ (character = ',' ∧ depth = 0)) :
    splitTopLevelCommas depth (character :: rest) =
      (splitTopLevelCommas (depthStep depth character) rest).modifyHead (character :: ·) := by
  rw [splitTopLevelCommas, if_neg h, depthStep]
  dsimp only
  split
  · rename_i hnil
    exact absurd hnil (splitTopLevelCommas_ne_nil _ _)
  · rename_i part parts hparts
    rw [hparts, List.modifyHead_cons]

/-- A text without separating commas is the beginning of the first part. -/
theorem splitTopLevelCommas_append (h : depthAfter depth front = some after) (rest : List Char) :
    splitTopLevelCommas depth (front ++ rest) =
      (splitTopLevelCommas after rest).modifyHead (front ++ ·) := by
  induction front generalizing depth with
  | nil =>
    rw [depthAfter, Option.some.injEq] at h
    rw [h, List.nil_append]
    cases splitTopLevelCommas after rest with
    | nil | cons => rfl
  | cons character front ih =>
    rw [depthAfter] at h
    by_cases hcomma : character = ',' ∧ depth = 0
    · rw [if_pos hcomma] at h
      cases h
    · rw [if_neg hcomma] at h
      rw [List.cons_append, splitTopLevelCommas_cons hcomma, ih h]
      cases splitTopLevelCommas after rest with
      | nil | cons => rfl

theorem splitTopLevelCommas_self (h : depthAfter 0 part = some 0) :
    splitTopLevelCommas 0 part = [part] := by
  have hsplit := splitTopLevelCommas_append h []
  rw [List.append_nil] at hsplit
  rw [hsplit, splitTopLevelCommas, List.modifyHead_cons, List.append_nil]

/-- Parts that leave no parenthesis open are found again in the list made of them. -/
theorem splitTopLevelCommas_intercalate {parts : List (List Char)} (hparts : parts ≠ [])
    (h : ∀ part ∈ parts, depthAfter 0 part = some 0) :
    splitTopLevelCommas 0 ([','].intercalate parts) = parts := by
  induction parts with
  | nil => exact absurd rfl hparts
  | cons part others ih =>
    have hpart := h part List.mem_cons_self
    cases others with
    | nil => rw [List.intercalate_singleton, splitTopLevelCommas_self hpart]
    | cons second others =>
      have hrest := ih (by simp) fun other hother => h other (List.mem_cons_of_mem _ hother)
      rw [List.intercalate_cons_cons, List.append_assoc, splitTopLevelCommas_append hpart,
        List.singleton_append, splitTopLevelCommas, if_pos ⟨rfl, rfl⟩, hrest, List.modifyHead_cons,
        List.append_nil]

/-- The parts make up the text. -/
theorem intercalate_splitTopLevelCommas (depth : Nat) (text : List Char) :
    [','].intercalate (splitTopLevelCommas depth text) = text := by
  induction text generalizing depth with
  | nil => rfl
  | cons character rest ih =>
    by_cases hcomma : character = ',' ∧ depth = 0
    · rw [splitTopLevelCommas, if_pos hcomma,
        List.intercalate_cons_of_ne_nil (splitTopLevelCommas_ne_nil 0 rest), ih, hcomma.1]
      rfl
    · have hrest := ih (depthStep depth character)
      rw [splitTopLevelCommas_cons hcomma]
      cases hparts : splitTopLevelCommas (depthStep depth character) rest with
      | nil => exact absurd hparts (splitTopLevelCommas_ne_nil _ _)
      | cons part parts =>
        rw [hparts] at hrest
        cases parts with
        | nil =>
          rw [List.intercalate_singleton] at hrest
          rw [List.modifyHead_cons, List.intercalate_singleton, hrest]
        | cons second parts =>
          rw [List.intercalate_cons_cons] at hrest
          rw [List.modifyHead_cons, List.intercalate_cons_cons, List.cons_append, List.cons_append,
            hrest]

/-- A part without an opening parenthesis holds no comma, unless it began inside parentheses. -/
theorem comma_notMem_of_splitTopLevelCommas (depth : Nat) (text : List Char) :
    (∀ first ∈ (splitTopLevelCommas depth text).head?, depth = 0 → '(' ∉ first → ',' ∉ first) ∧
      ∀ part ∈ (splitTopLevelCommas depth text).tail, '(' ∉ part → ',' ∉ part := by
  induction text generalizing depth with
  | nil => simp [splitTopLevelCommas]
  | cons character rest ih =>
    by_cases hcomma : character = ',' ∧ depth = 0
    · obtain ⟨hfirst, htail⟩ := ih 0
      rw [splitTopLevelCommas, if_pos hcomma]
      refine ⟨by simp, fun part hpart hopen => ?_⟩
      rw [List.tail_cons] at hpart
      cases hparts : splitTopLevelCommas 0 rest with
      | nil => exact absurd hparts (splitTopLevelCommas_ne_nil _ _)
      | cons first parts =>
        rw [hparts] at hfirst htail hpart
        rcases List.mem_cons.mp hpart with rfl | hmem
        · exact hfirst part rfl rfl hopen
        · exact htail part hmem hopen
    · obtain ⟨hfirst, htail⟩ := ih (depthStep depth character)
      rw [splitTopLevelCommas_cons hcomma]
      cases hparts : splitTopLevelCommas (depthStep depth character) rest with
      | nil => exact absurd hparts (splitTopLevelCommas_ne_nil _ _)
      | cons first parts =>
        rw [hparts] at hfirst htail
        rw [List.modifyHead_cons]
        refine ⟨fun part hpart hdepth hopen hmem => ?_, htail⟩
        rw [List.head?_cons, Option.mem_def, Option.some.injEq] at hpart
        rw [← hpart, List.mem_cons, not_or] at hopen
        rw [← hpart, List.mem_cons] at hmem
        have hstays : depthStep depth character = 0 := by
          rw [depthStep, if_neg (Ne.symm hopen.1), hdepth]
          split <;> rfl
        rcases hmem with heq | hmem
        · exact hcomma ⟨heq.symm, hdepth⟩
        · exact hfirst first rfl hstays hopen.2 hmem

theorem comma_notMem_of_mem_split (hpart : part ∈ splitTopLevelCommas 0 text) (hopen : '(' ∉ part) :
    ',' ∉ part := by
  obtain ⟨hfirst, htail⟩ := comma_notMem_of_splitTopLevelCommas 0 text
  cases hparts : splitTopLevelCommas 0 text with
  | nil => exact absurd hparts (splitTopLevelCommas_ne_nil _ _)
  | cons first parts =>
    rw [hparts] at hfirst htail hpart
    rcases List.mem_cons.mp hpart with rfl | hmem
    · exact hfirst part rfl rfl hopen
    · exact htail part hmem hopen

/-! ## Texts that close what they open -/

theorem depthAfter_append (depth : Nat) (front rest : List Char) :
    depthAfter depth (front ++ rest) =
      (depthAfter depth front).bind fun after => depthAfter after rest := by
  induction front generalizing depth with
  | nil => rfl
  | cons character front ih =>
    rw [List.cons_append, depthAfter, depthAfter, ih]
    split
    · rfl
    · rfl

/-- A text without an opening parenthesis or a comma stays outside parentheses. -/
theorem depthAfter_plain (hopen : '(' ∉ text) (hcomma : ',' ∉ text) : depthAfter 0 text = some 0 := by
  induction text with
  | nil => rfl
  | cons character rest ih =>
    rw [List.mem_cons, not_or] at hopen hcomma
    have hstays : depthStep 0 character = 0 := by
      rw [depthStep, if_neg (Ne.symm hopen.1)]
      split <;> rfl
    rw [depthAfter, if_neg fun h => hcomma.1 h.1.symm, hstays, ih hopen.2 hcomma.2]

/-- Balanced parentheses lead back to the depth they began at. -/
theorem depthAfter_balanced (h : balanced depth text = true) : depthAfter (depth + 1) text = some 1 := by
  induction text generalizing depth with
  | nil =>
    rw [balanced, beq_iff_eq] at h
    rw [h, depthAfter]
  | cons character rest ih =>
    rw [depthAfter, if_neg (by omega), depthStep]
    unfold balanced at h
    by_cases hopen : character = '('
    · rw [if_pos hopen] at h
      rw [if_pos hopen]
      exact ih h
    · rw [if_neg hopen] at h
      rw [if_neg hopen]
      by_cases hclose : character = ')'
      · rw [if_pos hclose] at h
        rw [if_pos hclose]
        cases depth with
        | zero => cases h
        | succ depth => exact ih h
      · rw [if_neg hclose] at h
        rw [if_neg hclose]
        exact ih h

/-- A text without a comma is one part. -/
theorem splitTopLevelCommas_of_notMem (depth : Nat) (hcomma : ',' ∉ text) :
    splitTopLevelCommas depth text = [text] := by
  induction text generalizing depth with
  | nil => rfl
  | cons character rest ih =>
    rw [List.mem_cons, not_or] at hcomma
    rw [splitTopLevelCommas_cons fun h => hcomma.1 h.1.symm, ih _ hcomma.2]
    rfl

/-! ## Blanks around the parts -/

/-- A text is what trimming leaves of it between blanks. -/
theorem exists_blanks (text : List Char) :
    ∃ front back, text = front ++ (trim text ++ back) ∧
      (∀ character ∈ front, isWhiteSpace character = true) ∧
        ∀ character ∈ back, isWhiteSpace character = true := by
  refine ⟨text.takeWhile isWhiteSpace, (text.dropWhile isWhiteSpace).rtakeWhile isWhiteSpace, ?_,
    fun character hmem => List.mem_takeWhile_imp hmem,
    fun character hmem => List.mem_rtakeWhile_imp hmem⟩
  rw [trim, List.rdropWhile_append_rtakeWhile, List.takeWhile_append_dropWhile]

/-- Blanks neither separate nor open or close parentheses. -/
theorem depthAfter_blanks (h : ∀ character ∈ text, isWhiteSpace character = true) (depth : Nat) :
    depthAfter depth text = some depth := by
  induction text with
  | nil => rfl
  | cons character rest ih =>
    have hblank := h character List.mem_cons_self
    have hcomma : character ≠ ',' := fun heq => absurd (heq ▸ hblank) (by decide)
    have hopen : character ≠ '(' := fun heq => absurd (heq ▸ hblank) (by decide)
    have hclose : character ≠ ')' := fun heq => absurd (heq ▸ hblank) (by decide)
    rw [depthAfter, if_neg fun hand => hcomma hand.1, depthStep, if_neg hopen, if_neg hclose,
      ih fun other hother => h other (List.mem_cons_of_mem _ hother)]

theorem depthAfter_trim (depth : Nat) (text : List Char) :
    depthAfter depth text = depthAfter depth (trim text) := by
  obtain ⟨front, back, htext, hfront, hback⟩ := exists_blanks text
  have hbehind : ∀ after, depthAfter after back = some after := depthAfter_blanks hback
  conv_lhs => rw [htext]
  rw [depthAfter_append, depthAfter_blanks hfront, Option.bind_some, depthAfter_append,
    funext hbehind, Option.bind_fun_some]

/-- What is no blank is found again in the trimmed text. -/
theorem mem_trim_iff {character : Char} (hblank : isWhiteSpace character = false) :
    character ∈ trim text ↔ character ∈ text := by
  refine ⟨Network.mem_of_mem_trim, fun hmem => ?_⟩
  obtain ⟨front, back, htext, hfront, hback⟩ := exists_blanks text
  rw [htext, List.mem_append, List.mem_append] at hmem
  rcases hmem with hmem | hmem | hmem
  · rw [hfront character hmem] at hblank
    cases hblank
  · exact hmem
  · rw [hback character hmem] at hblank
    cases hblank

end Awman.Overlay
