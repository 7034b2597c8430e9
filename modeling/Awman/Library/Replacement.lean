import Mathlib.Data.List.Infix

/-!
# Replacing a pattern in a text

Every occurrence of a pattern is replaced by a mark, from the left and without overlaps.  What is
between the marks is text that holds no occurrence, and a pattern that keeps clear of the mark cannot
come up across one.
-/

namespace Awman.Replacement

variable {α : Type} [DecidableEq α] {pattern mark text front back rest result : List α} {first : α}

/-- Replace the pattern; the next `skip` elements belong to an occurrence that was replaced. -/
def replaceFrom (pattern mark : List α) : Nat → List α → List α
  | _, [] => []
  | skip + 1, _ :: rest => replaceFrom pattern mark skip rest
  | 0, first :: rest =>
    if pattern <+: first :: rest then
      mark ++ replaceFrom pattern mark (pattern.length - 1) rest
    else first :: replaceFrom pattern mark 0 rest

/-- Replace every occurrence of the pattern by the mark, from the left and without overlaps. -/
def replaceAll (pattern mark text : List α) : List α := replaceFrom pattern mark 0 text

theorem replaceFrom_append (front back : List α) :
    replaceFrom pattern mark front.length (front ++ back) = replaceAll pattern mark back := by
  induction front with
  | nil =>
    rw [List.nil_append, List.length_nil]
    rfl
  | cons first rest ih =>
    rw [List.cons_append, List.length_cons, replaceFrom]
    exact ih

@[simp] theorem replaceAll_nil : replaceAll pattern mark [] = [] := rfl

theorem replaceAll_cons (h : ¬ pattern <+: first :: rest) :
    replaceAll pattern mark (first :: rest) = first :: replaceAll pattern mark rest := by
  rw [replaceAll, replaceFrom, if_neg h]
  rfl

/-- An occurrence in front is replaced. -/
theorem replaceAll_append_pattern (hne : pattern ≠ []) (rest : List α) :
    replaceAll pattern mark (pattern ++ rest) = mark ++ replaceAll pattern mark rest := by
  cases pattern with
  | nil => exact absurd rfl hne
  | cons first others =>
    rw [replaceAll, List.cons_append, replaceFrom]
    rw [if_pos (by rw [← List.cons_append]; exact List.prefix_append _ _), List.length_cons,
      Nat.add_sub_cancel, replaceFrom_append]

/-- A text in which no occurrence starts is passed over. -/
theorem replaceAll_append (front : List α)
    (h : ∀ before after, front = before ++ after → after ≠ [] → ¬ pattern <+: after ++ back) :
    replaceAll pattern mark (front ++ back) = front ++ replaceAll pattern mark back := by
  induction front with
  | nil => rfl
  | cons first rest ih =>
    have hhere := h [] (first :: rest) rfl (List.cons_ne_nil _ _)
    rw [List.cons_append] at hhere
    rw [List.cons_append, replaceAll_cons hhere, List.cons_append, ih]
    intro before after hrest hafter
    exact h (first :: before) after (by rw [hrest]; rfl) hafter

/-- A text without an occurrence stays as it is. -/
theorem replaceAll_eq_self (h : ¬ pattern <:+: text) : replaceAll pattern mark text = text := by
  have happend : replaceAll pattern mark (text ++ []) = text ++ replaceAll pattern mark [] := by
    apply replaceAll_append text
    intro before after htext hafter hstarts
    rw [List.append_nil] at hstarts
    rw [htext] at h
    exact h (hstarts.isInfix.trans (List.suffix_append _ _).isInfix)
  rw [List.append_nil] at happend
  rw [happend, replaceAll_nil, List.append_nil]

omit [DecidableEq α] in
/-- An occurrence in a text has one that starts first. -/
theorem exists_first (h : pattern <:+: text) :
    ∃ front back, text = front ++ (pattern ++ back) ∧
      ∀ before after, front = before ++ after → after ≠ [] →
        ¬ pattern <+: after ++ (pattern ++ back) := by
  induction text with
  | nil =>
    have hempty := List.infix_nil.mp h
    refine ⟨[], [], by rw [hempty]; rfl, ?_⟩
    intro before after hnil hafter
    exact absurd (List.append_eq_nil_iff.mp hnil.symm).2 hafter
  | cons first rest ih =>
    by_cases hstarts : pattern <+: first :: rest
    · obtain ⟨back, hback⟩ := hstarts
      refine ⟨[], back, hback.symm, ?_⟩
      intro before after hnil hafter
      exact absurd (List.append_eq_nil_iff.mp hnil.symm).2 hafter
    · have hrest : pattern <:+: rest := (List.infix_cons_iff.mp h).resolve_left hstarts
      obtain ⟨front, back, htext, hnone⟩ := ih hrest
      refine ⟨first :: front, back, by rw [htext]; rfl, ?_⟩
      intro before after hfront hafter
      cases before with
      | nil =>
        rw [List.nil_append] at hfront
        rw [← hfront, List.cons_append, ← htext]
        exact hstarts
      | cons head others =>
        rw [List.cons_append, List.cons.injEq] at hfront
        exact hnone others after hfront.2 hafter

/-- The text with its occurrences replaced, from the left. -/
inductive Replaced (pattern mark : List α) : List α → List α → Prop where
  | none {text : List α} (h : ¬ pattern <:+: text) : Replaced pattern mark text text
  | cut {front back result : List α} (hfront : ¬ pattern <:+: front)
      (rest : Replaced pattern mark back result) :
      Replaced pattern mark (front ++ pattern ++ back) (front ++ mark ++ result)

omit [DecidableEq α] in
/-- An element in front of a text takes part in a replaced occurrence or goes before what is left
of the first one. -/
theorem Replaced.cons (h : ¬ pattern <+: first :: text) (replaced : Replaced pattern mark text result) :
    Replaced pattern mark (first :: text) (first :: result) := by
  cases replaced with
  | none hnone =>
    refine .none ?_
    intro hinside
    cases List.infix_cons_iff.mp hinside with
    | inl hstarts => exact h hstarts
    | inr htail => exact hnone htail
  | cut hfront rest =>
    rename_i front back result
    rw [← List.cons_append, ← List.cons_append, ← List.cons_append, ← List.cons_append]
    refine .cut ?_ rest
    intro hinside
    cases List.infix_cons_iff.mp hinside with
    | inl hstarts =>
      refine h (hstarts.trans ?_)
      rw [List.append_assoc, ← List.cons_append]
      exact List.prefix_append _ _
    | inr htail => exact hfront htail

theorem replaceAll_replaced (hne : pattern ≠ []) (text : List α) :
    Replaced pattern mark text (replaceAll pattern mark text) := by
  induction hlength : text.length using Nat.strong_induction_on generalizing text with
  | h length ih =>
    by_cases hstarts : pattern <+: text
    · obtain ⟨rest, hrest⟩ := hstarts
      have hshorter : rest.length < length := by
        have hpositive := List.length_pos_iff.mpr hne
        rw [← hlength, ← hrest, List.length_append]
        omega
      have hempty : ¬ pattern <:+: [] := by simpa using hne
      have hreplaced : Replaced pattern mark ([] ++ pattern ++ rest)
          ([] ++ mark ++ replaceAll pattern mark rest) :=
        .cut hempty (ih rest.length hshorter rest rfl)
      rw [← hrest, replaceAll_append_pattern hne]
      exact hreplaced
    · cases text with
      | nil => exact .none (by simpa using hne)
      | cons first rest =>
        rw [List.length_cons] at hlength
        rw [replaceAll_cons hstarts]
        exact (ih rest.length (by omega) rest rfl).cons hstarts

/-! ## Patterns that keep clear of the mark -/

/-- The pattern begins and ends outside the mark and does not contain it. -/
structure Clear (mark pattern : List α) : Prop where
  head : ∀ element ∈ pattern.head?, element ∉ mark
  last : ∀ element ∈ pattern.getLast?, element ∉ mark
  contains : ¬ mark <:+: pattern

section Clearness

variable {other : List α}

omit [DecidableEq α] in
/-- A pattern that keeps clear of the mark occurs on one side of it. -/
theorem Clear.infix_or (clear : Clear mark pattern) (hne : pattern ≠ [])
    (h : pattern <:+: front ++ mark ++ back) : pattern <:+: front ∨ pattern <:+: back := by
  obtain ⟨before, after, htext⟩ := h
  rw [List.append_assoc front, List.append_eq_append_iff] at htext
  cases htext with
  | inl hfront =>
    obtain ⟨middle, hmiddle, -⟩ := hfront
    exact Or.inl ⟨before, middle, hmiddle.symm⟩
  | inr hcut =>
    obtain ⟨middle, hmiddle, hmark⟩ := hcut
    cases List.append_eq_append_iff.mp hmiddle with
    | inl hbefore =>
      -- The pattern ends behind the front and starts in it.
      obtain ⟨start, hstart, hpattern⟩ := hbefore
      by_cases hempty : middle = []
      · rw [hempty, List.append_nil] at hpattern
        exact Or.inl ⟨before, [], by rw [List.append_nil, hpattern, hstart]⟩
      · have hlast := List.getLast?_eq_some_getLast hempty
        have hend : pattern.getLast? = some (middle.getLast hempty) := by
          rw [hpattern, List.getLast?_append_of_ne_nil _ hempty, hlast]
        have hnot := clear.last _ hend
        cases List.append_eq_append_iff.mp hmark with
        | inl hlonger =>
          obtain ⟨beyond, hbeyond, -⟩ := hlonger
          refine absurd ⟨start, beyond, ?_⟩ clear.contains
          rw [hpattern, hbeyond, List.append_assoc]
        | inr hshorter =>
          obtain ⟨beyond, hbeyond, -⟩ := hshorter
          refine absurd ?_ hnot
          rw [hbeyond]
          exact List.mem_append_left _ (List.getLast_mem hempty)
    | inr hafter =>
      -- The pattern starts behind the front.
      obtain ⟨start, hstart, hpattern⟩ := hafter
      rw [hpattern, List.append_assoc] at hmark
      cases List.append_eq_append_iff.mp hmark with
      | inl hlonger =>
        obtain ⟨beyond, hbeyond, hrest⟩ := hlonger
        exact Or.inr ⟨beyond, after, by rw [hrest, List.append_assoc]⟩
      | inr hshorter =>
        obtain ⟨beyond, hbeyond, hrest⟩ := hshorter
        cases beyond with
        | nil =>
          rw [List.nil_append] at hrest
          exact Or.inr ⟨[], after, by rw [List.nil_append, ← hrest]⟩
        | cons first others =>
          cases pattern with
          | nil => exact absurd rfl hne
          | cons head tail =>
            rw [List.cons_append, List.cons_append, List.cons.injEq] at hrest
            refine absurd ?_ (clear.head head rfl)
            rw [hbeyond, hrest.1]
            simp

omit [DecidableEq α] in
/-- What keeps clear of the mark and does not occur in a text does not occur behind a
replacement. -/
theorem Replaced.not_infix (replaced : Replaced pattern mark text result) (clear : Clear mark other)
    (hne : other ≠ []) (h : ¬ other <:+: text) : ¬ other <:+: result := by
  induction replaced with
  | none hnone => exact h
  | cut hfront rest ih =>
    rename_i front back result
    intro hinside
    cases clear.infix_or hne hinside with
    | inl hin =>
      refine h (hin.trans ?_)
      rw [List.append_assoc]
      exact (List.prefix_append _ _).isInfix
    | inr hin => exact ih (fun hback => h (hback.trans (List.suffix_append _ _).isInfix)) hin

omit [DecidableEq α] in
/-- A pattern that keeps clear of the mark is gone once it is replaced. -/
theorem Replaced.gone (replaced : Replaced pattern mark text result) (clear : Clear mark pattern)
    (hne : pattern ≠ []) : ¬ pattern <:+: result := by
  induction replaced with
  | none hnone => exact hnone
  | cut hfront rest ih =>
    intro hinside
    cases clear.infix_or hne hinside with
    | inl hin => exact hfront hin
    | inr hin => exact ih hin

/-- Replace one pattern after the other. -/
def replaceEach (mark : List α) (patterns : List (List α)) (text : List α) : List α :=
  patterns.foldl (fun out pattern => replaceAll pattern mark out) text

variable {patterns : List (List α)}

theorem replaceEach_not_infix (hpatterns : ∀ pattern ∈ patterns, pattern ≠ []) (clear : Clear mark other)
    (hne : other ≠ []) (h : ¬ other <:+: text) :
    ¬ other <:+: replaceEach mark patterns text := by
  induction patterns generalizing text with
  | nil => exact h
  | cons pattern rest ih =>
    have hpattern := hpatterns pattern (List.mem_cons_self ..)
    have hreplaced : Replaced pattern mark text (replaceAll pattern mark text) :=
      replaceAll_replaced hpattern text
    have hnext := hreplaced.not_infix clear hne h
    exact ih (fun later hlater => hpatterns later (List.mem_cons_of_mem _ hlater)) hnext

/-- Patterns that keep clear of the mark are gone once each of them is replaced, in any order. -/
theorem replaceEach_gone (hpatterns : ∀ pattern ∈ patterns, pattern ≠ [])
    (clear : ∀ pattern ∈ patterns, Clear mark pattern) :
    ∀ pattern ∈ patterns, ¬ pattern <:+: replaceEach mark patterns text := by
  induction patterns generalizing text with
  | nil => simp
  | cons pattern rest ih =>
    have hlater : ∀ later ∈ rest, later ≠ [] :=
      fun later hmem => hpatterns later (List.mem_cons_of_mem _ hmem)
    have hpattern := hpatterns pattern (List.mem_cons_self ..)
    have hclear := clear pattern (List.mem_cons_self ..)
    intro other hother
    cases List.mem_cons.mp hother with
    | inl heq =>
      rw [heq]
      have hreplaced : Replaced pattern mark text (replaceAll pattern mark text) :=
        replaceAll_replaced hpattern text
      have hgone := hreplaced.gone hclear hpattern
      rw [replaceEach, List.foldl_cons]
      exact replaceEach_not_infix hlater hclear hpattern hgone
    | inr hmem =>
      exact ih hlater (fun later hmem => clear later (List.mem_cons_of_mem _ hmem)) other hmem

theorem replaceEach_eq_self (h : ∀ pattern ∈ patterns, ¬ pattern <:+: text) :
    replaceEach mark patterns text = text := by
  induction patterns with
  | nil => rfl
  | cons pattern rest ih =>
    rw [replaceEach, List.foldl_cons, replaceAll_eq_self (h pattern (List.mem_cons_self ..))]
    exact ih fun later hmem => h later (List.mem_cons_of_mem _ hmem)

end Clearness

/-! ## Texts under a code -/

/-- A code in which no word starts with an inner element of another one and none is the beginning of
another one. -/
structure Synchronizing {β : Type} (code : α → List β) : Prop where
  ne_nil : ∀ element, code element ≠ []
  inner : ∀ element other, ∀ unit ∈ (code element).tail, (code other).head? ≠ some unit
  unique : ∀ element other front back, code element ++ front = code other ++ back → element = other

section Codes

variable {β : Type} [DecidableEq β] {code : α → List β}

omit [DecidableEq α] [DecidableEq β] in
theorem Synchronizing.flatMap_ne_nil (sync : Synchronizing code) (hne : pattern ≠ []) :
    pattern.flatMap code ≠ [] := by
  cases pattern with
  | nil => exact absurd rfl hne
  | cons first rest =>
    rw [List.flatMap_cons]
    exact List.append_ne_nil_of_left_ne_nil (sync.ne_nil first) _

omit [DecidableEq α] [DecidableEq β] in
/-- An encoded pattern is in front of an encoded text exactly when the pattern is in front of the
text. -/
theorem Synchronizing.prefix_iff (sync : Synchronizing code) :
    pattern.flatMap code <+: text.flatMap code ↔ pattern <+: text := by
  induction pattern generalizing text with
  | nil => simp
  | cons first others ih =>
    cases text with
    | nil =>
      constructor
      · intro h
        have hnil := List.prefix_nil.mp h
        exact absurd hnil (sync.flatMap_ne_nil (List.cons_ne_nil _ _))
      · intro h
        exact absurd (List.prefix_nil.mp h) (List.cons_ne_nil _ _)
    | cons head tail =>
      rw [List.flatMap_cons, List.flatMap_cons, List.cons_prefix_cons]
      constructor
      · intro h
        obtain ⟨rest, hrest⟩ := h
        rw [List.append_assoc] at hrest
        have hsame := sync.unique first head _ _ hrest
        rw [hsame, List.append_cancel_left_eq] at hrest
        exact ⟨hsame, ih.mp ⟨rest, hrest⟩⟩
      · intro h
        rw [h.1]
        exact (List.prefix_append_right_inj _).mpr (ih.mpr h.2)

/-- Replacing in an encoded text is replacing in the text. -/
theorem Synchronizing.replaceAll_flatMap (sync : Synchronizing code) (hne : pattern ≠ [])
    (text : List α) :
    replaceAll (pattern.flatMap code) (mark.flatMap code) (text.flatMap code) =
      (replaceAll pattern mark text).flatMap code := by
  have hencoded := sync.flatMap_ne_nil hne
  induction hlength : text.length using Nat.strong_induction_on generalizing text with
  | h length ih =>
    by_cases hstarts : pattern <+: text
    · obtain ⟨rest, hrest⟩ := hstarts
      have hshorter : rest.length < length := by
        have hpositive := List.length_pos_iff.mpr hne
        rw [← hlength, ← hrest, List.length_append]
        omega
      rw [← hrest, replaceAll_append_pattern hne, List.flatMap_append,
        replaceAll_append_pattern hencoded, ih rest.length hshorter rest rfl, List.flatMap_append]
    · cases text with
      | nil => rfl
      | cons first rest =>
        rw [List.length_cons] at hlength
        rw [replaceAll_cons hstarts, List.flatMap_cons, List.flatMap_cons,
          ← ih rest.length (by omega) rest rfl]
        apply replaceAll_append (code first)
        intro before after hcode hafter hoccurs
        cases before with
        | nil =>
          rw [List.nil_append] at hcode
          rw [← hcode, ← List.flatMap_cons, sync.prefix_iff] at hoccurs
          exact hstarts hoccurs
        | cons unit units =>
          -- Here the pattern would start inside the word of the first element.
          cases pattern with
          | nil => exact hne rfl
          | cons head tail =>
            cases after with
            | nil => exact hafter rfl
            | cons inside others =>
              have hmem : inside ∈ (code first).tail := by
                rw [hcode]
                simp
              apply sync.inner first head inside hmem
              obtain ⟨beyond, hbeyond⟩ := hoccurs
              have hhead := congrArg List.head? hbeyond
              rw [List.flatMap_cons, List.append_assoc,
                List.head?_append_of_ne_nil _ (sync.ne_nil head), List.cons_append,
                List.head?_cons] at hhead
              exact hhead

end Codes

end Awman.Replacement
