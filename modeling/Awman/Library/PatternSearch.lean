import Awman.Library.Replacement

/-!
# Searching for a pattern in a text

A search finds the first occurrence of a pattern.  Where the parts of a text show the pattern only as
whole parts, replacing the pattern replaces exactly those parts.  A loop that has no bound of its own
is run for a number of rounds.
-/

namespace Awman.PatternSearch

open Awman.Replacement

section Search

variable {α : Type} [DecidableEq α] {pattern front back text mark : List α} {first : α}
  {position : Nat}

/-- Where the pattern first occurs. -/
def find (pattern : List α) : List α → Option Nat
  | [] => if pattern = [] then some 0 else none
  | first :: rest =>
    if pattern <+: first :: rest then some 0 else (find pattern rest).map (· + 1)

/-- The pattern behind the text is the first one: none starts in the text. -/
def Leads (pattern front : List α) : Prop :=
  ∀ before after, front = before ++ after → after ≠ [] → ¬ pattern <+: after ++ pattern

/-- No end of the pattern is a beginning of it. -/
def Borderless (pattern : List α) : Prop :=
  ∀ count < pattern.length, 0 < count → ¬ pattern.drop count <+: pattern

instance (pattern : List α) : Decidable (Borderless pattern) :=
  inferInstanceAs (Decidable (∀ count < pattern.length, 0 < count → ¬ pattern.drop count <+: pattern))

omit [DecidableEq α] in
/-- What stands behind the first occurrence does not matter. -/
theorem Leads.not_starts (leads : Leads pattern front) (back : List α) :
    ∀ before after, front = before ++ after → after ≠ [] → ¬ pattern <+: after ++ (pattern ++ back) := by
  intro before after hfront hafter hstarts
  have hpart : after ++ pattern <+: after ++ (pattern ++ back) := by
    rw [← List.append_assoc]
    exact List.prefix_append _ _
  have hshort : pattern.length ≤ (after ++ pattern).length := by
    rw [List.length_append]
    omega
  exact leads before after hfront hafter (List.prefix_of_prefix_length_le hstarts hpart hshort)

omit [DecidableEq α] in
theorem Leads.tail (leads : Leads pattern (first :: front)) : Leads pattern front := by
  intro before after hfront hafter
  exact leads (first :: before) after (by rw [hfront]; rfl) hafter

omit [DecidableEq α] in
/-- A text without the beginning of the pattern goes in front of what leads to it. -/
theorem Leads.append_left {others : List α} (leads : Leads (first :: pattern) front)
    (h : first ∉ others) : Leads (first :: pattern) (others ++ front) := by
  intro before after hparts hafter hstarts
  cases List.append_eq_append_iff.mp hparts with
  | inl hinside =>
    obtain ⟨middle, hbefore, hfront⟩ := hinside
    exact leads middle after hfront hafter hstarts
  | inr hacross =>
    obtain ⟨middle, hothers, hrest⟩ := hacross
    cases middle with
    | nil =>
      rw [List.nil_append] at hrest
      exact leads [] after hrest.symm hafter hstarts
    | cons head tail =>
      rw [hrest, List.cons_append, List.cons_append, List.cons_prefix_cons] at hstarts
      rw [hothers, hstarts.1] at h
      simp at h

omit [DecidableEq α] in
/-- A text without the pattern leads to it, if no end of the pattern is a beginning of it. -/
theorem leads_of_absent (hborder : Borderless pattern) (h : ¬ pattern <:+: front) :
    Leads pattern front := by
  intro before after hfront hafter hstarts
  obtain ⟨rest, hrest⟩ := hstarts
  cases List.append_eq_append_iff.mp hrest with
  | inl hinside =>
    obtain ⟨middle, hmiddle, -⟩ := hinside
    refine h ⟨before, middle, ?_⟩
    rw [hfront, hmiddle, List.append_assoc]
  | inr hacross =>
    obtain ⟨middle, hpattern, hmiddle⟩ := hacross
    cases middle with
    | nil =>
      rw [List.append_nil] at hpattern
      refine h ⟨before, [], ?_⟩
      rw [hpattern, hfront, List.append_nil]
    | cons head tail =>
      have hpositive := List.length_pos_iff.mpr hafter
      have hlength := congrArg List.length hpattern
      rw [List.length_append, List.length_cons] at hlength
      apply hborder after.length (by omega) hpositive
      have hdrop : pattern.drop after.length = head :: tail := by
        rw [hpattern, List.drop_left]
      rw [hdrop]
      exact ⟨rest, hmiddle.symm⟩

theorem find_of_leads (leads : Leads pattern front) (back : List α) :
    find pattern (front ++ (pattern ++ back)) = some front.length := by
  induction front with
  | nil =>
    rw [List.nil_append]
    cases pattern with
    | nil => cases back <;> simp [find]
    | cons head tail =>
      rw [List.cons_append, find, ← List.cons_append, if_pos (List.prefix_append _ _)]
      rfl
  | cons first rest ih =>
    have hhere := leads.not_starts back [] (first :: rest) rfl (List.cons_ne_nil _ _)
    rw [List.cons_append] at hhere
    rw [List.cons_append, find, if_neg hhere, ih leads.tail]
    rfl

theorem find_eq_some (h : find pattern text = some position) :
    ∃ front back, text = front ++ (pattern ++ back) ∧ front.length = position ∧
      Leads pattern front := by
  have hempty : Leads pattern [] := by
    intro before after hnil hafter
    exact absurd (List.append_eq_nil_iff.mp hnil.symm).2 hafter
  induction text generalizing position with
  | nil =>
    rw [find] at h
    split at h
    · rename_i hpattern
      cases h
      exact ⟨[], [], by rw [hpattern]; rfl, rfl, hempty⟩
    · cases h
  | cons first rest ih =>
    rw [find] at h
    split at h
    · rename_i hstarts
      obtain ⟨back, hback⟩ := hstarts
      cases h
      exact ⟨[], back, hback.symm, rfl, hempty⟩
    · rename_i hstarts
      obtain ⟨before, hbefore, hposition⟩ := Option.map_eq_some_iff.mp h
      obtain ⟨front, back, hrest, hlength, leads⟩ := ih hbefore
      refine ⟨first :: front, back, by rw [hrest]; rfl, by rw [List.length_cons]; omega, ?_⟩
      intro start after hfront hafter hoccurs
      cases start with
      | nil =>
        rw [List.nil_append] at hfront
        rw [← hfront] at hoccurs
        refine hstarts (hoccurs.trans ?_)
        rw [hrest, ← List.append_assoc front]
        exact List.prefix_append _ _
      | cons head tail =>
        rw [List.cons_append, List.cons.injEq] at hfront
        exact leads tail after hfront.2 hafter hoccurs

theorem find_isSome : (find pattern text).isSome = true ↔ pattern <:+: text := by
  constructor
  · intro h
    obtain ⟨position, hposition⟩ := Option.isSome_iff_exists.mp h
    obtain ⟨front, back, htext, -, -⟩ := find_eq_some hposition
    exact ⟨front, back, by rw [htext, List.append_assoc]⟩
  · intro h
    induction text with
    | nil => simp [find, List.infix_nil.mp h]
    | cons first rest ih =>
      rw [find]
      split
      · rfl
      · rename_i hstarts
        rw [Option.isSome_map]
        exact ih ((List.infix_cons_iff.mp h).resolve_left hstarts)

theorem find_eq_none : find pattern text = none ↔ ¬ pattern <:+: text := by
  rw [← find_isSome, Bool.not_eq_true, Option.isSome_eq_false_iff, Option.isNone_iff_eq_none]

omit [DecidableEq α] in
/-- What occurs in the text of some parts begins in one of them. -/
theorem exists_part {β : Type} {parts : List β} {shown : β → List α}
    (h : pattern <:+: parts.flatMap shown) (hne : pattern ≠ []) :
    ∃ front part back passed rest, parts = front ++ part :: back ∧ shown part = passed ++ rest ∧
      rest ≠ [] ∧ pattern <+: rest ++ back.flatMap shown := by
  induction parts with
  | nil => exact absurd (List.infix_nil.mp h) hne
  | cons part others ih =>
    obtain ⟨before, after, htext⟩ := h
    have hlater : pattern <:+: others.flatMap shown → ∃ front found back passed rest,
        part :: others = front ++ found :: back ∧ shown found = passed ++ rest ∧ rest ≠ [] ∧
          pattern <+: rest ++ back.flatMap shown := by
      intro hinside
      obtain ⟨front, found, back, passed, rest, hparts, hrest⟩ := ih hinside
      exact ⟨part :: front, found, back, passed, rest, by rw [hparts]; rfl, hrest⟩
    rw [List.flatMap_cons, List.append_assoc] at htext
    cases List.append_eq_append_iff.mp htext with
    | inl hwithin =>
      obtain ⟨rest, hpart, hstarts⟩ := hwithin
      cases rest with
      | nil =>
        rw [List.nil_append] at hstarts
        exact hlater ⟨[], after, by rw [List.nil_append]; exact hstarts⟩
      | cons head tail =>
        exact ⟨[], part, others, before, head :: tail, rfl, hpart, List.cons_ne_nil _ _,
          ⟨after, hstarts⟩⟩
    | inr hbehind =>
      obtain ⟨middle, -, hothers⟩ := hbehind
      exact hlater ⟨middle, after, by rw [hothers, List.append_assoc]⟩

/-- Where the pattern shows as whole parts of their own only, exactly those are replaced. -/
theorem replaceAll_flatMap {β : Type} {own : β → Bool} {shown result : β → List α}
    (hne : pattern ≠ []) (hborder : Borderless pattern) {parts : List β}
    (hown : ∀ part ∈ parts, own part = true → shown part = pattern ∧ result part = mark)
    (hother : ∀ part ∈ parts, own part = false → result part = shown part)
    (hbetween : ∀ others, others <:+: parts → (∀ part ∈ others, own part = false) →
      ¬ pattern <:+: others.flatMap shown) :
    replaceAll pattern mark (parts.flatMap shown) = parts.flatMap result := by
  -- The parts in front that are not own ones are collected until the next own one.
  have hcollect : ∀ rest passed : List β, passed ++ rest <:+ parts →
      (∀ part ∈ passed, own part = false) →
      replaceAll pattern mark (passed.flatMap shown ++ rest.flatMap shown) =
        passed.flatMap shown ++ rest.flatMap result := by
    intro rest
    induction rest with
    | nil =>
      intro passed hpart hpassed
      rw [List.append_nil] at hpart
      rw [List.flatMap_nil, List.flatMap_nil, List.append_nil]
      exact replaceAll_eq_self (hbetween passed hpart.isInfix hpassed)
    | cons part rest ih =>
      intro passed hpart hpassed
      have hmem : part ∈ parts := hpart.subset (by simp)
      cases hkind : own part with
      | true =>
        have hclear := hbetween passed ((List.prefix_append _ _).isInfix.trans hpart.isInfix) hpassed
        have leads : Leads pattern (passed.flatMap shown) := leads_of_absent hborder hclear
        have hrest : [] ++ rest <:+ parts := by
          refine List.IsSuffix.trans ?_ hpart
          exact ⟨passed ++ [part], by rw [List.nil_append, List.append_assoc]; rfl⟩
        have hlater := ih [] hrest (by simp)
        rw [List.flatMap_nil, List.nil_append, List.nil_append] at hlater
        rw [List.flatMap_cons, List.flatMap_cons, (hown part hmem hkind).1,
          (hown part hmem hkind).2, replaceAll_append _ (leads.not_starts _),
          replaceAll_append_pattern hne, hlater]
      | false =>
        have hnext : (passed ++ [part]) ++ rest <:+ parts := by
          rw [List.append_assoc]
          exact hpart
        have hlater := ih (passed ++ [part]) hnext (by
          intro other hother
          cases List.mem_append.mp hother with
          | inl hpast => exact hpassed other hpast
          | inr hlast => rw [List.mem_singleton.mp hlast]; exact hkind)
        rw [List.flatMap_append, List.flatMap_singleton, List.append_assoc,
          List.append_assoc] at hlater
        rw [List.flatMap_cons, List.flatMap_cons, hother part hmem hkind]
        exact hlater
  have hall := hcollect parts [] (by simp) (by simp)
  rw [List.flatMap_nil, List.nil_append, List.nil_append] at hall
  exact hall

end Search

/-! ## Rounds of a loop -/

section Rounds

variable {σ : Type} {step : σ → Option σ} {state next result other : σ} {fuel more : Nat}

/-- Run a loop until a step finds nothing to do, `none` if that takes more rounds. -/
def runLoop (step : σ → Option σ) : Nat → σ → Option σ
  | 0, _ => none
  | fuel + 1, state =>
    match step state with
    | none => some state
    | some next => runLoop step fuel next

theorem runLoop_stop (h : step state = none) (fuel : Nat) :
    runLoop step (fuel + 1) state = some state := by
  rw [runLoop, h]

theorem runLoop_step (h : step state = some next) (fuel : Nat) :
    runLoop step (fuel + 1) state = runLoop step fuel next := by
  rw [runLoop, h]

/-- Where a loop ends there is nothing to do. -/
theorem runLoop_halts (h : runLoop step fuel state = some result) : step result = none := by
  induction fuel generalizing state with
  | zero => cases h
  | succ fuel ih =>
    cases hstep : step state with
    | none =>
      rw [runLoop_stop hstep, Option.some.injEq] at h
      rw [← h]
      exact hstep
    | some next =>
      rw [runLoop_step hstep] at h
      exact ih h

/-- A loop ends in one state. -/
theorem runLoop_unique (h : runLoop step fuel state = some result)
    (hmore : runLoop step more state = some other) : result = other := by
  induction fuel generalizing state more with
  | zero => cases h
  | succ fuel ih =>
    cases more with
    | zero => cases hmore
    | succ more =>
      cases hstep : step state with
      | none =>
        rw [runLoop_stop hstep, Option.some.injEq] at h hmore
        rw [← h, ← hmore]
      | some next =>
        rw [runLoop_step hstep] at h hmore
        exact ih h hmore

/-- A step that changes nothing is repeated for ever. -/
theorem runLoop_stuck (h : step state = some state) (fuel : Nat) : runLoop step fuel state = none := by
  induction fuel with
  | zero => rfl
  | succ fuel ih => rw [runLoop_step h, ih]

end Rounds

end Awman.PatternSearch
