import Awman.Blanks
import Awman.Library.PatternSearch
import Awman.Library.TextCuts
import Awman.NumberTexts

/-!
# Prompts from templates

A prompt template names the work item by placeholders.  They are rendered one kind after the other,
and the sections by a loop that searches the text rendered so far.
-/

namespace Awman.Prompt

open Awman.Network (trim isWhiteSpace)
open Awman.PatternSearch
open Awman.Replacement (replaceAll)
open Awman.TextCuts (stripPrefix)

/-- A work item. -/
structure WorkItemContext where
  number : UInt32
  content : List Char
deriving DecidableEq, Repr

/-- A rendered prompt. -/
structure Substitution where
  rendered : List Char
  /-- What to tell the user. -/
  warnings : List String
  deriving DecidableEq

/-! ## Sections of a work item -/

/-- The lines of a text, without what ends them. -/
def lines (text : List Char) : List (List Char) :=
  let parts := text.splitOn '\n'
  parts.dropLast.map (fun line => if line.getLast? = some '\r' then line.dropLast else line) ++
    (parts.getLast?.filter (· ≠ [])).toList

/-- What a line has as a heading. -/
def heading (line : List Char) : Option (List Char) :=
  (stripPrefix "## ".toList (trim line)).or (stripPrefix "# ".toList (trim line))

/-- The line begins another section. -/
def startsSection (line : List Char) : Bool :=
  "## ".toList.isPrefixOf (line.dropWhile isWhiteSpace) ||
    "# ".toList.isPrefixOf (line.dropWhile isWhiteSpace)

/-- A heading without white space around it, colons behind it and capital letters. -/
def normalized (name : List Char) : List Char :=
  ((trim name).rdropWhile (· == ':')).map Char.toLower

/-- The body of the first section with this normalized heading. -/
def findSection (needle : List Char) : List (List Char) → Option (List Char)
  | [] => none
  | line :: rest =>
    match heading line with
    | none => findSection needle rest
    | some title =>
      if normalized title = needle then
        some (trim ((rest.takeWhile fun next => !startsSection next).flatMap (· ++ ['\n'])))
      else findSection needle rest

/-- The body of the section with this heading. -/
def extractSection (content name : List Char) : Option (List Char) :=
  findSection (normalized name) (lines content)

/-! ## Rendering -/

/-- The placeholder of the number with four digits. -/
def numberToken : List Char := "\x7b\x7bwork_item_number\x7d\x7d".toList

/-- The placeholder of the number. -/
def workItemToken : List Char := "\x7b\x7bwork_item\x7d\x7d".toList

/-- The placeholder of the file. -/
def contentToken : List Char := "\x7b\x7bwork_item_content\x7d\x7d".toList

/-- What begins the placeholder of a section. -/
def sectionToken : List Char := "\x7b\x7bwork_item_section:".toList

/-- What ends a placeholder. -/
def closing : List Char := "\x7d\x7d".toList

/-- Replace a token, from the left and without looking at what was put in. -/
def replaceToken (input token : List Char) (f : List Char → List Char) : List Char :=
  replaceAll token (f token) input

/-- The number with at least four digits. -/
def numberValue : Option WorkItemContext → List Char
  | some item => (Nat.toDigits 10 item.number.toNat).leftpad 4 '0'
  | none => []

/-- The number. -/
def workItemValue : Option WorkItemContext → List Char
  | some item => Nat.toDigits 10 item.number.toNat
  | none => []

/-- The file. -/
def contentValue : Option WorkItemContext → List Char
  | some item => item.content
  | none => []

/-- The section that is named inside a placeholder. -/
def sectionValue (workItem : Option WorkItemContext) (raw : List Char) : List Char :=
  let name := trim ((((trim raw).dropWhile (· == '[')).rdropWhile (· == ']')).rdropWhile (· == ':'))
  match workItem with
  | some item => (extractSection item.content name).getD []
  | none => []

/-- Render the first section placeholder, `none` if there is none that ends. -/
def expandSection (workItem : Option WorkItemContext) (out : List Char) : Option (List Char) :=
  (find sectionToken out).bind fun start =>
    (find closing (out.drop start)).map fun length =>
      let last := start + length + 2
      let raw := (out.take (last - 2)).drop (start + sectionToken.length)
      out.take start ++ sectionValue workItem raw ++ out.drop last

/-- Render a template, `none` if that takes more rounds of the loop over the sections. -/
def substitutePrompt (rounds : Nat) (template : List Char) (workItem : Option WorkItemContext) :
    Option Substitution :=
  let warnings :=
    if (find "\x7b\x7bwork_item".toList template).isSome && workItem.isNone then
      ["workflow prompt references \x7b\x7bwork_item_*\x7d\x7d but no --work-item was supplied; " ++
        "placeholders rendered as empty strings"]
    else []
  let out := replaceToken template numberToken fun _ => numberValue workItem
  let out := replaceToken out workItemToken fun _ => workItemValue workItem
  let out := replaceToken out contentToken fun _ => contentValue workItem
  (runLoop (expandSection workItem) rounds out).map fun rendered => { rendered, warnings }

/-! ## One pass over a template -/

/-- A placeholder of a template. -/
inductive Placeholder where
  /-- The number with four digits. -/
  | number
  | workItem
  | content
  /-- The section that is named here. -/
  | sectionBody (raw : List Char)
  deriving DecidableEq

/-- How it is written. -/
def Placeholder.text : Placeholder → List Char
  | .number => numberToken
  | .workItem => workItemToken
  | .content => contentToken
  | .sectionBody raw => sectionToken ++ (raw ++ closing)

/-- What it stands for. -/
def Placeholder.value (workItem : Option WorkItemContext) : Placeholder → List Char
  | .number => numberValue workItem
  | .workItem => workItemValue workItem
  | .content => contentValue workItem
  | .sectionBody raw => sectionValue workItem raw

/-- The placeholder a text begins with. -/
def placeholderAt (text : List Char) : Option Placeholder :=
  if numberToken <+: text then some .number
  else if workItemToken <+: text then some .workItem
  else if contentToken <+: text then some .content
  else (stripPrefix sectionToken text).bind fun rest =>
    (find closing rest).map fun length => .sectionBody (rest.take length)

/-- A part of a template. -/
inductive Segment where
  | plain (character : Char)
  | placeholder (token : Placeholder)
  deriving DecidableEq

/-- The parts of a template from the left; the next `skip` characters belong to a placeholder. -/
def segmentsFrom : Nat → List Char → List Segment
  | _, [] => []
  | skip + 1, _ :: rest => segmentsFrom skip rest
  | 0, first :: rest =>
    match placeholderAt (first :: rest) with
    | some token =>
      .placeholder token :: segmentsFrom (token.text.length - 1) rest
    | none => .plain first :: segmentsFrom 0 rest

/-- The parts of a template from the left. -/
def segments (template : List Char) : List Segment := segmentsFrom 0 template

/-- The placeholder, if the part is one. -/
def Segment.token : Segment → Option Placeholder
  | .plain _ => none
  | .placeholder token => some token

/-- How a part is written. -/
def Segment.text : Segment → List Char
  | .plain character => [character]
  | .placeholder token => token.text

/-- What a part stands for. -/
def Segment.value (workItem : Option WorkItemContext) : Segment → List Char
  | .plain character => [character]
  | .placeholder token => token.value workItem

/-- The template with each placeholder replaced by its value. -/
def singlePass (template : List Char) (workItem : Option WorkItemContext) : List Char :=
  (segments template).flatMap (Segment.value workItem)

/-- Rendering ends, with each placeholder of the template replaced by its value. -/
structure SinglePass (template : List Char) (workItem : Option WorkItemContext) : Prop where
  terminates : ∃ rounds, (substitutePrompt rounds template workItem).isSome = true
  rendered : ∀ rounds substitution, substitutePrompt rounds template workItem = some substitution →
    substitution.rendered = singlePass template workItem

/-- Which of the passes renders a placeholder; the loop over the sections comes last. -/
def Placeholder.stage : Placeholder → Nat
  | .number => 0
  | .workItem => 1
  | .content => 2
  | .sectionBody _ => 3

/-- What a part stands for once the passes before a stage are done. -/
def Segment.shown (workItem : Option WorkItemContext) (stage : Nat) : Segment → List Char
  | .plain character => [character]
  | .placeholder token => if token.stage < stage then token.value workItem else token.text

/-- Once the passes before it are done, no parts of the template read like the token together. -/
def Between (template : List Char) (workItem : Option WorkItemContext) (token : Placeholder) : Prop :=
  ∀ parts, parts <:+: segments template → (∀ part ∈ parts, part ≠ .placeholder token) →
    ¬ token.text <:+: parts.flatMap (Segment.shown workItem token.stage)

/-- The placeholders of a template keep apart: none is written inside that of a section, none comes up
where others are left out, and no section placeholder begins in what is rendered in front of one. -/
structure Separate (template : List Char) (workItem : Option WorkItemContext) : Prop where
  unnested : ∀ raw, .placeholder (.sectionBody raw) ∈ segments template →
    ∀ token ∈ [Placeholder.number, .workItem, .content], ¬ token.text <:+ raw ++ closing
  joined : workItem = none →
    Between template workItem .workItem ∧ Between template workItem .content
  ahead : ∀ front raw back, segments template = front ++ .placeholder (.sectionBody raw) :: back →
    ¬ sectionToken <:+: front.flatMap (Segment.value workItem)

/-- No section placeholder begins and ends in the text. -/
def Settled (text : List Char) : Prop :=
  ∀ front back, text = front ++ (sectionToken ++ back) → ¬ closing <:+: back

/-! ## The parts of a template -/

/-- How a template is taken apart from the left. -/
inductive Parsed : List Char → List Segment → Prop where
  | nil : Parsed [] []
  | plain {first : Char} {rest : List Char} {parts : List Segment}
      (h : placeholderAt (first :: rest) = none) (parsed : Parsed rest parts) :
      Parsed (first :: rest) (.plain first :: parts)
  | placeholder {token : Placeholder} {rest : List Char} {parts : List Segment}
      (h : placeholderAt (token.text ++ rest) = some token) (parsed : Parsed rest parts) :
      Parsed (token.text ++ rest) (.placeholder token :: parts)

section Parsing

variable {template text rest : List Char} {token : Placeholder} {parts front back : List Segment}

theorem placeholderAt_eq_some (h : placeholderAt text = some token) :
    ∃ rest, text = token.text ++ rest := by
  unfold placeholderAt at h
  split at h
  · rename_i hstarts
    obtain ⟨rest, hrest⟩ := hstarts
    cases h
    exact ⟨rest, hrest.symm⟩
  split at h
  · rename_i hstarts
    obtain ⟨rest, hrest⟩ := hstarts
    cases h
    exact ⟨rest, hrest.symm⟩
  split at h
  · rename_i hstarts
    obtain ⟨rest, hrest⟩ := hstarts
    cases h
    exact ⟨rest, hrest.symm⟩
  obtain ⟨body, hbody, hlength⟩ := Option.bind_eq_some_iff.mp h
  obtain ⟨length, hfind, htoken⟩ := Option.map_eq_some_iff.mp hlength
  obtain ⟨raw, rest, hraw, hsize, -⟩ := find_eq_some hfind
  have htake : body.take length = raw := by
    rw [hraw, ← hsize, List.take_left]
  refine ⟨rest, ?_⟩
  rw [← htoken, htake, Placeholder.text, TextCuts.stripPrefix_eq_some.mp hbody, hraw,
    List.append_assoc, List.append_assoc]

/-- The name inside the placeholder of a section ends where the placeholder does. -/
theorem leads_of_placeholderAt {raw : List Char} (h : placeholderAt text = some (.sectionBody raw)) :
    Leads closing raw := by
  unfold placeholderAt at h
  split at h
  · cases h
  split at h
  · cases h
  split at h
  · cases h
  obtain ⟨body, hbody, hlength⟩ := Option.bind_eq_some_iff.mp h
  obtain ⟨length, hfind, htoken⟩ := Option.map_eq_some_iff.mp hlength
  obtain ⟨front, rest, hfront, hsize, leads⟩ := find_eq_some hfind
  have htake : body.take length = front := by
    rw [hfront, ← hsize, List.take_left]
  rw [htake, Placeholder.sectionBody.injEq] at htoken
  rw [← htoken]
  exact leads

theorem segmentsFrom_append (front back : List Char) :
    segmentsFrom front.length (front ++ back) = segments back := by
  induction front with
  | nil => rw [List.nil_append, List.length_nil, segments]
  | cons first rest ih =>
    rw [List.cons_append, List.length_cons, segmentsFrom]
    exact ih

theorem Placeholder.text_ne_nil (token : Placeholder) : token.text ≠ [] := by
  cases token with
  | number | workItem | content => decide
  | sectionBody raw =>
    have hne : sectionToken ≠ [] := by decide
    exact List.append_ne_nil_of_left_ne_nil hne _

theorem parsed_segments (template : List Char) : Parsed template (segments template) := by
  induction hlength : template.length using Nat.strong_induction_on generalizing template with
  | h length ih =>
    cases template with
    | nil => exact .nil
    | cons first rest =>
      rw [List.length_cons] at hlength
      cases hfound : placeholderAt (first :: rest) with
      | none =>
        rw [segments, segmentsFrom, hfound]
        exact .plain hfound (ih rest.length (by omega) rest rfl)
      | some token =>
        obtain ⟨others, hothers⟩ := placeholderAt_eq_some hfound
        obtain ⟨head, tail, htext⟩ := List.exists_cons_of_ne_nil token.text_ne_nil
        have htail : rest = tail ++ others := by
          rw [htext, List.cons_append, List.cons.injEq] at hothers
          exact hothers.2
        have hshorter : others.length < length := by
          rw [htail, List.length_append] at hlength
          omega
        have hparts : segments (first :: rest) = .placeholder token :: segments others := by
          rw [segments, segmentsFrom, hfound]
          dsimp only
          rw [htext, List.length_cons, Nat.add_sub_cancel, htail, segmentsFrom_append]
        rw [hparts, hothers]
        rw [hothers] at hfound
        exact .placeholder hfound (ih others.length hshorter others rfl)

theorem Parsed.text_eq (parsed : Parsed template parts) : parts.flatMap Segment.text = template := by
  induction parsed with
  | nil => rfl
  | plain h parsed ih | placeholder h parsed ih =>
    rw [List.flatMap_cons, ih]
    rfl

/-- A part is what the template begins with from there on. -/
theorem Parsed.placeholderAt_eq (parsed : Parsed template parts) {part : Segment}
    (hparts : parts = front ++ part :: back) :
    placeholderAt ((part :: back).flatMap Segment.text) = part.token := by
  induction parsed generalizing front with
  | nil =>
    have hlength := congrArg List.length hparts
    simp at hlength
  | plain h parsed ih | placeholder h parsed ih =>
    cases front with
    | nil =>
      rw [List.nil_append, List.cons.injEq] at hparts
      rw [← hparts.1, ← hparts.2, List.flatMap_cons, parsed.text_eq]
      exact h
    | cons head tail =>
      rw [List.cons_append, List.cons.injEq] at hparts
      exact ih hparts.2

theorem not_starts {first second : List Char} (h : first <+: text) (hfirst : ¬ first <+: second)
    (hsecond : ¬ second <+: first) : ¬ second <+: text := by
  intro hother
  cases List.prefix_or_prefix_of_prefix h hother with
  | inl hstarts => exact hfirst hstarts
  | inr hstarts => exact hsecond hstarts

/-- A token that a text begins with is found. -/
theorem placeholderAt_of_starts (htoken : token ∈ [Placeholder.number, .workItem, .content])
    (h : token.text <+: text) : placeholderAt text = some token := by
  simp only [List.mem_cons, List.not_mem_nil, or_false] at htoken
  unfold placeholderAt
  rcases htoken with rfl | rfl | rfl
  · exact if_pos h
  · have hnumber : ¬ numberToken <+: text := not_starts h (by decide) (by decide)
    rw [if_neg hnumber]
    exact if_pos h
  · have hnumber : ¬ numberToken <+: text := not_starts h (by decide) (by decide)
    have hworkItem : ¬ workItemToken <+: text := not_starts h (by decide) (by decide)
    rw [if_neg hnumber, if_neg hworkItem]
    exact if_pos h

theorem leads_of_mem {raw : List Char} (h : .placeholder (.sectionBody raw) ∈ segments template) :
    Leads closing raw := by
  obtain ⟨front, back, hparts⟩ := List.append_of_mem h
  exact leads_of_placeholderAt ((parsed_segments template).placeholderAt_eq hparts)

end Parsing

/-! ## The passes -/

section Passes

variable {template text : List Char} {workItem : Option WorkItemContext} {token : Placeholder}
  {parts front back : List Segment} {stage rounds : Nat}

theorem shown_zero (template : List Char) (workItem : Option WorkItemContext) :
    (segments template).flatMap (Segment.shown workItem 0) = template := by
  have hshown : Segment.shown workItem 0 = Segment.text := by
    funext part
    cases part with
    | plain character => rfl
    | placeholder token => simp [Segment.shown, Segment.text]
  rw [hshown, (parsed_segments template).text_eq]

/-- A part that is no section stands for its value before the loop. -/
theorem shown_three {part : Segment} (h : ∀ raw, part ≠ .placeholder (.sectionBody raw)) :
    part.shown workItem 3 = part.value workItem := by
  cases part with
  | plain character => rfl
  | placeholder token =>
    cases token with
    | number | workItem | content => rfl
    | sectionBody raw => exact absurd rfl (h raw)

/-- A pass over a token replaces the placeholders of the template. -/
theorem replaceToken_shown (htoken : token ∈ [Placeholder.number, .workItem, .content])
    (hbetween : Between template workItem token) :
    replaceToken ((segments template).flatMap (Segment.shown workItem token.stage)) token.text
        (fun _ => token.value workItem) =
      (segments template).flatMap (Segment.shown workItem (token.stage + 1)) := by
  have hborder : Borderless token.text := by
    simp only [List.mem_cons, List.not_mem_nil, or_false] at htoken
    rcases htoken with rfl | rfl | rfl <;> decide
  have hstage : ∀ other : Placeholder, other.stage = token.stage → other = token := by
    intro other hsame
    simp only [List.mem_cons, List.not_mem_nil, or_false] at htoken
    rcases htoken with rfl | rfl | rfl <;> cases other <;> first | rfl | cases hsame
  have hown : ∀ part ∈ segments template, decide (part = .placeholder token) = true →
      part.shown workItem token.stage = token.text ∧
        part.shown workItem (token.stage + 1) = token.value workItem := by
    intro part hmem hsame
    rw [of_decide_eq_true hsame]
    exact ⟨if_neg (Nat.lt_irrefl _), if_pos (Nat.lt_succ_self _)⟩
  have hother : ∀ part ∈ segments template, decide (part = .placeholder token) = false →
      part.shown workItem (token.stage + 1) = part.shown workItem token.stage := by
    intro part hmem hother
    have hdifferent := of_decide_eq_false hother
    cases part with
    | plain character => rfl
    | placeholder other =>
      have hnot : other.stage ≠ token.stage := by
        intro hsame
        exact hdifferent (by rw [hstage other hsame])
      have hlater : other.stage < token.stage + 1 ↔ other.stage < token.stage := by omega
      simp only [Segment.shown, hlater]
  have hnone : ∀ others, others <:+: segments template →
      (∀ part ∈ others, decide (part = .placeholder token) = false) →
      ¬ token.text <:+: others.flatMap (Segment.shown workItem token.stage) :=
    fun others hothers hdifferent => hbetween others hothers fun part hmem =>
      of_decide_eq_false (hdifferent part hmem)
  exact replaceAll_flatMap token.text_ne_nil hborder hown hother hnone

/-- What holds no digit shows as it is written where the values in front are numbers. -/
theorem starts_text {pattern : List Char} (hdigit : ∀ character ∈ pattern, character.isDigit = false)
    (hvalues : ∀ token : Placeholder, token.stage < stage → token.value workItem ≠ [] ∧
      ∀ character ∈ token.value workItem, character.isDigit = true)
    (h : pattern <+: parts.flatMap (Segment.shown workItem stage)) :
    pattern <+: parts.flatMap Segment.text := by
  induction parts generalizing pattern with
  | nil => exact h
  | cons part rest ih =>
    rw [List.flatMap_cons] at h ⊢
    have hsame : part.shown workItem stage = part.text →
        pattern <+: part.text ++ rest.flatMap Segment.text := by
      intro hshown
      rw [hshown] at h
      obtain ⟨after, hafter⟩ := h
      cases List.append_eq_append_iff.mp hafter with
      | inl hwithin =>
        obtain ⟨middle, htext, -⟩ := hwithin
        rw [htext, List.append_assoc]
        exact List.prefix_append _ _
      | inr hbehind =>
        obtain ⟨middle, hpattern, hrest⟩ := hbehind
        have hmiddle : ∀ character ∈ middle, character.isDigit = false :=
          fun character hmem => hdigit character (by rw [hpattern]; exact List.mem_append_right _ hmem)
        rw [hpattern]
        exact (List.prefix_append_right_inj _).mpr (ih hmiddle ⟨after, hrest.symm⟩)
    cases part with
    | plain character => exact hsame rfl
    | placeholder token =>
      by_cases hearlier : token.stage < stage
      · have hshown : (Segment.placeholder token).shown workItem stage = token.value workItem :=
          if_pos hearlier
        rw [hshown] at h
        obtain ⟨hne, hall⟩ := hvalues token hearlier
        obtain ⟨first, others, hvalue⟩ := List.exists_cons_of_ne_nil hne
        rw [hvalue, List.cons_append, List.prefix_cons_iff] at h
        cases h with
        | inl hnil =>
          rw [hnil]
          exact List.nil_prefix
        | inr hcons =>
          obtain ⟨tail, hpattern, -⟩ := hcons
          have hnot := hdigit first (by rw [hpattern]; simp)
          rw [hall first (by rw [hvalue]; simp)] at hnot
          cases hnot
      · exact hsame (if_neg hearlier)

theorem text_token (htoken : token ∈ [Placeholder.number, .workItem, .content]) :
    ∃ body, token.text = '{' :: '{' :: (body ++ closing) ∧ '}' ∉ body := by
  simp only [List.mem_cons, List.not_mem_nil, or_false] at htoken
  rcases htoken with rfl | rfl | rfl
  · exact ⟨"work_item_number".toList, rfl, by decide⟩
  · exact ⟨"work_item".toList, rfl, by decide⟩
  · exact ⟨"work_item_content".toList, rfl, by decide⟩

/-- Behind its beginning a placeholder has no other brace that opens, but in the name of a section. -/
theorem text_opening (token : Placeholder) :
    ∃ word others, token.text = '{' :: '{' :: (word ++ others) ∧ '{' ∉ word ∧ word ≠ [] ∧
      (others ≠ [] → ∃ raw, token = .sectionBody raw ∧ others = raw ++ closing) := by
  cases token with
  | number => exact ⟨"work_item_number\x7d\x7d".toList, [], rfl, by decide, by decide, by simp⟩
  | workItem => exact ⟨"work_item\x7d\x7d".toList, [], rfl, by decide, by decide, by simp⟩
  | content => exact ⟨"work_item_content\x7d\x7d".toList, [], rfl, by decide, by decide, by simp⟩
  | sectionBody raw =>
    exact ⟨"work_item_section:".toList, raw ++ closing, rfl, by decide, by decide,
      fun _ => ⟨raw, rfl, rfl⟩⟩

/-- A token that begins inside a placeholder begins in the name of a section. -/
theorem begins_in_name {passed rest tail : List Char} (hpassed : passed ≠ [])
    (htext : token.text = passed ++ '{' :: rest) (hrest : ∀ first ∈ (rest ++ tail).head?, first = '{') :
    ∃ raw front, token = .sectionBody raw ∧ raw ++ closing = front ++ '{' :: rest := by
  obtain ⟨word, others, hword, hbrace, hne, hsection⟩ := text_opening token
  obtain ⟨head, passed, rfl⟩ := List.exists_cons_of_ne_nil hpassed
  rw [hword, List.cons_append, List.cons.injEq] at htext
  have hinside := htext.2
  have hothers : ∃ front, others = front ++ '{' :: rest := by
    cases passed with
    | nil =>
      obtain ⟨letter, letters, rfl⟩ := List.exists_cons_of_ne_nil hne
      rw [List.nil_append, List.cons.injEq] at hinside
      have hletter := hrest letter (by rw [← hinside.2]; rfl)
      rw [hletter] at hbrace
      simp at hbrace
    | cons second passed =>
      rw [List.cons_append, List.cons.injEq] at hinside
      cases List.append_eq_append_iff.mp hinside.2 with
      | inl hbehind =>
        obtain ⟨middle, -, hmiddle⟩ := hbehind
        exact ⟨middle, hmiddle⟩
      | inr hwithin =>
        obtain ⟨middle, hletters, hmiddle⟩ := hwithin
        cases middle with
        | nil => exact ⟨[], hmiddle.symm⟩
        | cons letter letters =>
          rw [List.cons_append, List.cons.injEq] at hmiddle
          rw [hletters, ← hmiddle.1] at hbrace
          simp at hbrace
  obtain ⟨front, hfront⟩ := hothers
  obtain ⟨raw, htoken, hraw⟩ := hsection (by rw [hfront]; simp)
  exact ⟨raw, front, htoken, by rw [← hraw, hfront]⟩

/-- A token that begins in the name of a section ends the placeholder of the section. -/
theorem nested_of_name {raw front rest tail : List Char}
    (htoken : token ∈ [Placeholder.number, .workItem, .content]) (leads : Leads closing raw)
    (hname : raw ++ closing = front ++ '{' :: rest) (h : token.text <+: ('{' :: rest) ++ tail) :
    token.text <:+ raw ++ closing := by
  obtain ⟨body, htext, hbrace⟩ := text_token htoken
  obtain ⟨after, hafter⟩ := h
  have hinside : ∃ name, raw = front ++ name ∧ '{' :: rest = name ++ closing := by
    cases List.append_eq_append_iff.mp hname with
    | inl hbehind =>
      obtain ⟨middle, -, hclosing⟩ := hbehind
      have hmem : '{' ∈ closing := by
        rw [hclosing]
        simp
      exact absurd hmem (by decide)
    | inr hwithin =>
      obtain ⟨name, hraw, hrest⟩ := hwithin
      exact ⟨name, hraw, hrest⟩
  obtain ⟨name, hraw, hrest⟩ := hinside
  have hbegin : '}' ∉ '{' :: '{' :: body := by simpa using hbrace
  have htoken : token.text = ('{' :: '{' :: body) ++ closing := htext
  rw [htoken, hrest, List.append_assoc, List.append_assoc] at hafter
  cases List.append_eq_append_iff.mp hafter with
  | inl hlonger =>
    obtain ⟨middle, hmiddle, hclosing⟩ := hlonger
    cases middle with
    | nil =>
      rw [List.append_nil] at hmiddle
      refine ⟨front, ?_⟩
      rw [htoken, ← hmiddle, hraw, List.append_assoc]
    | cons first others =>
      -- The name would go on behind what ends a placeholder.
      have hend : raw = (front ++ ('{' :: '{' :: body)) ++ (first :: others) := by
        rw [hraw, hmiddle, List.append_assoc]
      have hnot := leads.not_starts tail _ _ hend (List.cons_ne_nil _ _)
      exact absurd ⟨after, hclosing⟩ hnot
  | inr hshorter =>
    obtain ⟨middle, hmiddle, hclosing⟩ := hshorter
    cases middle with
    | nil =>
      rw [List.append_nil] at hmiddle
      refine ⟨front, ?_⟩
      rw [htoken, hmiddle, hraw, List.append_assoc]
    | cons first others =>
      have hfirst : first = '}' := by
        have hheads := congrArg List.head? hclosing
        simpa [closing] using hheads.symm
      rw [hmiddle, hfirst] at hbegin
      simp at hbegin

/-- Where the values in front are numbers, a token comes up in the names of sections only. -/
theorem between_of_unnested (htoken : token ∈ [Placeholder.number, .workItem, .content])
    (hvalues : ∀ other : Placeholder, other.stage < token.stage → other.value workItem ≠ [] ∧
      ∀ character ∈ other.value workItem, character.isDigit = true)
    (hunnested : ∀ raw, .placeholder (.sectionBody raw) ∈ segments template →
      ¬ token.text <:+ raw ++ closing) : Between template workItem token := by
  intro others hothers hnone hoccurs
  obtain ⟨front, part, back, passed, rest, hsplit, hshown, hrest, hstarts⟩ :=
    exists_part hoccurs token.text_ne_nil
  obtain ⟨before, after, hsegments⟩ := hothers
  obtain ⟨body, htext, -⟩ := text_token htoken
  have hplace : segments template = (before ++ front) ++ part :: (back ++ after) := by
    rw [← hsegments, hsplit]
    simp
  have hdifferent : part ≠ .placeholder token := hnone part (by rw [hsplit]; simp)
  obtain ⟨first, rest, rfl⟩ := List.exists_cons_of_ne_nil hrest
  cases passed with
  | nil =>
    have hall : token.text.all (fun character => character.isDigit == false) = true := by
      simp only [List.mem_cons, List.not_mem_nil, or_false] at htoken
      rcases htoken with rfl | rfl | rfl <;> rfl
    have hdigit : ∀ character ∈ token.text, character.isDigit = false :=
      fun character hmem => beq_iff_eq.mp (List.all_eq_true.mp hall character hmem)
    have hwhole : token.text <+: (part :: back).flatMap (Segment.shown workItem token.stage) := by
      rw [List.flatMap_cons, hshown]
      exact hstarts
    have hwritten : token.text <+: (part :: (back ++ after)).flatMap Segment.text := by
      rw [List.flatMap_cons, List.flatMap_append, ← List.append_assoc, ← List.flatMap_cons]
      exact (starts_text hdigit hvalues hwhole).trans (List.prefix_append _ _)
    have hfound := placeholderAt_of_starts htoken hwritten
    rw [(parsed_segments template).placeholderAt_eq hplace] at hfound
    cases part with
    | plain character => cases hfound
    | placeholder other =>
      cases hfound
      exact hdifferent rfl
  | cons head passed =>
    have hfirst : first = '{' ∧ ∀ second ∈ (rest ++ back.flatMap
        (Segment.shown workItem token.stage)).head?, second = '{' := by
      obtain ⟨later, hlater⟩ := hstarts
      rw [htext, List.cons_append, List.cons_append, List.cons_append, List.cons.injEq] at hlater
      refine ⟨hlater.1.symm, ?_⟩
      rw [← hlater.2]
      simp
    cases part with
    | plain character =>
      have hlength := congrArg List.length hshown
      simp [Segment.shown] at hlength
    | placeholder other =>
      by_cases hearlier : other.stage < token.stage
      · have hvalue : other.value workItem = (head :: passed) ++ first :: rest := by
          rw [← hshown]
          exact (if_pos hearlier).symm
        have hnot := (hvalues other hearlier).2 first (by rw [hvalue]; simp)
        rw [hfirst.1] at hnot
        exact absurd hnot (by decide)
      · have hother : other.text = (head :: passed) ++ first :: rest := by
          rw [← hshown]
          exact (if_neg hearlier).symm
        rw [hfirst.1] at hother hstarts
        obtain ⟨raw, name, hkind, hname⟩ := begins_in_name (List.cons_ne_nil _ _) hother hfirst.2
        have hmem : .placeholder (.sectionBody raw) ∈ segments template := by
          rw [hplace, hkind]
          simp
        exact hunnested raw hmem (nested_of_name htoken (leads_of_mem hmem) hname hstarts)

theorem between_of_separate (separate : Separate template workItem)
    (htoken : token ∈ [Placeholder.number, .workItem, .content]) :
    Between template workItem token := by
  have hunnested : ∀ raw, .placeholder (.sectionBody raw) ∈ segments template →
      ¬ token.text <:+ raw ++ closing := fun raw hmem => separate.unnested raw hmem token htoken
  cases hitem : workItem with
  | none =>
    rw [hitem] at separate
    simp only [List.mem_cons, List.not_mem_nil, or_false] at htoken
    rcases htoken with rfl | rfl | rfl
    · exact between_of_unnested (by simp) (fun other h => absurd h (Nat.not_lt_zero _)) hunnested
    · exact (separate.joined rfl).1
    · exact (separate.joined rfl).2
  | some item =>
    refine between_of_unnested htoken ?_ hunnested
    intro other hearlier
    have hdigits : ∀ character ∈ Nat.toDigits 10 item.number.toNat, character.isDigit = true :=
      fun character hmem => Nat.isDigit_of_mem_toDigits (by omega) (by omega) hmem
    cases other with
    | number =>
      refine ⟨?_, ?_⟩
      · intro hnil
        have hlength := congrArg List.length hnil
        rw [Placeholder.value, numberValue, List.length_leftpad, List.length_nil] at hlength
        omega
      · intro character hmem
        rw [Placeholder.value, numberValue, List.leftpad, List.mem_append] at hmem
        cases hmem with
        | inl hzero =>
          rw [(List.mem_replicate.mp hzero).2]
          rfl
        | inr hdigit => exact hdigits character hdigit
    | workItem => exact ⟨Nat.toDigits_ne_nil, hdigits⟩
    | content =>
      simp only [List.mem_cons, List.not_mem_nil, or_false] at htoken
      rcases htoken with rfl | rfl | rfl <;> exact absurd hearlier (by decide)
    | sectionBody raw =>
      simp only [List.mem_cons, List.not_mem_nil, or_false] at htoken
      rcases htoken with rfl | rfl | rfl <;> exact absurd hearlier (by simp [Placeholder.stage])

/-- The three passes over the tokens leave the placeholders of the sections. -/
theorem passes_shown (separate : Separate template workItem) :
    replaceToken (replaceToken (replaceToken template numberToken fun _ => numberValue workItem)
        workItemToken fun _ => workItemValue workItem) contentToken (fun _ => contentValue workItem) =
      (segments template).flatMap (Segment.shown workItem 3) := by
  have hnumber : replaceToken template numberToken (fun _ => numberValue workItem) =
      (segments template).flatMap (Segment.shown workItem 1) := by
    have hpass := replaceToken_shown (by simp)
      (between_of_separate separate (by simp : Placeholder.number ∈ [.number, .workItem, .content]))
    rw [Placeholder.stage, shown_zero] at hpass
    exact hpass
  have hworkItem : replaceToken ((segments template).flatMap (Segment.shown workItem 1)) workItemToken
      (fun _ => workItemValue workItem) = (segments template).flatMap (Segment.shown workItem 2) :=
    replaceToken_shown (by simp)
      (between_of_separate separate (by simp : Placeholder.workItem ∈ [.number, .workItem, .content]))
  have hcontent : replaceToken ((segments template).flatMap (Segment.shown workItem 2)) contentToken
      (fun _ => contentValue workItem) = (segments template).flatMap (Segment.shown workItem 3) :=
    replaceToken_shown (by simp)
      (between_of_separate separate (by simp : Placeholder.content ∈ [.number, .workItem, .content]))
  rw [hnumber, hworkItem, hcontent]

end Passes

/-! ## The loop over the sections -/

section Loop

variable {template front text : List Char} {workItem : Option WorkItemContext} {rounds : Nat}

theorem closing_infix_of_token (h : closing <:+: sectionToken ++ text) : closing <:+: text := by
  obtain ⟨before, after, hparts⟩ := h
  rw [List.append_assoc] at hparts
  cases List.append_eq_append_iff.mp hparts with
  | inl hwithin =>
    obtain ⟨middle, htoken, hrest⟩ := hwithin
    cases middle with
    | nil => exact ⟨[], after, by rw [List.nil_append]; exact hrest⟩
    | cons first others =>
      have hfirst : first = '}' := by
        have hheads := congrArg List.head? hrest
        simpa [closing] using hheads.symm
      have hmem : '}' ∈ sectionToken := by
        rw [htoken, hfirst]
        simp
      exact absurd hmem (by decide)
  | inr hbehind =>
    obtain ⟨middle, -, hrest⟩ := hbehind
    exact ⟨middle, after, by rw [hrest, List.append_assoc]⟩

/-- The loop is at its end where no placeholder of a section begins and ends. -/
theorem expandSection_eq_none : expandSection workItem text = none ↔ Settled text := by
  constructor
  · intro h before back htext hclosing
    cases hstart : find sectionToken text with
    | none =>
      refine find_eq_none.mp hstart ⟨before, back, ?_⟩
      rw [htext, List.append_assoc]
    | some start =>
      obtain ⟨front, rest, hfront, hlength, leads⟩ := find_eq_some hstart
      rw [expandSection, hstart, Option.bind_some, Option.map_eq_none_iff, find_eq_none, hfront,
        ← hlength, List.drop_left] at h
      rw [htext] at hfront
      cases List.append_eq_append_iff.mp hfront with
      | inl hlater =>
        obtain ⟨middle, hmiddle, hrest⟩ := hlater
        cases middle with
        | nil =>
          rw [List.nil_append] at hrest
          rw [← hrest] at h
          exact h (hclosing.trans (List.suffix_append _ _).isInfix)
        | cons first others =>
          have hnot := leads.not_starts rest _ _ hmiddle (List.cons_ne_nil _ _)
          rw [← hrest] at hnot
          exact hnot (List.prefix_append _ _)
      | inr hearlier =>
        obtain ⟨middle, -, hrest⟩ := hearlier
        rw [hrest] at h
        refine h (hclosing.trans ?_)
        rw [← List.append_assoc]
        exact (List.suffix_append _ _).isInfix
  · intro settled
    cases hstart : find sectionToken text with
    | none => rw [expandSection, hstart, Option.bind_none]
    | some start =>
      obtain ⟨front, rest, hfront, hlength, -⟩ := find_eq_some hstart
      rw [expandSection, hstart, Option.bind_some, Option.map_eq_none_iff, find_eq_none, hfront,
        ← hlength, List.drop_left]
      intro hclosing
      exact settled front rest hfront (closing_infix_of_token hclosing)

/-- One round renders the first placeholder of a section. -/
theorem expandSection_append {raw : List Char} (hfront : ¬ sectionToken <:+: front)
    (leads : Leads closing raw) (back : List Char) :
    expandSection workItem (front ++ ((Placeholder.sectionBody raw).text ++ back)) =
      some (front ++ (sectionValue workItem raw ++ back)) := by
  have hborder : Borderless sectionToken := by decide
  have hstart : find sectionToken (front ++ (sectionToken ++ (raw ++ (closing ++ back)))) =
      some front.length := find_of_leads (leads_of_absent hborder hfront) _
  have hleads : Leads closing (sectionToken ++ raw) := leads.append_left (by decide)
  have hend : find closing (sectionToken ++ (raw ++ (closing ++ back))) =
      some (sectionToken ++ raw).length := by
    rw [← List.append_assoc]
    exact find_of_leads hleads back
  have htext : front ++ ((Placeholder.sectionBody raw).text ++ back) =
      front ++ (sectionToken ++ (raw ++ (closing ++ back))) := by
    rw [Placeholder.text, List.append_assoc, List.append_assoc]
  rw [htext, expandSection, hstart, Option.bind_some, List.drop_left, hend, Option.map_some]
  dsimp only
  have hraw : ((front ++ (sectionToken ++ (raw ++ (closing ++ back)))).take
      (front.length + (sectionToken ++ raw).length + 2 - 2)).drop
        (front.length + sectionToken.length) = raw := by
    have hparts : front ++ (sectionToken ++ (raw ++ (closing ++ back))) =
        (front ++ (sectionToken ++ raw)) ++ (closing ++ back) := by simp
    have hlength : front.length + (sectionToken ++ raw).length =
        (front ++ (sectionToken ++ raw)).length := List.length_append.symm
    rw [Nat.add_sub_cancel, hparts, hlength, List.take_left, ← List.length_append,
      ← List.append_assoc, List.drop_left]
  have hback : (front ++ (sectionToken ++ (raw ++ (closing ++ back)))).drop
      (front.length + (sectionToken ++ raw).length + 2) = back := by
    have hparts : front ++ (sectionToken ++ (raw ++ (closing ++ back))) =
        (front ++ (sectionToken ++ raw) ++ closing) ++ back := by simp
    have hlength : front.length + (sectionToken ++ raw).length + 2 =
        (front ++ (sectionToken ++ raw) ++ closing).length := by
      have hclosing : closing.length = 2 := rfl
      simp only [List.length_append, hclosing, Nat.add_assoc]
    rw [hparts, hlength, List.drop_left]
  rw [hraw, hback, List.take_left, List.append_assoc]

/-- Where no placeholder of a section begins in what is rendered in front of one, the loop renders the
placeholders of the template. -/
theorem runLoop_shown
    (hahead : ∀ front raw back,
      segments template = front ++ .placeholder (.sectionBody raw) :: back →
        ¬ sectionToken <:+: front.flatMap (Segment.value workItem))
    (hsettled : Settled (singlePass template workItem)) (back : List Segment) :
    ∀ front, segments template = front ++ back → ∃ rounds,
      runLoop (expandSection workItem) rounds
        (front.flatMap (Segment.value workItem) ++ back.flatMap (Segment.shown workItem 3)) =
          some (singlePass template workItem) := by
  induction back with
  | nil =>
    intro front hparts
    rw [List.append_nil] at hparts
    rw [List.flatMap_nil, List.append_nil, ← hparts]
    exact ⟨1, runLoop_stop (expandSection_eq_none.mpr hsettled) 0⟩
  | cons part back ih =>
    intro front hparts
    have hnext : segments template = (front ++ [part]) ++ back := by
      rw [hparts, List.append_assoc]
      rfl
    obtain ⟨rounds, hrounds⟩ := ih (front ++ [part]) hnext
    rw [List.flatMap_append, List.flatMap_singleton, List.append_assoc] at hrounds
    by_cases hsection : ∃ raw, part = .placeholder (.sectionBody raw)
    · obtain ⟨raw, hpart⟩ := hsection
      rw [hpart] at hparts hrounds ⊢
      have hmem : .placeholder (.sectionBody raw) ∈ segments template := by
        rw [hparts]
        simp
      refine ⟨rounds + 1, ?_⟩
      have hshown : (Segment.placeholder (.sectionBody raw)).shown workItem 3 =
          (Placeholder.sectionBody raw).text := rfl
      rw [List.flatMap_cons, hshown, runLoop_step
        (expandSection_append (hahead front raw back hparts) (leads_of_mem hmem) _)]
      exact hrounds
    · have hshown : part.shown workItem 3 = part.value workItem :=
        shown_three fun raw hraw => hsection ⟨raw, hraw⟩
      rw [List.flatMap_cons, hshown]
      exact ⟨rounds, hrounds⟩

end Loop

section Rendering

variable {template : List Char} {workItem : Option WorkItemContext}

theorem map_rendered (rounds : Nat) (template : List Char) (workItem : Option WorkItemContext) :
    (substitutePrompt rounds template workItem).map Substitution.rendered =
      runLoop (expandSection workItem) rounds
        (replaceToken (replaceToken (replaceToken template numberToken fun _ => numberValue workItem)
          workItemToken fun _ => workItemValue workItem) contentToken
            fun _ => contentValue workItem) := by
  unfold substitutePrompt
  dsimp only
  rw [Option.map_map]
  exact Option.map_id'

theorem singlePass_of_separate (separate : Separate template workItem)
    (settled : Settled (singlePass template workItem)) : SinglePass template workItem := by
  obtain ⟨rounds, hrounds⟩ := runLoop_shown separate.ahead settled (segments template) [] rfl
  rw [List.flatMap_nil, List.nil_append] at hrounds
  constructor
  · refine ⟨rounds, ?_⟩
    have hmap := map_rendered rounds template workItem
    rw [passes_shown separate, hrounds] at hmap
    rw [← Option.isSome_map, hmap]
    rfl
  · intro more substitution hmore
    have hmap := map_rendered more template workItem
    rw [passes_shown separate, hmore, Option.map_some] at hmap
    exact runLoop_unique hmap.symm hrounds

/-- What the code renders has no placeholder of a section left. -/
theorem settled_of_singlePass (h : SinglePass template workItem) :
    Settled (singlePass template workItem) := by
  obtain ⟨rounds, hrounds⟩ := h.terminates
  obtain ⟨substitution, hsubstitution⟩ := Option.isSome_iff_exists.mp hrounds
  have hmap := map_rendered rounds template workItem
  rw [hsubstitution, Option.map_some] at hmap
  rw [← h.rendered rounds substitution hsubstitution]
  exact expandSection_eq_none.mp (runLoop_halts hmap.symm)

/-- Rendering is a single pass where the placeholders of the template keep apart and the result has no
placeholder of a section; and only where the result has none. -/
theorem substitutePrompt_singlePass (template : List Char) (workItem : Option WorkItemContext) :
    (Separate template workItem ∧ Settled (singlePass template workItem) →
      SinglePass template workItem) ∧
    (SinglePass template workItem → Settled (singlePass template workItem)) := by
  constructor
  · intro h
    exact singlePass_of_separate h.1 h.2
  · exact settled_of_singlePass

/-- A template that asks for one section. -/
def goalTemplate : List Char := "\x7b\x7bwork_item_section:[Goal]\x7d\x7d".toList

/-- A work item whose section is about the placeholder itself. -/
def goalItem : WorkItemContext where
  number := 7
  content := "## Goal\n\x7b\x7bwork_item_section:[Goal]\x7d\x7d".toList

/-- A section that reads like the placeholder is rendered for ever. -/
theorem goalTemplate_not_singlePass : ¬ SinglePass goalTemplate (some goalItem) := by
  intro h
  obtain ⟨rounds, hrounds⟩ := h.terminates
  have hstuck : expandSection (some goalItem) goalTemplate = some goalTemplate := by decide +kernel
  have hpasses : replaceToken (replaceToken (replaceToken goalTemplate numberToken
      fun _ => numberValue (some goalItem)) workItemToken fun _ => workItemValue (some goalItem))
      contentToken (fun _ => contentValue (some goalItem)) = goalTemplate := by decide +kernel
  have hmap := map_rendered rounds goalTemplate (some goalItem)
  rw [hpasses, runLoop_stuck hstuck, Option.map_eq_none_iff] at hmap
  rw [hmap] at hrounds
  cases hrounds

end Rendering

end Awman.Prompt
