import Mathlib.Data.List.Basic

/-!
# Line ends

A line of a text ends in a line feed, which a carriage return may come before.  Reading a text by
lines drops that carriage return, and so does turning every line end into a line feed alone.
-/

namespace Awman.LineEnds

variable {line back text : List Char} {char : Char}

/-- A line without the carriage return at its end. -/
def dropReturn (line : List Char) : List Char :=
  if line.getLast? = some '\r' then line.dropLast else line

/-- The text with each carriage return before a line feed left out. -/
def toLineFeeds : List Char → List Char
  | [] => []
  | char :: rest =>
    if char = '\r' ∧ rest.head? = some '\n' then toLineFeeds rest else char :: toLineFeeds rest

/-- The lines one after another, each with a line feed behind it. -/
def render (lines : List (List Char)) : List Char :=
  lines.flatMap fun line => line ++ ['\n']

@[simp] theorem dropReturn_nil : dropReturn [] = [] := rfl

theorem dropReturn_of_not (h : line.getLast? ≠ some '\r') : dropReturn line = line := if_neg h

theorem dropReturn_append_return (line : List Char) : dropReturn (line ++ ['\r']) = line := by
  simp [dropReturn]

/-- What is kept of a line was in it. -/
theorem mem_of_mem_dropReturn (h : char ∈ dropReturn line) : char ∈ line := by
  unfold dropReturn at h
  split at h
  · exact List.dropLast_subset line h
  · exact h

/-- A line that keeps its length keeps its last character. -/
theorem dropReturn_eq_self : dropReturn line = line ↔ line.getLast? ≠ some '\r' := by
  constructor
  · intro hsame hlast
    obtain ⟨front, rfl⟩ := List.getLast?_eq_some_iff.mp hlast
    rw [dropReturn_append_return] at hsame
    have hlength := congrArg List.length hsame
    simp at hlength
  · exact dropReturn_of_not

theorem dropReturn_cons (h : line ≠ []) : dropReturn (char :: line) = char :: dropReturn line := by
  unfold dropReturn
  rw [List.getLast?_cons_of_ne_nil h]
  split
  · exact List.dropLast_cons_of_ne_nil h
  · rfl

/-- A line is read without its carriage return, and what follows it on its own. -/
theorem toLineFeeds_line (h : '\n' ∉ line) (back : List Char) :
    toLineFeeds (line ++ '\n' :: back) = dropReturn line ++ '\n' :: toLineFeeds back := by
  induction line with
  | nil => simp [toLineFeeds]
  | cons char rest ih =>
    have hrest : '\n' ∉ rest := fun hmem => h (List.mem_cons_of_mem _ hmem)
    cases rest with
    | nil =>
      by_cases hchar : char = '\r'
      · simp [toLineFeeds, hchar, dropReturn]
      · simp [toLineFeeds, hchar, dropReturn]
    | cons next rest =>
      have hnext : next ≠ '\n' := fun heq => hrest (heq ▸ List.mem_cons_self)
      have hfollow : (next :: rest ++ '\n' :: back).head? ≠ some '\n' := by
        simpa using hnext
      rw [List.cons_append, toLineFeeds, if_neg (fun hboth => hfollow hboth.2), ih hrest,
        dropReturn_cons (List.cons_ne_nil next rest), List.cons_append]

/-- A text without a line feed has no line end. -/
theorem toLineFeeds_of_not_mem (h : '\n' ∉ text) : toLineFeeds text = text := by
  induction text with
  | nil => rfl
  | cons char rest ih =>
    have hrest : '\n' ∉ rest := fun hmem => h (List.mem_cons_of_mem _ hmem)
    have hfollow : rest.head? ≠ some '\n' := fun hhead =>
      hrest (List.mem_of_mem_head? hhead)
    rw [toLineFeeds, if_neg (fun hboth => hfollow hboth.2), ih hrest]

/-- Only carriage returns are left out. -/
theorem count_toLineFeeds (h : char ≠ '\r') (text : List Char) :
    (toLineFeeds text).count char = text.count char := by
  induction text with
  | nil => rfl
  | cons first rest ih =>
    rw [toLineFeeds]
    split
    · rename_i hreturn
      have hne : first ≠ char := fun heq => h (heq.symm.trans hreturn.1)
      rw [ih, List.count_cons_of_ne hne]
    · rw [List.count_cons, List.count_cons, ih]

@[simp] theorem render_nil : render [] = [] := rfl

theorem render_cons (line : List Char) (lines : List (List Char)) :
    render (line :: lines) = line ++ '\n' :: render lines := by
  simp [render]

theorem render_append (front back : List (List Char)) :
    render (front ++ back) = render front ++ render back :=
  List.flatMap_append

/-- Lines without a line feed in them are counted by the line feeds behind them. -/
theorem count_render {lines : List (List Char)} (h : ∀ line ∈ lines, '\n' ∉ line) :
    (render lines).count '\n' = lines.length := by
  induction lines with
  | nil => rfl
  | cons line lines ih =>
    have hline : line.count '\n' = 0 := List.count_eq_zero.mpr (h line List.mem_cons_self)
    have hlines := ih fun other hother => h other (List.mem_cons_of_mem _ hother)
    rw [render_cons, List.count_append, List.count_cons_self, hline, hlines, List.length_cons]
    omega

/-- Joined by line feeds, with one more at the end, is the same as one behind each line. -/
theorem intercalate_append {lines : List (List Char)} (h : lines ≠ []) :
    List.intercalate ['\n'] lines ++ ['\n'] = render lines := by
  induction lines with
  | nil => exact absurd rfl h
  | cons line lines ih =>
    cases lines with
    | nil => simp [render]
    | cons next lines =>
      have hrest := ih (List.cons_ne_nil next lines)
      rw [render_cons, ← hrest]
      simp [List.intercalate]

end Awman.LineEnds
