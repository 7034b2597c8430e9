import Mathlib.Data.List.Basic

/-!
# Records on lines

A file holds one record a line and may be torn: a line that cannot be read is passed over, and the
last one may lack its separator.  A file is only appended to, from the start of a line.
-/

namespace Awman.LineRecords

variable {α ρ : Type} [DecidableEq α] {separator : α} {read : List α → Option ρ}
  {content front back line : List α}

/-- The records that can be read, in their order. -/
def records (separator : α) (read : List α → Option ρ) (content : List α) : List ρ :=
  (content.splitOn separator).filterMap read

/-- The lines, without an empty one behind the last separator. -/
def lines (separator : α) (content : List α) : List (List α) :=
  let parts := content.splitOn separator
  if parts.getLast? = some [] then parts.dropLast else parts

/-- The content with a separator behind its last line. -/
def closed (separator : α) (content : List α) : List α :=
  match content.getLast? with
  | none => content
  | some last => if last = separator then content else content ++ [separator]

/-- What holds of a last line, and of a line in front of what it holds of, holds of every content. -/
@[elab_as_elim] theorem lines_induction (separator : α) {motive : List α → Prop}
    (last : ∀ line, separator ∉ line → motive line)
    (line : ∀ line back, separator ∉ line → motive back → motive (line ++ separator :: back))
    (content : List α) : motive content := by
  induction hlength : content.length using Nat.strongRecOn generalizing content with
  | _ length ih =>
    by_cases hmem : separator ∈ content
    · obtain ⟨front, back, rfl, hfront⟩ := List.eq_append_cons_of_mem hmem
      simp only [List.length_append, List.length_cons] at hlength
      exact line front back hfront (ih back.length (by omega) back rfl)
    · exact last content hmem

theorem records_nil (hempty : read [] = none) : records separator read [] = [] := by
  simp [records, hempty]

theorem records_append_cons (front back : List α) :
    records separator read (front ++ separator :: back) =
      records separator read front ++ records separator read back := by
  rw [records, List.splitOn_append_cons_self, List.filterMap_append]
  rfl

/-- A line in front of other content is one record, if it can be read. -/
theorem records_line (h : separator ∉ line) (back : List α) :
    records separator read (line ++ separator :: back) =
      (read line).toList ++ records separator read back := by
  rw [records_append_cons]
  have hline : records separator read line = (read line).toList := by
    rw [records, List.splitOn_eq_singleton h]
    cases hread : read line <;> simp [hread]
  rw [hline]

theorem filterMap_lines (hempty : read [] = none) (content : List α) :
    (lines separator content).filterMap read = records separator read content := by
  unfold lines records
  dsimp only
  split
  · rename_i hlast
    obtain ⟨front, hfront⟩ := List.getLast?_eq_some_iff.mp hlast
    rw [hfront, List.dropLast_concat, List.filterMap_append]
    simp [hempty]
  · rfl

/-- What is appended to a closed content is read as it stands. -/
theorem records_closed_append (hempty : read [] = none) (content back : List α) :
    records separator read (closed separator content ++ back) =
      records separator read content ++ records separator read back := by
  unfold closed
  split
  · rename_i hnone
    rw [List.getLast?_eq_none_iff.mp hnone, records_nil hempty]
    rfl
  · rename_i last hlast
    split
    · rename_i hsame
      obtain ⟨front, hfront⟩ := List.getLast?_eq_some_iff.mp hlast
      rw [hfront, hsame, List.append_assoc, List.singleton_append, records_append_cons,
        records_append_cons, records_nil hempty, List.append_nil]
    · rw [List.append_assoc, List.singleton_append, records_append_cons]

theorem prefix_closed (content : List α) : content <+: closed separator content := by
  unfold closed
  split
  · exact List.prefix_refl _
  · split
    · exact List.prefix_refl _
    · exact List.prefix_append _ _

end Awman.LineRecords
