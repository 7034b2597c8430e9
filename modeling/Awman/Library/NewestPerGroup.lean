import Mathlib.Data.List.Induction
import Mathlib.Data.List.Nodup
import Mathlib.Order.Defs.LinearOrder
import Mathlib.Order.Lattice

/-!
# The newest element of each group

The elements of a list are grouped by a key and compared by a rank.  One pass keeps, for every
group it has seen, the element of the highest rank, and of several such the one that came first.
Where no two elements have the same rank, the order of the list does not matter.
-/

namespace Awman.NewestPerGroup

variable {α κ ρ : Type} [DecidableEq κ] [LinearOrder ρ] (key : α → κ) (rank : α → ρ)

/-- Note an element: it takes the place of an older one of its group. -/
def note : List α → α → List α
  | [], element => [element]
  | slot :: rest, element =>
    if key slot = key element then
      if rank slot < rank element then element :: rest else slot :: rest
    else slot :: note rest element

/-- The newest elements, in the order in which their groups were first seen. -/
def latest (elements : List α) : List α := elements.foldl (note key rank) []

/-- The element is higher than those of its group before it, and no lower than those after it. -/
def Newest (elements : List α) (element : α) : Prop :=
  ∃ before after, elements = before ++ element :: after ∧
    (∀ other ∈ before, key other = key element → rank other < rank element) ∧
    ∀ other ∈ after, key other = key element → rank other ≤ rank element

variable {key rank} {elements kept : List α} {element other : α}

theorem latest_append : latest key rank (elements ++ [element]) =
    note key rank (latest key rank elements) element := by
  simp [latest, List.foldl_append]

theorem keys_note : (note key rank kept element).map key =
    if key element ∈ kept.map key then kept.map key else kept.map key ++ [key element] := by
  induction kept with
  | nil => simp [note]
  | cons slot rest ih =>
    by_cases hkey : key slot = key element
    · rw [note, if_pos hkey]
      split <;> simp [hkey]
    · have hne : key element ≠ key slot := fun h => hkey h.symm
      rw [note, if_neg hkey, List.map_cons, ih]
      by_cases hmem : key element ∈ rest.map key
      · have hmem' : key element ∈ (slot :: rest).map key := List.mem_cons_of_mem _ hmem
        rw [if_pos hmem, if_pos hmem', List.map_cons]
      · have hnot : key element ∉ (slot :: rest).map key := by
          rw [List.map_cons, List.mem_cons]
          exact fun h => h.elim hne hmem
        rw [if_neg hmem, if_neg hnot, List.map_cons, List.cons_append]

/-- One element is kept for each group. -/
theorem nodup_keys_latest : ((latest key rank elements).map key).Nodup := by
  induction elements using List.reverseRecOn with
  | nil => exact List.nodup_nil
  | append_singleton front element ih =>
    rw [latest_append, keys_note]
    split
    · exact ih
    · rename_i hnot
      exact List.nodup_append.mpr ⟨ih, List.nodup_singleton _, by
        intro first hfirst second hsecond heq
        rw [List.mem_singleton.mp hsecond] at heq
        exact hnot (heq ▸ hfirst)⟩

theorem nodup_latest : (latest key rank elements).Nodup := nodup_keys_latest.of_map

theorem mem_note (hnodup : (kept.map key).Nodup) :
    other ∈ note key rank kept element ↔
      (other ∈ kept ∧ (key other = key element → ¬ rank other < rank element)) ∨
      (other = element ∧ ∀ slot ∈ kept, key slot = key element → rank slot < rank element) := by
  induction kept with
  | nil => simp [note]
  | cons slot rest ih =>
    rw [List.map_cons, List.nodup_cons] at hnodup
    by_cases hkey : key slot = key element
    · have hothers : ∀ later ∈ rest, key later ≠ key element := by
        intro later hlater heq
        have hmem : key later ∈ rest.map key := List.mem_map_of_mem hlater
        rw [heq, ← hkey] at hmem
        exact hnodup.1 hmem
      rw [note, if_pos hkey]
      by_cases hrank : rank slot < rank element
      · rw [if_pos hrank]
        constructor
        · intro hmem
          cases List.mem_cons.mp hmem with
          | inl heq =>
            refine Or.inr ⟨heq, ?_⟩
            intro later hlater hlaterKey
            cases List.mem_cons.mp hlater with
            | inl hslot => rw [hslot]; exact hrank
            | inr hrest => exact absurd hlaterKey (hothers later hrest)
          | inr hrest =>
            have hdiffer := hothers other hrest
            exact Or.inl ⟨List.mem_cons_of_mem _ hrest, fun h => absurd h hdiffer⟩
        · intro h
          cases h with
          | inl hold =>
            cases List.mem_cons.mp hold.1 with
            | inl hslot =>
              rw [hslot] at hold
              exact absurd hrank (hold.2 hkey)
            | inr hrest => exact List.mem_cons_of_mem _ hrest
          | inr hnew =>
            rw [hnew.1]
            exact List.mem_cons_self
      · rw [if_neg hrank]
        constructor
        · intro hmem
          refine Or.inl ⟨hmem, ?_⟩
          intro hotherKey
          cases List.mem_cons.mp hmem with
          | inl hslot => rw [hslot]; exact hrank
          | inr hrest => exact absurd hotherKey (hothers other hrest)
        · intro h
          cases h with
          | inl hold => exact hold.1
          | inr hnew => exact absurd (hnew.2 slot List.mem_cons_self hkey) hrank
    · rw [note, if_neg hkey, List.mem_cons, ih hnodup.2]
      constructor
      · intro h
        cases h with
        | inl hslot =>
          rw [hslot]
          exact Or.inl ⟨List.mem_cons_self, fun h => absurd h hkey⟩
        | inr hrest =>
          cases hrest with
          | inl hold => exact Or.inl ⟨List.mem_cons_of_mem _ hold.1, hold.2⟩
          | inr hnew =>
            refine Or.inr ⟨hnew.1, ?_⟩
            intro later hlater hlaterKey
            cases List.mem_cons.mp hlater with
            | inl hslot =>
              rw [hslot] at hlaterKey
              exact absurd hlaterKey hkey
            | inr hlater => exact hnew.2 later hlater hlaterKey
      · intro h
        cases h with
        | inl hold =>
          cases List.mem_cons.mp hold.1 with
          | inl hslot => exact Or.inl hslot
          | inr hrest => exact Or.inr (Or.inl ⟨hrest, hold.2⟩)
        | inr hnew =>
          have hafter : ∀ later ∈ rest, key later = key element → rank later < rank element :=
            fun later hlater => hnew.2 later (List.mem_cons_of_mem _ hlater)
          exact Or.inr (Or.inr ⟨hnew.1, hafter⟩)

omit [DecidableEq κ] in
theorem newest_append :
    Newest key rank (elements ++ [element]) other ↔
      (Newest key rank elements other ∧ (key element = key other → rank element ≤ rank other)) ∨
      (other = element ∧ ∀ earlier ∈ elements, key earlier = key element →
        rank earlier < rank element) := by
  constructor
  · intro h
    obtain ⟨before, after, hlist, hbefore, hafter⟩ := h
    cases List.eq_nil_or_concat after with
    | inl hnil =>
      rw [hnil] at hlist
      obtain ⟨hfront, hlast⟩ := List.append_inj' hlist rfl
      have heq : element = other := (List.cons.inj hlast).1
      rw [← hfront, ← heq] at hbefore
      exact Or.inr ⟨heq.symm, hbefore⟩
    | inr hconcat =>
      obtain ⟨middle, last, hlast⟩ := hconcat
      rw [hlast, List.concat_eq_append, ← List.cons_append, ← List.append_assoc] at hlist
      obtain ⟨hfront, hend⟩ := List.append_inj' hlist rfl
      have heq : element = last := (List.cons.inj hend).1
      have hmiddle : ∀ later ∈ middle, key later = key other → rank later ≤ rank other :=
        fun later hlater => hafter later (by rw [hlast]; simp [hlater])
      have hlatest : key element = key other → rank element ≤ rank other :=
        hafter element (by rw [hlast, heq]; simp)
      exact Or.inl ⟨⟨before, middle, hfront, hbefore, hmiddle⟩, hlatest⟩
  · intro h
    cases h with
    | inl hold =>
      obtain ⟨⟨before, after, hlist, hbefore, hafter⟩, helement⟩ := hold
      refine ⟨before, after ++ [element], by rw [hlist]; simp, hbefore, ?_⟩
      intro later hlater
      cases List.mem_append.mp hlater with
      | inl hmem => exact hafter later hmem
      | inr hmem => rw [List.mem_singleton.mp hmem]; exact helement
    | inr hnew =>
      obtain ⟨heq, hearlier⟩ := hnew
      rw [heq]
      exact ⟨elements, [], rfl, hearlier, fun later hlater => absurd hlater List.not_mem_nil⟩

/-- Every element has one at least as high of its group among the newest. -/
theorem exists_latest (h : other ∈ elements) :
    ∃ slot ∈ latest key rank elements, key slot = key other ∧ rank other ≤ rank slot := by
  induction elements using List.reverseRecOn with
  | nil => cases h
  | append_singleton front element ih =>
    rw [latest_append]
    by_cases hhighest : ∀ slot ∈ latest key rank front, key slot = key element →
        rank slot < rank element
    · have hmem : element ∈ note key rank (latest key rank front) element :=
        (mem_note nodup_keys_latest).mpr (Or.inr ⟨rfl, hhighest⟩)
      cases List.mem_append.mp h with
      | inr heq =>
        rw [List.mem_singleton.mp heq]
        exact ⟨element, hmem, rfl, le_refl _⟩
      | inl hfront =>
        obtain ⟨slot, hslot, hkey, hrank⟩ := ih hfront
        by_cases hsame : key slot = key element
        · have hlt : rank slot < rank element := hhighest slot hslot hsame
          have hle : rank other ≤ rank element := le_of_lt (lt_of_le_of_lt hrank hlt)
          exact ⟨element, hmem, hsame.symm.trans hkey, hle⟩
        · have hkept : slot ∈ note key rank (latest key rank front) element :=
            (mem_note nodup_keys_latest).mpr (Or.inl ⟨hslot, fun heq => absurd heq hsame⟩)
          exact ⟨slot, hkept, hkey, hrank⟩
    · push Not at hhighest
      obtain ⟨highest, hin, hinKey, hinRank⟩ := hhighest
      have hkeepHighest : highest ∈ note key rank (latest key rank front) element :=
        (mem_note nodup_keys_latest).mpr (Or.inl ⟨hin, fun _ => not_lt.mpr hinRank⟩)
      cases List.mem_append.mp h with
      | inr heq =>
        rw [List.mem_singleton.mp heq]
        exact ⟨highest, hkeepHighest, hinKey, hinRank⟩
      | inl hfront =>
        obtain ⟨slot, hslot, hkey, hrank⟩ := ih hfront
        by_cases hsame : key slot = key element
        · have hkeys : ((latest key rank front).map key).Nodup := nodup_keys_latest
          have hslotEq : slot = highest :=
            List.inj_on_of_nodup_map hkeys hslot hin (hsame.trans hinKey.symm)
          rw [hslotEq] at hkey hrank
          exact ⟨highest, hkeepHighest, hkey, hrank⟩
        · have hkept : slot ∈ note key rank (latest key rank front) element :=
            (mem_note nodup_keys_latest).mpr (Or.inl ⟨hslot, fun heq => absurd heq hsame⟩)
          exact ⟨slot, hkept, hkey, hrank⟩

/-- The pass keeps the newest elements. -/
theorem mem_latest : other ∈ latest key rank elements ↔ Newest key rank elements other := by
  induction elements using List.reverseRecOn generalizing other with
  | nil =>
    constructor
    · intro h
      cases h
    · intro h
      obtain ⟨before, after, hlist, -⟩ := h
      simp at hlist
  | append_singleton front element ih =>
    rw [latest_append, mem_note nodup_keys_latest, newest_append, ih]
    have hall : (∀ slot ∈ latest key rank front, key slot = key element →
        rank slot < rank element) ↔
        ∀ earlier ∈ front, key earlier = key element → rank earlier < rank element := by
      constructor
      · intro h earlier hearlier hkey
        have hhigher : ∃ slot ∈ latest key rank front, key slot = key earlier ∧
            rank earlier ≤ rank slot := exists_latest hearlier
        obtain ⟨slot, hslot, hslotKey, hrank⟩ := hhigher
        have hlt : rank slot < rank element := h slot hslot (hslotKey.trans hkey)
        exact lt_of_le_of_lt hrank hlt
      · intro h slot hslot hkey
        obtain ⟨before, after, hlist, -⟩ := ih.mp hslot
        have hmem : slot ∈ front := by rw [hlist]; simp
        exact h slot hmem hkey
    rw [hall]
    have hsymm : (key other = key element → ¬ rank other < rank element) ↔
        (key element = key other → rank element ≤ rank other) := by
      rw [eq_comm]
      simp only [not_lt]
    rw [hsymm]

omit [DecidableEq κ] in
theorem Newest.mem (h : Newest key rank elements element) : element ∈ elements := by
  obtain ⟨before, after, hlist, -⟩ := h
  rw [hlist]
  simp

omit [DecidableEq κ] in
/-- Where the ranks differ, the newest are the highest of their groups. -/
theorem newest_iff_highest (hranks : (elements.map rank).Nodup) :
    Newest key rank elements element ↔
      element ∈ elements ∧ ∀ other ∈ elements, key other = key element →
        rank other ≤ rank element := by
  constructor
  · intro h
    refine ⟨h.mem, ?_⟩
    obtain ⟨before, after, hlist, hbefore, hafter⟩ := h
    intro other hother hkey
    rw [hlist, List.mem_append, List.mem_cons] at hother
    rcases hother with hfront | heq | hback
    · exact le_of_lt (hbefore other hfront hkey)
    · rw [heq]
    · exact hafter other hback hkey
  · intro h
    obtain ⟨before, after, hlist⟩ := List.append_of_mem h.1
    have hhighest : ∀ other ∈ before ++ element :: after, key other = key element →
        rank other ≤ rank element := by
      rw [← hlist]
      exact h.2
    rw [hlist, List.map_append, List.map_cons, List.nodup_append] at hranks
    refine ⟨before, after, hlist, ?_, ?_⟩
    · intro other hother hkey
      have hle := hhighest other (List.mem_append_left _ hother) hkey
      have hne : rank other ≠ rank element :=
        hranks.2.2 (rank other) (List.mem_map_of_mem hother) (rank element) List.mem_cons_self
      exact lt_of_le_of_ne hle hne
    · intro other hother hkey
      exact hhighest other (List.mem_append_right _ (List.mem_cons_of_mem _ hother)) hkey

/-- Where the ranks differ, a permutation of the list has the same newest elements. -/
theorem latest_perm {permuted : List α} (hperm : elements.Perm permuted)
    (hranks : (elements.map rank).Nodup) :
    (latest key rank elements).Perm (latest key rank permuted) := by
  have hranks' : (permuted.map rank).Nodup := (hperm.map rank).nodup_iff.mp hranks
  apply (List.perm_ext_iff_of_nodup nodup_latest nodup_latest).mpr
  intro element
  rw [mem_latest, mem_latest, newest_iff_highest hranks, newest_iff_highest hranks', hperm.mem_iff]
  simp only [hperm.mem_iff]

end Awman.NewestPerGroup
