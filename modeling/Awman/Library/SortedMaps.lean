import Mathlib.Data.List.Pairwise
import Mathlib.Order.Lattice

/-!
# Finite maps kept in increasing order of their keys

A `SortedMap` is what an ordered-tree map is to its users: entries in increasing order of their
keys, each key once.  The order of the list is part of the type, so two maps with the same entries
are equal.
-/

namespace Awman

/-- A finite map whose entries are listed in increasing order of their keys. -/
@[ext] structure SortedMap (κ β : Type) [LinearOrder κ] where
  /-- The entries, as iteration visits them. -/
  entries : List (κ × β)
  /-- The keys are strictly increasing, so no key occurs twice. -/
  increasing : (entries.map Prod.fst).Pairwise (· < ·)

namespace SortedMap

variable {κ β : Type} [LinearOrder κ]

theorem nil_increasing : (([] : List (κ × β)).map Prod.fst).Pairwise (· < ·) :=
  List.Pairwise.nil

/-- The map without entries. -/
def empty : SortedMap κ β := ⟨[], nil_increasing⟩

/-- Change the value of a key in a list of entries, or add the key. -/
def upsertEntries (key : κ) (update : Option β → β) : List (κ × β) → List (κ × β)
  | [] => [(key, update none)]
  | (first, value) :: rest =>
    if key < first then (key, update none) :: (first, value) :: rest
    else if key = first then (first, update (some value)) :: rest
    else (first, value) :: upsertEntries key update rest

variable {entries : List (κ × β)}

theorem mem_keys_upsertEntries {key other : κ} {update : Option β → β}
    (hother : other ∈ (upsertEntries key update entries).map Prod.fst) :
    other = key ∨ other ∈ entries.map Prod.fst := by
  induction entries with
  | nil => simpa [upsertEntries] using hother
  | cons entry rest ih =>
    obtain ⟨first, value⟩ := entry
    rw [upsertEntries] at hother
    split_ifs at hother with hless hequal
    · simpa using hother
    · right
      simpa using hother
    · rcases List.mem_cons.mp hother with hfirst | hrest
      · right
        rw [hfirst]
        exact List.mem_cons_self
      · rcases ih hrest with hkey | hmem
        · exact .inl hkey
        · exact .inr (List.mem_cons_of_mem first hmem)

theorem upsertEntries_increasing (key : κ) (update : Option β → β)
    (hentries : (entries.map Prod.fst).Pairwise (· < ·)) :
    ((upsertEntries key update entries).map Prod.fst).Pairwise (· < ·) := by
  induction entries with
  | nil => exact List.pairwise_singleton _ _
  | cons entry rest ih =>
    obtain ⟨first, value⟩ := entry
    obtain ⟨hfirst, hrest⟩ := List.pairwise_cons.mp hentries
    rw [upsertEntries]
    split_ifs with hless hequal
    · refine List.pairwise_cons.mpr ⟨?_, hentries⟩
      intro other hother
      rcases List.mem_cons.mp hother with hsame | hlater
      · rw [hsame]
        exact hless
      · exact hless.trans (hfirst other hlater)
    · exact hentries
    · refine List.pairwise_cons.mpr ⟨?_, ih hrest⟩
      intro other hother
      rcases mem_keys_upsertEntries hother with hkey | hmem
      · rw [hkey]
        exact lt_of_le_of_ne (not_lt.mp hless) (Ne.symm hequal)
      · exact hfirst other hmem

/-- Change the value of a key, or add the key. -/
def upsert (map : SortedMap κ β) (key : κ) (update : Option β → β) : SortedMap κ β :=
  ⟨upsertEntries key update map.entries, upsertEntries_increasing key update map.increasing⟩

@[simp] theorem entries_upsert (map : SortedMap κ β) (key : κ) (update : Option β → β) :
    (map.upsert key update).entries = upsertEntries key update map.entries := rfl

/-- A key behind all others is added at the end. -/
theorem upsertEntries_eq_append {key : κ} (update : Option β → β)
    (hlater : ∀ entry ∈ entries, entry.1 < key) :
    upsertEntries key update entries = entries ++ [(key, update none)] := by
  induction entries with
  | nil => rfl
  | cons entry rest ih =>
    obtain ⟨first, value⟩ := entry
    have hfirst : first < key := hlater (first, value) List.mem_cons_self
    rw [upsertEntries, if_neg (not_lt_of_gt hfirst), if_neg (ne_of_gt hfirst),
      ih fun other hother => hlater other (List.mem_cons_of_mem _ hother)]
    rfl

end SortedMap

end Awman
