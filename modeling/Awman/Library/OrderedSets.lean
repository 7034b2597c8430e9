import Mathlib.Data.List.Sort
import Mathlib.Data.List.Dedup

/-!
# Finite sets kept in increasing order

An `OrderedSet` is what an ordered-tree set is to its users: a finite set whose elements are listed
in increasing order, each once.  The order of the list is part of the type, so a value never
depends on the order in which its elements were inserted.
-/

namespace Awman

/-- A finite set whose elements are listed in increasing order. -/
structure OrderedSet (α : Type) [LinearOrder α] where
  /-- The elements, as iteration visits them. -/
  elements : List α
  /-- Iteration is strictly increasing, so no element occurs twice. -/
  increasing : elements.Pairwise (· < ·)

namespace OrderedSet

variable {α : Type} [LinearOrder α]

/-- The set without elements. -/
def empty : OrderedSet α := ⟨[], List.Pairwise.nil⟩

/-- Sorting the distinct values of a list makes them strictly increasing. -/
theorem insertionSort_dedup_increasing (values : List α) :
    (values.dedup.insertionSort (· ≤ ·)).Pairwise (· < ·) := by
  have hsorted := List.pairwise_insertionSort (· ≤ ·) values.dedup
  have hdistinct : (values.dedup.insertionSort (· ≤ ·)).Nodup :=
    (List.perm_insertionSort (· ≤ ·) values.dedup).nodup_iff.mpr (List.nodup_dedup values)
  exact (hsorted.and hdistinct).imp fun hpair => lt_of_le_of_ne hpair.1 hpair.2

/-- The set of the values of a list. -/
def ofList (values : List α) : OrderedSet α :=
  ⟨values.dedup.insertionSort (· ≤ ·), insertionSort_dedup_increasing values⟩

instance : Membership α (OrderedSet α) := ⟨fun set value => value ∈ set.elements⟩

theorem mem_elements (set : OrderedSet α) (value : α) : value ∈ set.elements ↔ value ∈ set :=
  Iff.rfl

instance (value : α) (set : OrderedSet α) : Decidable (value ∈ set) :=
  inferInstanceAs (Decidable (value ∈ set.elements))

@[simp] theorem not_mem_empty (value : α) : value ∉ (empty : OrderedSet α) := List.not_mem_nil

@[simp] theorem mem_ofList (values : List α) (value : α) : value ∈ ofList values ↔ value ∈ values := by
  rw [← mem_elements, ofList, List.mem_insertionSort, List.mem_dedup]

end OrderedSet

end Awman
