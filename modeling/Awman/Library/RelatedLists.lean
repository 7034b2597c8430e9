import Mathlib.Data.List.Forall2

/-!
# Lists whose elements are related one by one

Two lists are related when their elements are, each to the one at its place.  Every element of one list
then has a partner in the other, and relations between three lists compose.
-/

namespace Awman.RelatedLists

variable {α β γ : Type} {relation other : α → β → Prop} {following : β → γ → Prop} {whole : α → γ → Prop}
  {values : List α} {results : List β} {lasts : List γ}

section

variable (h : List.Forall₂ relation values results)
include h

theorem exists_result :
    ∀ value ∈ values, ∃ result ∈ results, relation value result := by
  induction h with
  | nil =>
    intro value hmem
    cases hmem
  | cons hfirst _ ih =>
    intro value hmem
    rcases List.mem_cons.mp hmem with rfl | hmem
    · exact ⟨_, List.mem_cons_self, hfirst⟩
    · obtain ⟨result, hresult, hrelated⟩ := ih value hmem
      exact ⟨result, List.mem_cons_of_mem _ hresult, hrelated⟩

theorem exists_value :
    ∀ result ∈ results, ∃ value ∈ values, relation value result :=
  exists_result h.flip

theorem each_related :
    ∀ value ∈ values, ∃ result, relation value result := by
  intro value hmem
  obtain ⟨result, -, hrelated⟩ := exists_result h value hmem
  exact ⟨result, hrelated⟩

end

theorem exists_related (h : ∀ value ∈ values, ∃ result, relation value result) :
    ∃ results, List.Forall₂ relation values results := by
  induction values with
  | nil => exact ⟨[], .nil⟩
  | cons value rest ih =>
    obtain ⟨result, hresult⟩ := h value List.mem_cons_self
    obtain ⟨results, hresults⟩ := ih fun other hother => h other (List.mem_cons_of_mem _ hother)
    exact ⟨result :: results, .cons hresult hresults⟩

/-- Another relation holds of the elements if it follows for elements of the first list. -/
theorem imp_of_mem (h : List.Forall₂ relation values results)
    (himp : ∀ value ∈ values, ∀ result, relation value result → other value result) :
    List.Forall₂ other values results := by
  have hboth := (List.forall₂_and_left values results).mpr ⟨fun value hmem => hmem, h⟩
  exact hboth.imp fun value result hvalue => himp value hvalue.1 result hvalue.2

theorem comp (hfirst : List.Forall₂ relation values results)
    (hsecond : List.Forall₂ following results lasts)
    (hcomp : ∀ value result last, relation value result → following result last → whole value last) :
    List.Forall₂ whole values lasts := by
  induction hfirst generalizing lasts with
  | nil =>
    cases hsecond
    exact .nil
  | cons hrelated _ ih =>
    cases hsecond with
    | cons hfollowing hrest => exact .cons (hcomp _ _ _ hrelated hfollowing) (ih hrest)

end Awman.RelatedLists
