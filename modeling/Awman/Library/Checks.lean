import Mathlib.Data.List.Forall2

/-!
# Checks made one after another

A check gives a value or the first error.  The rules below turn the success of a sequence of checks
into the success of each of them.
-/

namespace Awman.Checks

variable {ε α β : Type}

/-- Stop with the error when the condition holds. -/
def refuseIf (condition : Prop) [Decidable condition] (error : ε) : Except ε Unit :=
  if condition then .error error else .ok ()

/-- The results of a check on every value, or the first error. -/
def collect (check : α → Except ε β) : List α → Except ε (List β)
  | [] => .ok []
  | value :: rest => do
    let result ← check value
    let results ← collect check rest
    return result :: results

/-- The check of a field that may be absent. -/
def checkField (check : α → Except ε β) : Option α → Except ε (Option β)
  | none => .ok none
  | some value => some <$> check value

variable {first : Except ε α} {values : List α}

@[simp] theorem bind_eq_ok {next : α → Except ε β} {result : β} :
    (first >>= next) = .ok result ↔ ∃ value, first = .ok value ∧ next value = .ok result := by
  cases first <;> simp [bind, Except.bind]

@[simp] theorem map_eq_ok {convert : α → β} {result : β} :
    (convert <$> first) = .ok result ↔ ∃ value, first = .ok value ∧ convert value = result := by
  cases first <;> simp [Functor.map, Except.map]

@[simp] theorem pure_eq_ok {value result : α} :
    (pure value : Except ε α) = .ok result ↔ value = result := by
  simp [pure, Except.pure]

@[simp] theorem mapError_eq_ok {ε' : Type} {convert : ε → ε'} {result : α} :
    first.mapError convert = .ok result ↔ first = .ok result := by
  cases first <;> simp [Except.mapError]

@[simp] theorem refuseIf_eq_ok {condition : Prop} [Decidable condition] {error : ε} {done : Unit} :
    refuseIf condition error = .ok done ↔ ¬ condition := by
  by_cases hcondition : condition <;> simp [refuseIf, hcondition]

/-- What was collected is what the check gave on the values, in their order. -/
theorem collect_eq_ok {check : α → Except ε β} {results : List β} :
    collect check values = .ok results ↔
      List.Forall₂ (fun value result => check value = .ok result) values results := by
  induction values generalizing results with
  | nil =>
    rw [collect, List.forall₂_nil_left_iff, Except.ok.injEq]
    exact eq_comm
  | cons value rest ih =>
    rw [collect, bind_eq_ok, List.forall₂_cons_left_iff]
    constructor
    · rintro ⟨first, hfirst, hrest⟩
      rw [bind_eq_ok] at hrest
      obtain ⟨others, hothers, hresult⟩ := hrest
      rw [pure_eq_ok] at hresult
      exact ⟨first, others, hfirst, ih.mp hothers, hresult.symm⟩
    · rintro ⟨first, others, hfirst, hothers, rfl⟩
      exact ⟨first, hfirst, by rw [bind_eq_ok]; exact ⟨others, ih.mpr hothers, rfl⟩⟩

theorem mapM_eq_collect (check : α → Except ε β) (values : List α) :
    values.mapM check = collect check values := by
  induction values with
  | nil => rfl
  | cons value rest ih => rw [List.mapM_cons, collect, ih]

/-- What was collected comes from the checked values. -/
theorem mem_of_collect {check : α → Except ε β} {results : List β}
    (hcollect : collect check values = .ok results) {result : β} (hresult : result ∈ results) :
    ∃ value ∈ values, check value = .ok result := by
  have hpairs := collect_eq_ok.mp hcollect
  induction hpairs with
  | nil => cases hresult
  | @cons value first rest others hfirst _ ih =>
    rcases List.mem_cons.mp hresult with rfl | hother
    · exact ⟨value, List.mem_cons_self, hfirst⟩
    · rename_i hrest
      obtain ⟨found, hfound, hcheck⟩ := ih (collect_eq_ok.mpr hrest) hother
      exact ⟨found, List.mem_cons_of_mem value hfound, hcheck⟩

/-- A checked field is absent when the field is, and else the result of the check. -/
theorem checkField_eq_ok {check : α → Except ε β} {field : Option α} {result : Option β} :
    checkField check field = .ok result ↔
      (field = none ∧ result = none) ∨
      ∃ value checked, field = some value ∧ check value = .ok checked ∧ result = some checked := by
  cases field with
  | none => simp [checkField, eq_comm]
  | some value =>
    rw [checkField, map_eq_ok]
    simp [eq_comm]

/-- A check of every value passes when it passes on each. -/
theorem forM_ok {check : α → Except ε Unit} :
    forM values check = .ok () ↔ ∀ value ∈ values, check value = .ok () := by
  induction values with
  | nil => simp [pure, Except.pure]
  | cons value rest ih =>
    rw [List.forM_cons]
    cases hvalue : check value with
    | error e => simp [bind, Except.bind, hvalue]
    | ok _ => simp [bind, Except.bind, hvalue, ih]

theorem ok_of_toOption {ε α : Type} {result : Except ε α} {value : α} (h : result.toOption = some value) :
    result = .ok value := by
  cases result with
  | error e => cases h
  | ok found => rw [Option.some.inj h]

theorem toOption_get {ε α : Type} {result : Except ε α} (h : result.toOption.isSome = true) :
    result = .ok (result.toOption.get h) :=
  ok_of_toOption (Option.some_get h).symm

end Awman.Checks
