import Mathlib.Data.List.Sort
import Mathlib.Order.Lattice

/-!
# Rows read newest first

Rows with distinct keys are sorted by key.  The place of a row among sorted rows is the number of rows
before it, so the first `limit` rows from the newest on are those with fewer than `limit` newer ones.
When the rows of one kind are picked from that window and listed oldest first, the place of a row is the
number of older rows of its kind as long as none of that kind lies outside the window, and smaller when
one does.
-/

namespace Awman.NewestRows

variable {α κ : Type*} [LinearOrder κ] {key : α → κ} {rows list : List α} {row other : α}
  {limit place : ℕ} {kind : α → Bool}

/-- The rows from the newest to the oldest. -/
def newestFirst (key : α → κ) (rows : List α) : List α :=
  rows.insertionSort fun first second => key second ≤ key first

/-- The rows of a kind among the newest ones, oldest first. -/
def listed (key : α → κ) (kind : α → Bool) (limit : ℕ) (rows : List α) : List α :=
  (((newestFirst key rows).take limit).filter kind).reverse

/-- How many rows are newer. -/
def newer (key : α → κ) (rows : List α) (row : α) : ℕ :=
  rows.countP fun other => key row < key other

/-- How many rows of a kind are older. -/
def older (key : α → κ) (kind : α → Bool) (rows : List α) (row : α) : ℕ :=
  rows.countP fun other => kind other && decide (key other < key row)

theorem newestFirst_perm (key : α → κ) (rows : List α) : (newestFirst key rows).Perm rows :=
  List.perm_insertionSort _ rows

/-- With distinct keys the newest rows come strictly first. -/
theorem newestFirst_pairwise (hkeys : (rows.map key).Nodup) :
    (newestFirst key rows).Pairwise fun first second => key second < key first := by
  have htotal : Std.Total fun first second : α => key second ≤ key first :=
    ⟨fun first second => le_total (key second) (key first)⟩
  have htrans : IsTrans α fun first second => key second ≤ key first :=
    ⟨fun _ _ _ hfirst hsecond => hsecond.trans hfirst⟩
  have hsorted := List.pairwise_insertionSort (fun first second => key second ≤ key first) rows
  have hdistinct : ((newestFirst key rows).map key).Nodup :=
    ((newestFirst_perm key rows).map key).nodup_iff.mpr hkeys
  have hne := List.pairwise_map.mp hdistinct
  exact hsorted.imp₂ (fun _ _ hle hne => lt_of_le_of_ne hle (Ne.symm hne)) hne

/-- The place of a row is the number of smaller ones. -/
theorem countP_lt_of_pairwise (key : α → κ)
    (hsorted : list.Pairwise fun first second => key first < key second)
    (hplace : list[place]? = some row) :
    list.countP (fun other => key other < key row) = place := by
  induction list generalizing place with
  | nil => simp at hplace
  | cons first rest ih =>
    obtain ⟨hfirst, hrest⟩ := List.pairwise_cons.mp hsorted
    cases place with
    | zero =>
      obtain rfl : first = row := by simpa using hplace
      have hnone : rest.countP (fun other => key other < key first) = 0 := by
        refine List.countP_eq_zero.mpr fun other hother => ?_
        have hless := hfirst other hother
        simpa using hless.le
      rw [List.countP_cons, hnone]
      simp
    | succ place =>
      have hafter : rest[place]? = some row := by simpa using hplace
      have hless := hfirst row (List.mem_of_getElem? hafter)
      rw [List.countP_cons, ih hrest hafter]
      simp [hless]

/-- A row is among the newest ones if fewer rows than that are newer. -/
theorem mem_take_newestFirst (limit : ℕ) (hkeys : (rows.map key).Nodup) (hrow : row ∈ rows) :
    row ∈ (newestFirst key rows).take limit ↔ newer key rows row < limit := by
  have hsorted := newestFirst_pairwise hkeys
  have hcount : newer key rows row = (newestFirst key rows).countP fun other => key row < key other :=
    ((newestFirst_perm key rows).countP_eq _).symm
  obtain ⟨place, hplace⟩ := List.mem_iff_getElem?.mp ((newestFirst_perm key rows).mem_iff.mpr hrow)
  have hvalue : newer key rows row = place := by
    rw [hcount]
    exact countP_lt_of_pairwise (fun item => OrderDual.toDual (key item)) hsorted hplace
  rw [hvalue]
  constructor
  · intro hmem
    obtain ⟨index, hindex⟩ := List.mem_iff_getElem?.mp hmem
    rw [List.getElem?_take] at hindex
    split at hindex
    · rename_i hless
      have hagain : newer key rows row = index := by
        rw [hcount]
        exact countP_lt_of_pairwise (fun item => OrderDual.toDual (key item)) hsorted hindex
      omega
    · cases hindex
  · intro hless
    refine List.mem_iff_getElem?.mpr ⟨place, ?_⟩
    rw [List.getElem?_take, if_pos hless, hplace]

theorem mem_listed (limit : ℕ) (hkeys : (rows.map key).Nodup) :
    row ∈ listed key kind limit rows ↔
      row ∈ rows ∧ kind row = true ∧ newer key rows row < limit := by
  rw [listed, List.mem_reverse, List.mem_filter]
  constructor
  · rintro ⟨htaken, hkind⟩
    have hrow := (newestFirst_perm key rows).mem_iff.mp (List.mem_of_mem_take htaken)
    exact ⟨hrow, hkind, (mem_take_newestFirst limit hkeys hrow).mp htaken⟩
  · rintro ⟨hrow, hkind, hnewer⟩
    exact ⟨(mem_take_newestFirst limit hkeys hrow).mpr hnewer, hkind⟩

theorem listed_pairwise (hkeys : (rows.map key).Nodup) :
    (listed key kind limit rows).Pairwise fun first second => key first < key second := by
  have hsorted := newestFirst_pairwise hkeys
  exact List.pairwise_reverse.mpr ((hsorted.sublist (List.take_sublist _ _)).filter _)

/-- The place of a listed row, with the older rows of its kind that are not listed, makes up the older
rows of its kind. -/
theorem older_eq_place (hkeys : (rows.map key).Nodup)
    (hplace : (listed key kind limit rows)[place]? = some row) :
    older key kind rows row =
      place + (rows.filter fun other => kind other && decide (limit ≤ newer key rows other)).length := by
  have hmem := List.mem_of_getElem? hplace
  obtain ⟨hrow, -, hnewer⟩ := (mem_listed limit hkeys).mp hmem
  have hlisted := countP_lt_of_pairwise key (listed_pairwise hkeys) hplace
  rw [listed, List.countP_reverse, List.countP_filter] at hlisted
  have hwhole : older key kind rows row =
      ((newestFirst key rows).take limit ++ (newestFirst key rows).drop limit).countP
        fun other => kind other && decide (key other < key row) := by
    rw [List.take_append_drop]
    exact ((newestFirst_perm key rows).countP_eq _).symm
  have hwindow : ((newestFirst key rows).take limit).countP
      (fun other => kind other && decide (key other < key row)) = place := by
    rw [← hlisted]
    refine List.countP_congr fun other _ => ?_
    simp [and_comm]
  have hmissing : (rows.filter fun other => kind other && decide (limit ≤ newer key rows other)).length =
      ((newestFirst key rows).take limit ++ (newestFirst key rows).drop limit).countP
        fun other => kind other && decide (limit ≤ newer key rows other) := by
    rw [List.take_append_drop, ← List.countP_eq_length_filter]
    exact ((newestFirst_perm key rows).countP_eq _).symm
  have hnodup : (newestFirst key rows).Nodup :=
    (newestFirst_perm key rows).nodup_iff.mpr hkeys.of_map
  have hsplit : ∀ other ∈ (newestFirst key rows).drop limit, other ∈ rows ∧
      limit ≤ newer key rows other := by
    intro other hother
    have hmember := (newestFirst_perm key rows).mem_iff.mp (List.mem_of_mem_drop hother)
    refine ⟨hmember, ?_⟩
    by_contra hfew
    have htaken := (mem_take_newestFirst limit hkeys hmember).mpr (by omega)
    exact (List.disjoint_take_drop hnodup (Nat.le_refl limit)) htaken hother
  rw [hwhole, hmissing, List.countP_append, List.countP_append, hwindow]
  have hnone : ((newestFirst key rows).take limit).countP
      (fun other => kind other && decide (limit ≤ newer key rows other)) = 0 := by
    refine List.countP_eq_zero.mpr fun other hother => ?_
    have hmember := (newestFirst_perm key rows).mem_iff.mp (List.mem_of_mem_take hother)
    have hless := (mem_take_newestFirst limit hkeys hmember).mp hother
    simp [hless]
  rw [hnone, Nat.zero_add]
  congr 1
  refine List.countP_congr fun other hother => ?_
  obtain ⟨hmember, hfar⟩ := hsplit other hother
  have hbelow : key other < key row := by
    by_contra hnot
    have hle : newer key rows other ≤ newer key rows row := by
      refine List.countP_mono_left fun third _ hthird => ?_
      rw [decide_eq_true_eq] at hthird ⊢
      exact (not_lt.mp hnot).trans_lt hthird
    omega
  simp [hbelow, hfar]

/-- The place of a row is the number of older rows of its kind if and only if every row of its kind is
among the newest ones. -/
theorem place_eq_older_iff (limit : ℕ) (kind : α → Bool) (hkeys : (rows.map key).Nodup)
    (hrow : row ∈ rows) (hkind : kind row = true) :
    (∃ place, (listed key kind limit rows)[place]? = some row ∧ place = older key kind rows row) ↔
      ∀ other ∈ rows, kind other = true → newer key rows other < limit := by
  constructor
  · rintro ⟨place, hplace, hvalue⟩ other hother hsame
    have hcount := older_eq_place hkeys hplace
    have hnone : (rows.filter fun other => kind other && decide (limit ≤ newer key rows other)) = [] :=
      List.length_eq_zero_iff.mp (by omega)
    have hout := List.filter_eq_nil_iff.mp hnone other hother
    simp only [hsame, Bool.true_and, decide_eq_true_eq] at hout
    omega
  · intro hall
    have hmem := (mem_listed limit hkeys).mpr ⟨hrow, hkind, hall row hrow hkind⟩
    obtain ⟨place, hplace⟩ := List.mem_iff_getElem?.mp hmem
    refine ⟨place, hplace, ?_⟩
    have hnone : (rows.filter fun other => kind other && decide (limit ≤ newer key rows other)) = [] := by
      refine List.filter_eq_nil_iff.mpr fun other hother hout => ?_
      obtain ⟨hsame, hfar⟩ := Bool.and_eq_true_iff.mp hout
      have hfew := hall other hother hsame
      rw [decide_eq_true_eq] at hfar
      omega
    have hcount := older_eq_place hkeys hplace
    rw [hnone, List.length_nil] at hcount
    omega

end Awman.NewestRows
