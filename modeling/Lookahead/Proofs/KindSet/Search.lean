import Lookahead.KindSet

/-!
# Searching an ascending array

A search by halving keeps all codes below its window less than the one it looks for, and all codes
above it greater (`right_searchBetween`). So in an ascending array it finds the code if it is there,
and otherwise the one slot in which the code keeps the array ascending (`search_cases`). Taking a
slot out keeps it ascending as well (`ordered_eraseIdx`).
-/

namespace Lookahead.Ascending

/-- The codes are in strictly ascending order. -/
abbrev Ordered (kinds : Array Kind) : Prop := kinds.toList.Pairwise (· < ·)

variable {kinds : Array Kind} {kind : Kind}

theorem ordered_iff :
    Ordered kinds ↔ ∀ i j (_ : i < j) (hj : j < kinds.size), kinds[i] < kinds[j] := by
  rw [Ordered, List.pairwise_iff_getElem]
  exact ⟨fun h i j less hj => h i j (Nat.lt_trans less hj) hj less,
    fun h i j _ hj less => h i j less hj⟩

theorem Ordered.lt (ordered : Ordered kinds) {i j : Nat} (less : i < j) (hj : j < kinds.size) :
    kinds[i] < kinds[j] :=
  ordered_iff.1 ordered i j less hj

/-- In a found slot is the code. A vacant one has the lesser codes before it and the greater ones
after it. -/
def Place.Right (kind : Kind) : Place kinds → Prop
  | .found i => kinds[i] = kind
  | .vacant i =>
    (∀ j (hj : j < kinds.size), j < i → kinds[j] < kind) ∧
      ∀ j (hj : j < kinds.size), i ≤ j → kind < kinds[j]

theorem right_searchBetween (ordered : Ordered kinds) {low high : Nat} {le : low ≤ high}
    {inside : high ≤ kinds.size}
    (below : ∀ j (hj : j < kinds.size), j < low → kinds[j] < kind)
    (above : ∀ j (hj : j < kinds.size), high ≤ j → kind < kinds[j]) :
    (searchBetween kinds kind low high le inside).Right kind := by
  fun_induction searchBetween kinds kind low high le inside with
  | case1 low high le inside left middle bound less ih =>
    -- nothing up to the middle can be the code
    refine ih (fun j hj lower => ?_) above
    rcases Nat.lt_or_eq_of_le (Nat.le_of_lt_succ lower) with before | rfl
    · exact UInt32.lt_trans (ordered.lt before bound) less
    · exact less
  | case2 low high le inside left middle bound _ greater ih =>
    -- nothing from the middle on can be the code
    refine ih below fun j hj upper => ?_
    rcases Nat.lt_or_eq_of_le upper with after | rfl
    · exact UInt32.lt_trans greater (ordered.lt after hj)
    · exact greater
  | case3 low high le inside left middle bound notLess notGreater =>
    exact UInt32.le_antisymm (UInt32.not_lt.1 notGreater) (UInt32.not_lt.1 notLess)
  | case4 low high le inside closed =>
    have same : high = low := by omega
    subst same
    exact ⟨below, above⟩

/-- A code that is put in a vacant slot leaves the array ascending. -/
theorem ordered_insertIdx (ordered : Ordered kinds) {i : Fin (kinds.size + 1)}
    (vacant : (Place.vacant i).Right kind) : Ordered (kinds.insertIdx i kind) := by
  obtain ⟨below, above⟩ := vacant
  refine ordered_iff.2 fun j k less hk => ?_
  rw [Array.size_insertIdx] at hk
  rw [Array.getElem_insertIdx, Array.getElem_insertIdx]
  rcases Nat.lt_trichotomy j i with before | here | after
  · rw [dif_pos before]
    rcases Nat.lt_trichotomy k i with before' | here' | after'
    · rw [dif_pos before']
      exact ordered.lt less (by omega)
    · rw [dif_neg (by omega), dif_pos here']
      exact below j (by omega) before
    · rw [dif_neg (by omega), dif_neg (by omega)]
      exact ordered.lt (by omega) (by omega)
  · rw [dif_neg (by omega), dif_pos here, dif_neg (by omega), dif_neg (by omega)]
    exact above (k - 1) (by omega) (by omega)
  · rw [dif_neg (by omega), dif_neg (by omega), dif_neg (by omega), dif_neg (by omega)]
    exact ordered.lt (by omega) (by omega)

theorem ordered_eraseIdx (ordered : Ordered kinds) (i : Fin kinds.size) :
    Ordered (kinds.eraseIdx i) := by
  have fewer : (kinds.eraseIdx i).toList.Sublist kinds.toList := by
    rw [Array.toList_eraseIdx]
    exact List.eraseIdx_sublist _ _
  exact List.Pairwise.sublist fewer ordered

/-- All codes but the one in the slot are left. -/
theorem mem_eraseIdx (ordered : Ordered kinds) (i : Fin kinds.size) {k : Kind} :
    k ∈ kinds.eraseIdx i ↔ k ≠ kinds[i] ∧ k ∈ kinds := by
  rw [Array.mem_eraseIdx_iff_getElem, Array.mem_iff_getElem]
  constructor
  · rintro ⟨j, hj, other, rfl⟩
    refine ⟨fun same => ?_, j, hj, rfl⟩
    rcases Nat.lt_or_gt_of_ne other with before | after
    · exact UInt32.ne_of_lt (ordered.lt before i.2) same
    · exact UInt32.ne_of_lt (ordered.lt after hj) same.symm
  · rintro ⟨other, j, hj, rfl⟩
    refine ⟨j, hj, ?_, rfl⟩
    rintro rfl
    exact other rfl

/-- A code is found in its slot if it is there, and otherwise a slot is found for it. -/
theorem search_cases (ordered : Ordered kinds) (kind : Kind) :
    (∃ i, search kinds kind = .found i ∧ kinds[i] = kind) ∨
      ∃ i, search kinds kind = .vacant i ∧ kind ∉ kinds ∧ Ordered (kinds.insertIdx i kind) := by
  have right : (search kinds kind).Right kind :=
    right_searchBetween ordered (fun j _ none => absurd none (Nat.not_lt_zero j))
      fun j hj all => absurd hj (Nat.not_lt_of_le all)
  cases searched : search kinds kind with
  | found i =>
    rw [searched] at right
    exact Or.inl ⟨i, rfl, right⟩
  | vacant i =>
    rw [searched] at right
    refine Or.inr ⟨i, rfl, fun member => ?_, ordered_insertIdx ordered right⟩
    obtain ⟨j, hj, rfl⟩ := Array.mem_iff_getElem.1 member
    rcases Nat.lt_or_ge j i with before | after
    · exact UInt32.lt_irrefl _ (right.1 j hj before)
    · exact UInt32.lt_irrefl _ (right.2 j hj after)

end Lookahead.Ascending
