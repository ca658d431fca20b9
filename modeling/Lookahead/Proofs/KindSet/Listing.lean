import Mathlib.Data.List.Sort
import Lookahead.Proofs.KindSet.Members

/-!
# Listing a set of kinds

The bits of a word are listed in ascending order, the words one after the other, and behind them the
ascending array, all of whose codes are too large for the words. So the list of a well-formed set
ascends and holds the members and nothing else (`pairwise_toList`, `mem_toList`).

An ascending list is told by its elements. So sets with the same members are the same, whatever room
their words take up (`same_iff`), and `toList_of_history` says this of all sets that can be made.
-/

namespace Lookahead

/-! ## Bits of a word -/

namespace Word

theorem mem_bits {w : UInt64} {i : Nat} : i ∈ bits w ↔ i < 64 ∧ has w i = true := by
  rw [bits, List.mem_filter, List.mem_range]

theorem pairwise_bits (w : UInt64) : (bits w).Pairwise (· < ·) :=
  List.pairwise_lt_range.filter _

/-- A word without bits is zero. -/
theorem bits_eq_nil_iff {w : UInt64} : bits w = [] ↔ w = 0 := by
  constructor
  · intro none
    rw [← UInt64.toBitVec_inj]
    apply BitVec.eq_of_getLsbD_eq
    intro i hi
    have off : has w i = false := by
      rw [Bool.eq_false_iff]
      intro on
      have member : i ∈ bits w := mem_bits.2 ⟨hi, on⟩
      rw [none] at member
      cases member
    rw [← has_eq_getLsbD hi, ← has_eq_getLsbD hi, off, has_zero]
  · rintro rfl
    rw [bits, List.filter_eq_nil_iff]
    intro i _
    rw [has_zero]
    exact Bool.false_ne_true

end Word

namespace KindSet

/-! ## Codes and their bits -/

/-- A code is listed for the bit that it is kept as. -/
theorem ofNat_eq_iff {word bit : Nat} (hw : word < 64) (hb : bit < 64) {k : Kind} :
    UInt32.ofNat (64 * word + bit) = k ↔ wordOf k = word ∧ bitOf k = bit := by
  have small : 64 * word + bit < UInt32.size := by
    show 64 * word + bit < 4294967296
    omega
  rw [← UInt32.toNat_inj, UInt32.toNat_ofNat_of_lt' small, wordOf, bitOf]
  omega

theorem lt_of_wordOf_lt {k l : Kind} (h : wordOf k < wordOf l) : k < l := by
  unfold wordOf at h
  rw [UInt32.lt_iff_toNat_lt]
  omega

/-! ## The dense half -/

/-- Listed are the codes whose bits are set. -/
theorem mem_denseFrom {ws : List UInt64} {base : Nat} (room : base + ws.length ≤ 64) {k : Kind} :
    k ∈ denseFrom base ws ↔
      base ≤ wordOf k ∧ ws[wordOf k - base]?.any (Word.has · (bitOf k)) = true := by
  induction ws generalizing base with
  | nil => simp [denseFrom]
  | cons w ws ih =>
    rw [List.length_cons] at room
    have first : k ∈ (Word.bits w).map (fun i => UInt32.ofNat (64 * base + i)) ↔
        wordOf k = base ∧ Word.has w (bitOf k) = true := by
      rw [List.mem_map]
      constructor
      · rintro ⟨i, member, code⟩
        obtain ⟨hi, on⟩ := Word.mem_bits.1 member
        obtain ⟨word, rfl⟩ := (ofNat_eq_iff (by omega) hi).1 code
        exact ⟨word, on⟩
      · rintro ⟨word, on⟩
        exact ⟨bitOf k, Word.mem_bits.2 ⟨bitOf_lt k, on⟩,
          (ofNat_eq_iff (by omega) (bitOf_lt k)).2 ⟨word, rfl⟩⟩
    rw [denseFrom, List.mem_append, first, ih (by omega)]
    rcases Nat.lt_trichotomy (wordOf k) base with below | here | above
    · constructor
      · rintro (⟨same, -⟩ | ⟨further, -⟩) <;> omega
      · rintro ⟨further, -⟩
        omega
    · subst here
      simp
    · have next : wordOf k - base = wordOf k - (base + 1) + 1 := by omega
      rw [next, List.getElem?_cons_succ]
      constructor
      · rintro (⟨same, -⟩ | ⟨-, on⟩)
        · omega
        · exact ⟨Nat.le_of_lt above, on⟩
      · rintro ⟨-, on⟩
        exact Or.inr ⟨above, on⟩

theorem pairwise_denseFrom {ws : List UInt64} {base : Nat} (room : base + ws.length ≤ 64) :
    (denseFrom base ws).Pairwise (· < ·) := by
  induction ws generalizing base with
  | nil => exact List.Pairwise.nil
  | cons w ws ih =>
    rw [List.length_cons] at room
    rw [denseFrom, List.pairwise_append]
    refine ⟨?_, ih (by omega), ?_⟩
    · rw [List.pairwise_map]
      refine (Word.pairwise_bits w).imp_of_mem fun {i j} hi hj less => ?_
      have hi' : i < 64 := (Word.mem_bits.1 hi).1
      have hj' : j < 64 := (Word.mem_bits.1 hj).1
      rw [UInt32.lt_iff_toNat_lt, UInt32.toNat_ofNat_of_lt', UInt32.toNat_ofNat_of_lt']
      · omega
      all_goals
        show _ < 4294967296
        omega
    · intro k hk l hl
      obtain ⟨i, member, code⟩ := List.mem_map.1 hk
      obtain ⟨word, -⟩ := (ofNat_eq_iff (by omega) (Word.mem_bits.1 member).1).1 code
      have further : base + 1 ≤ wordOf l := ((mem_denseFrom (by omega)).1 hl).1
      exact lt_of_wordOf_lt (by omega)

theorem denseFrom_eq_nil_iff {ws : List UInt64} {base : Nat} :
    denseFrom base ws = [] ↔ ∀ w ∈ ws, w = 0 := by
  induction ws generalizing base with
  | nil => simp [denseFrom]
  | cons w ws ih =>
    rw [denseFrom, List.append_eq_nil_iff, List.map_eq_nil_iff, Word.bits_eq_nil_iff, ih,
      List.forall_mem_cons]

theorem length_denseFrom (ws : List UInt64) (base n : Nat) :
    ws.foldr (fun w n => (Word.bits w).length + n) n = (denseFrom base ws).length + n := by
  induction ws generalizing base with
  | nil => simp [denseFrom]
  | cons w ws ih =>
    rw [List.foldr_cons, ih (base + 1), denseFrom, List.length_append, List.length_map,
      Nat.add_assoc]

/-! ## Both halves -/

section

variable {s t : KindSet}

theorem mem_dense_iff (h : s.WellFormed) {k : Kind} :
    k ∈ denseFrom 0 s.words.toList ↔ s.hasBit k = true := by
  have room : 0 + s.words.toList.length ≤ 64 := by
    rw [Nat.zero_add, Array.length_toList]
    exact h.words
  rw [mem_denseFrom room, Nat.sub_zero, Array.getElem?_toList, hasBit]
  exact and_iff_right (Nat.zero_le _)

theorem isDense_of_hasBit (h : s.WellFormed) {k : Kind} (on : s.hasBit k = true) :
    isDense k = true := by
  have word : wordOf k < s.words.size := room_of_hasBit on
  have few := h.words
  unfold wordOf at word
  refine decide_eq_true ?_
  show k.toNat < 4096
  omega

/-- The members are listed, and nothing else. -/
theorem mem_toList (h : s.WellFormed) {k : Kind} : k ∈ s.toList ↔ s.contains k = true := by
  rw [toList, List.mem_append, mem_dense_iff h, Array.mem_toList_iff, contains_eq h.ordered]
  cases half : isDense k with
  | true =>
    rw [if_pos rfl]
    refine or_iff_left fun member => ?_
    rw [h.large k member] at half
    cases half
  | false =>
    rw [if_neg Bool.false_ne_true, decide_eq_true_iff]
    refine or_iff_right fun on => ?_
    rw [isDense_of_hasBit h on] at half
    cases half

theorem pairwise_toList (h : s.WellFormed) : s.toList.Pairwise (· < ·) := by
  rw [toList, List.pairwise_append]
  refine ⟨pairwise_denseFrom ?_, h.ordered, fun k hk l hl => ?_⟩
  · rw [Nat.zero_add, Array.length_toList]
    exact h.words
  · -- a dense code is below the bound, and those in the array are not
    have small : k.toNat < 4096 :=
      of_decide_eq_true (isDense_of_hasBit h ((mem_dense_iff h).1 hk))
    have large : ¬ l.toNat < 4096 := of_decide_eq_false (h.large l (Array.mem_toList_iff.1 hl))
    rw [UInt32.lt_iff_toNat_lt]
    omega

theorem size_eq (s : KindSet) : s.size = s.toList.length := by
  rw [size, ← Array.foldr_toList, length_denseFrom _ 0, toList, List.length_append,
    (Array.length_toList : s.sparse.toList.length = _)]

theorem isEmpty_iff_toList : s.isEmpty = true ↔ s.toList = [] := by
  rw [isEmpty, toList, Bool.and_eq_true, Array.isEmpty_iff, List.append_eq_nil_iff,
    denseFrom_eq_nil_iff, Array.toList_eq_nil_iff, Array.all_eq_true']
  simp only [beq_iff_eq, Array.mem_toList_iff]
  exact and_comm

theorem isEmpty_iff (h : s.WellFormed) : s.isEmpty = true ↔ ∀ k, s.contains k = false := by
  rw [isEmpty_iff_toList, List.eq_nil_iff_forall_not_mem]
  refine forall_congr' fun k => ?_
  rw [mem_toList h, Bool.not_eq_true]

/-- Sets are the same if they have the same members. -/
theorem same_iff (h : s.WellFormed) (h' : t.WellFormed) :
    s.same t = true ↔ ∀ k, s.contains k = t.contains k := by
  rw [same, beq_iff_eq]
  constructor
  · intro listed k
    rw [Bool.eq_iff_iff, ← mem_toList h, ← mem_toList h', listed]
  · intro agree
    refine (pairwise_toList h).eq_of_mem_iff (pairwise_toList h') fun k => ?_
    rw [mem_toList h, mem_toList h', agree]

end

/-- However a set was made, its list is in strictly ascending order, holds the members and nothing
else, and is as long as the set says; a set is empty if it has no members. Two sets are the same if
and only if they have the same members, however each of them was made. So lists are collected to the
same set if they have the same elements, in whatever order and however often, and the list of a set
is collected to the same set again. -/
theorem toList_of_history (h : History) :
    h.set.toList.Pairwise (· < ·) ∧
      (∀ k, k ∈ h.set.toList ↔ h.set.contains k = true) ∧
      h.set.size = h.set.toList.length ∧
      (h.set.isEmpty = true ↔ ∀ k, h.set.contains k = false) ∧
      (∀ g : History, h.set.same g.set = true ↔ ∀ k, h.set.contains k = g.set.contains k) ∧
      (∀ kinds kinds' : List Kind,
        (ofList kinds).same (ofList kinds') = true ↔ ∀ k, k ∈ kinds ↔ k ∈ kinds') ∧
      (ofList h.set.toList).same h.set = true := by
  have wellFormed : h.set.WellFormed := h.set_spec.1
  have collected (kinds : List Kind) := ofList_spec kinds
  refine ⟨pairwise_toList wellFormed, fun k => mem_toList wellFormed, size_eq _,
    isEmpty_iff wellFormed, fun g => same_iff wellFormed g.set_spec.1, fun kinds kinds' => ?_, ?_⟩
  · rw [same_iff (collected kinds).1 (collected kinds').1]
    refine forall_congr' fun k => ?_
    rw [Bool.eq_iff_iff, (collected kinds).2, (collected kinds').2]
  · rw [same_iff (collected _).1 wellFormed]
    intro k
    rw [Bool.eq_iff_iff, (collected _).2, mem_toList wellFormed]

end KindSet

end Lookahead
