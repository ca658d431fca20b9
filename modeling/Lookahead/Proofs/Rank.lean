import Mathlib.Order.Monotone.Basic
import Lookahead.Proofs.Position

/-!
# Ranks

A parser sees the buffered tokens on the tuned channel (`visibleTokens`). The rank of a slot is the
number of them in the slots before it. Whatever a search finds can be told by ranks alone: a search
forward keeps the rank (`rank_target`), a step over a visible token raises it by one
(`rank_succ_of_isVisible`), and what is in a settled slot is the visible token of that rank
(`Settled.getElem?_eq`). The buffered tokens on other channels leave no trace.
-/

namespace Lookahead.Stream

variable {σ : Type} {s t : Stream σ}

/-- Whether a token is on the tuned channel. -/
def hears (s : Stream σ) (t : Token) : Bool := t.channel == s.policy.channel

/-- The buffered tokens on the tuned channel. -/
def visibleTokens (s : Stream σ) : List Token := s.buffer.toList.filter s.hears

/-- The number of visible tokens before slot `i`. -/
def rank (s : Stream σ) (i : Nat) : Nat := (s.buffer.toList.take i).countP s.hears

/-! ## Counting -/

@[simp] theorem rank_zero (s : Stream σ) : s.rank 0 = 0 := by
  rw [rank, List.take_zero, List.countP_nil]

theorem rank_succ (s : Stream σ) (i : Nat) :
    s.rank (i + 1) = s.rank i + if s.isVisible i then 1 else 0 := by
  rw [rank, rank, List.take_add_one, List.countP_append, isVisible, Array.getElem?_toList]
  cases s.buffer[i]? with
  | none => rfl
  | some t => rw [Option.toList_some, List.countP_singleton, Option.any_some, hears]

theorem rank_succ_of_isVisible {i : Nat} (h : s.isVisible i = true) :
    s.rank (i + 1) = s.rank i + 1 := by
  rw [rank_succ, if_pos h]

theorem rank_le {i j : Nat} (h : i ≤ j) : s.rank i ≤ s.rank j := by
  have step (n : Nat) : s.rank n ≤ s.rank (n + 1) := by
    rw [rank_succ]
    exact Nat.le_add_right _ _
  exact monotone_nat_of_le_succ step h

theorem rank_size (s : Stream σ) : s.rank s.size = s.visibleTokens.length := by
  rw [rank, size, ← Array.length_toList, List.take_length, List.countP_eq_length_filter,
    visibleTokens]

theorem rank_le_length (s : Stream σ) (i : Nat) : s.rank i ≤ s.visibleTokens.length := by
  rw [rank, List.countP_eq_length_filter, visibleTokens]
  exact ((List.take_sublist i _).filter _).length_le

/-- There is a visible token of the rank of a visible slot. -/
theorem rank_lt_of_isVisible {i : Nat} (h : s.isVisible i = true) :
    s.rank i < s.visibleTokens.length := by
  have next : s.rank (i + 1) = s.rank i + 1 := rank_succ_of_isVisible h
  have most : s.rank (i + 1) ≤ s.visibleTokens.length := s.rank_le_length (i + 1)
  omega

/-- Hidden slots do not count. -/
theorem rank_eq_of_hidden {i j : Nat} (le : i ≤ j)
    (hidden : ∀ k, i ≤ k → k < j → s.isVisible k = false) : s.rank j = s.rank i := by
  induction le with
  | refl => rfl
  | @step j le ih =>
    have last : s.isVisible j = false := hidden j le (Nat.lt_succ_self j)
    rw [rank_succ, last, ih fun k h₁ h₂ => hidden k h₁ (Nat.lt_succ_of_lt h₂)]
    rfl

/-- The token in a visible slot is the visible token of its rank. -/
theorem getElem?_rank {i : Nat} (h : s.isVisible i = true) :
    s.visibleTokens[s.rank i]? = s.buffer[i]? := by
  obtain ⟨t, held, channel⟩ := isVisible_iff.1 h
  have heard : s.hears t = true := beq_iff_eq.2 channel
  rw [← Array.getElem?_toList] at held
  obtain ⟨below, rfl⟩ := List.getElem?_eq_some_iff.1 held
  have split : s.visibleTokens = (s.buffer.toList.take i).filter s.hears ++
      s.buffer.toList[i] :: (s.buffer.toList.drop (i + 1)).filter s.hears := by
    rw [← List.filter_cons_of_pos heard, List.getElem_cons_drop, ← List.filter_append,
      List.take_append_drop, visibleTokens]
  rw [← Array.getElem?_toList, held, split, rank, List.countP_eq_length_filter,
    List.getElem?_append_right (Nat.le_refl _), Nat.sub_self, List.getElem?_cons_zero]

/-! ## Growing buffers -/

theorem Within.hears_eq (h : s.Within t) : t.hears = s.hears := by
  funext token
  rw [hears, hears, h.channel]

/-- What is buffered later does not change the rank of a slot. -/
theorem Within.rank_eq (h : s.Within t) {i : Nat} (hi : i ≤ s.size) : t.rank i = s.rank i := by
  obtain ⟨rest, grown⟩ := h.isPrefix
  have inside : i ≤ s.buffer.toList.length := hi
  rw [rank, rank, ← grown, List.take_append_of_le_length inside, h.hears_eq]

/-- Visible tokens that are buffered later come after the others. -/
theorem Within.visibleTokens_prefix (h : s.Within t) : s.visibleTokens <+: t.visibleTokens := by
  rw [visibleTokens, visibleTokens, h.hears_eq]
  exact h.isPrefix.filter _

/-! ## Searches by rank -/

theorem sees_iff {i : Nat} : sees i s = true ↔ s.rank i < s.visibleTokens.length := by
  constructor
  · intro seen
    obtain ⟨k, hk, visible⟩ := visibleFrom?_isSome.1 seen
    exact Nat.lt_of_le_of_lt (rank_le hk) (rank_lt_of_isVisible visible)
  · intro lt
    by_contra unseen
    rw [sees, Bool.not_eq_true, Option.isSome_eq_false_iff, Option.isNone_iff_eq_none,
      visibleFrom?_eq_none] at unseen
    have inside : i ≤ s.size := by
      by_contra beyond
      have most : s.rank s.size ≤ s.rank i := rank_le (by omega)
      rw [rank_size] at most
      omega
    have none_left : s.rank s.size = s.rank i :=
      rank_eq_of_hidden inside fun k hk _ => unseen k hk
    rw [rank_size] at none_left
    omega

/-- What a search forward finds has the rank of the slot it starts from. -/
theorem rank_target {i : Nat} (hi : i ≤ s.size) : s.rank (target i s) = s.rank i := by
  rcases target_cases s i with ⟨le, -, hidden⟩ | ⟨atEnd, hidden⟩
  · exact rank_eq_of_hidden le hidden
  · rw [atEnd]
    exact rank_eq_of_hidden hi fun k hk _ => hidden k hk

namespace Settled

variable {i : Nat}

theorem lt_size_iff (h : s.Settled i) : i < s.size ↔ s.rank i < s.visibleTokens.length := by
  rcases h with visible | ⟨rfl, -⟩
  · exact iff_of_true (lt_size_of_isVisible visible) (rank_lt_of_isVisible visible)
  · rw [rank_size]
    exact iff_of_false (Nat.lt_irrefl _) (Nat.lt_irrefl _)

/-- What is in a settled slot is the visible token of its rank. -/
theorem getElem?_eq (h : s.Settled i) : s.buffer[i]? = s.visibleTokens[s.rank i]? := by
  rcases h with visible | ⟨rfl, -⟩
  · exact (getElem?_rank visible).symm
  · have beyond : s.buffer[s.size]? = none := Array.getElem?_eq_none (Nat.le_refl _)
    rw [beyond, rank_size, List.getElem?_eq_none (Nat.le_refl _)]

theorem isVisible (h : s.Settled i) (below : i < s.size) : s.isVisible i = true := by
  rcases h with visible | ⟨rfl, -⟩
  · exact visible
  · exact absurd below (Nat.lt_irrefl _)

end Settled

/-- A search backward finds the visible slot one rank lower, unless no rank is lower. -/
theorem visibleBefore?_rank (s : Stream σ) (i : Nat) :
    (∃ j, s.visibleBefore? i = some j ∧ s.isVisible j = true ∧ s.rank i = s.rank j + 1) ∨
      s.visibleBefore? i = none ∧ s.rank i = 0 := by
  induction i with
  | zero => exact Or.inr ⟨rfl, s.rank_zero⟩
  | succ i ih =>
    cases visible : s.isVisible i with
    | true =>
      refine Or.inl ⟨i, ?_, visible, rank_succ_of_isVisible visible⟩
      rw [visibleBefore?, visible, if_pos rfl]
    | false =>
      have same : s.rank (i + 1) = s.rank i := by rw [rank_succ, visible]; rfl
      have further : s.visibleBefore? (i + 1) = s.visibleBefore? i := by
        rw [visibleBefore?, visible, if_neg Bool.false_ne_true]
      rw [same, further]
      exact ih

/-- Steps back lead to the visible token that many ranks lower. -/
theorem stepsBack?_rank (s : Stream σ) (k i : Nat) :
    (s.stepsBack? (k + 1) i).bind (fun j => s.buffer[j]?) =
      if k < s.rank i then s.visibleTokens[s.rank i - (k + 1)]? else none := by
  induction k generalizing i with
  | zero =>
    rcases s.visibleBefore?_rank i with ⟨j, before, visible, next⟩ | ⟨before, zero⟩
    · have back : s.stepsBack? 1 i = some j := by simp only [stepsBack?, before]
      rw [back, Option.bind_some, next, if_pos (Nat.succ_pos _), Nat.add_sub_cancel,
        getElem?_rank visible]
    · have back : s.stepsBack? 1 i = none := by rw [stepsBack?, before]
      rw [back, Option.bind_none, zero, if_neg (Nat.lt_irrefl 0)]
  | succ k ih =>
    rcases s.visibleBefore?_rank i with ⟨j, before, -, next⟩ | ⟨before, zero⟩
    · have back : s.stepsBack? (k + 2) i = s.stepsBack? (k + 1) j := by rw [stepsBack?, before]
      rw [back, ih, next, Nat.add_sub_add_right]
      simp only [Nat.add_lt_add_iff_right]
    · have back : s.stepsBack? (k + 2) i = none := by rw [stepsBack?, before]
      rw [back, Option.bind_none, zero, if_neg (Nat.not_lt_zero _)]

end Lookahead.Stream
