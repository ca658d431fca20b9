import Lookahead.Proofs.Pulls

/-!
# Searches for visible slots

`nextVisible` stops as soon as the token buffered last is visible and far enough. Until then no slot
from `i` on is visible, so it is the search for any visible slot from `i` on
(`perform_nextVisible`), and it comes back with a settled slot (`nextVisible_ok`). From it follow
the slots that `position` and `stepsAhead` come back with.
-/

namespace Lookahead.Stream

variable {σ : Type}

theorem index_of_some {s : Stream σ} {p : Nat} (placed : s.cursor = some p) : s.index = p := by
  rw [index, placed, Option.getD_some]

theorem index_of_none {s : Stream σ} (unset : s.cursor = none) : s.index = 0 := by
  rw [index, unset, Option.getD_none]

/-- Whether some slot from `i` on is visible. -/
def sees (i : Nat) (s : Stream σ) : Bool := (s.visibleFrom? i).isSome

/-- The first visible slot from `i` on, or the size of the buffer if there is none. -/
def target (i : Nat) (s : Stream σ) : Nat := (s.visibleFrom? i).getD s.size

theorem sees_of_endsVisibly {s : Stream σ} {i : Nat} (h : s.endsVisibly i = true) :
    sees i s = true := by
  obtain ⟨hi, visible⟩ := endsVisibly_iff.1 h
  exact visibleFrom?_isSome.2 ⟨s.size - 1, by omega, visible⟩

theorem target_cases (s : Stream σ) (i : Nat) :
    (i ≤ target i s ∧ s.isVisible (target i s) = true ∧
        ∀ k, i ≤ k → k < target i s → s.isVisible k = false) ∨
      target i s = s.size ∧ ∀ k, i ≤ k → s.isVisible k = false := by
  rcases found : s.visibleFrom? i with _ | j
  · exact Or.inr ⟨by rw [target, found, Option.getD_none], visibleFrom?_eq_none.1 found⟩
  · have here : target i s = j := by rw [target, found, Option.getD_some]
    rw [here]
    exact Or.inl (visibleFrom?_eq_some.1 found)

/-- A search that is over has come to the first visible slot, or to the end of a source that has
ended without one. -/
theorem first_target {s : Stream σ} {i : Nat} (stops : (s.isDry || sees i s) = true) :
    (i ≤ target i s ∧ s.isVisible (target i s) = true ∧
        ∀ k, i ≤ k → k < target i s → s.isVisible k = false) ∨
      target i s = s.size ∧ s.isDry = true ∧ ∀ k, i ≤ k → s.isVisible k = false := by
  rcases target_cases s i with first | ⟨atEnd, hidden⟩
  · exact Or.inl first
  · have unseen : sees i s = false := by
      rw [sees, visibleFrom?_eq_none.2 hidden, Option.isSome_none]
    rw [unseen, Bool.or_false] at stops
    exact Or.inr ⟨atEnd, stops, hidden⟩

theorem settled_target {s : Stream σ} {i : Nat} (stops : (s.isDry || sees i s) = true) :
    s.Settled (target i s) := by
  rcases first_target stops with ⟨-, visible, -⟩ | ⟨atEnd, dry, -⟩
  · exact Or.inl visible
  · exact Or.inr ⟨atEnd, dry⟩

theorem le_target {s : Stream σ} {i : Nat} (hi : i ≤ s.size) : i ≤ target i s := by
  rcases target_cases s i with ⟨le, -, -⟩ | ⟨atEnd, -⟩
  · exact le
  · rw [atEnd]
    exact hi

/-- From a later slot the first visible one is no earlier. -/
theorem target_mono (s : Stream σ) {i j : Nat} (le : i ≤ j) : target i s ≤ target j s := by
  rcases target_cases s i with ⟨-, visible, hidden⟩ | ⟨atEnd, hidden⟩
  all_goals rcases target_cases s j with ⟨le', visible', -⟩ | ⟨atEnd', -⟩
  · by_contra beyond
    have unseen := hidden (target j s) (Nat.le_trans le le') (Nat.lt_of_not_le beyond)
    rw [visible'] at unseen
    cases unseen
  · rw [atEnd']
    exact Nat.le_of_lt (lt_size_of_isVisible visible)
  · have unseen := hidden (target j s) (Nat.le_trans le le')
    rw [visible'] at unseen
    cases unseen
  · rw [atEnd, atEnd']

/-- The search from a settled slot stays there. -/
theorem target_of_settled {s : Stream σ} {i : Nat} (h : s.Settled i) :
    (s.isDry || sees i s) = true ∧ target i s = i := by
  rw [Bool.or_eq_true, sees, target]
  rcases h with visible | ⟨rfl, dry⟩
  · have here : s.visibleFrom? i = some i :=
      visibleFrom?_eq_some.2 ⟨Nat.le_refl i, visible, fun k hk₁ hk₂ => by omega⟩
    rw [here]
    exact ⟨Or.inr rfl, rfl⟩
  · refine ⟨Or.inl dry, ?_⟩
    rcases beyond : s.visibleFrom? s.size with _ | j
    · rfl
    · obtain ⟨le, visible, -⟩ := visibleFrom?_eq_some.1 beyond
      exact absurd (lt_size_of_isVisible visible) (by omega)

theorem lasting_sees (i : Nat) : Lasting (σ := σ) (sees i) (target i) where
  ready_grown := by
    intro s t grown seen
    obtain ⟨k, hk, visible⟩ := visibleFrom?_isSome.1 seen
    exact visibleFrom?_isSome.2 ⟨k, hk, grown.isVisible visible⟩
  read_grown := by
    intro s t grown seen
    obtain ⟨j, found⟩ := Option.isSome_iff_exists.1 seen
    rw [target, target, found, grown.visibleFrom?_eq found, Option.getD_some, Option.getD_some]
  read_same := by
    intro s t buffer channel
    rw [target, target, visibleFrom?_congr buffer channel, size, size, buffer]

variable [TokenSource σ]

/-! ## The first visible slot from a slot on -/

theorem PullStep.size_le {s t : Stream σ} (h : PullStep s t) : t.size ≤ s.size + 1 := by
  rcases h.buffer with same | ⟨kept, -, pushed⟩
  · rw [size, same, ← size]
    omega
  · rw [size, pushed, Array.size_push, ← size]

/-- While nothing was to be seen, all there is to see is the token buffered last. -/
theorem PullStep.endsVisibly_eq_sees {s t : Stream σ} (step : PullStep s t) {i : Nat}
    (unseen : sees i s = false) : t.endsVisibly i = sees i t := by
  rw [Bool.eq_iff_iff]
  constructor
  · exact sees_of_endsVisibly
  · intro seen
    obtain ⟨k, hk, visible⟩ := visibleFrom?_isSome.1 seen
    have above : s.size ≤ k := by
      by_contra below
      have old : s.isVisible k = true := by
        rw [← step.within.isVisible_eq (by omega)]
        exact visible
      rw [sees, visibleFrom?_isSome.2 ⟨k, hk, old⟩] at unseen
      cases unseen
    have hlt := lt_size_of_isVisible visible
    have hsize := step.size_le
    have last : k = t.size - 1 := by omega
    exact endsVisibly_iff.2 ⟨by omega, last ▸ visible⟩

/-- Loops whose tests agree as long as they are waiting do the same. -/
theorem perform_pullUntil_congr {ready ready' : Stream σ → Bool}
    (agree : ∀ {s t}, PullStep s t → ready' s = false → ready t = ready' t) (limit : Nat)
    {s : Stream σ} (h : ready s = ready' s) :
    (pullUntil ready limit).perform s = (pullUntil ready' limit).perform s := by
  induction limit generalizing s with
  | zero =>
    cases stops : s.isDry || ready' s with
    | true => rw [perform_pullUntil_of_ready stops, perform_pullUntil_of_ready (h ▸ stops)]
    | false => rw [perform_pullUntil_zero stops, perform_pullUntil_zero (h ▸ stops)]
  | succ limit ih =>
    cases stops : s.isDry || ready' s with
    | true => rw [perform_pullUntil_of_ready stops, perform_pullUntil_of_ready (h ▸ stops)]
    | false =>
      have wet := (Bool.or_eq_false_iff.1 stops).1
      have waiting := (Bool.or_eq_false_iff.1 stops).2
      rw [perform_pullUntil_succ stops, perform_pullUntil_succ (h ▸ stops), StreamM.perform_bind,
        StreamM.perform_bind]
      rcases next : TokenSource.next s.source with ⟨e | token, source⟩
      · rw [perform_pull_error next]
      · have step : PullStep s (receive { s with source } token) := ⟨wet, perform_pull_ok next⟩
        rw [perform_pull_ok next]
        exact ih (agree step waiting)

theorem perform_nextVisible (limit i : Nat) (s : Stream σ) :
    (nextVisible limit i).perform s = (search (sees i) (target i) limit).perform s := by
  rw [perform_search, nextVisible, StreamM.perform_bind, StreamM.perform_get]
  rcases found : s.visibleFrom? i with _ | j
  · have unseen : sees i s = false := by rw [sees, found, Option.isSome_none]
    have start : s.endsVisibly i = sees i s := by
      rw [unseen, Bool.eq_false_iff]
      intro ends
      rw [sees_of_endsVisibly ends] at unseen
      cases unseen
    have loop : (pullUntil (fun s => s.endsVisibly i) limit).perform s =
        (pullUntil (sees i) limit).perform s :=
      perform_pullUntil_congr (fun step waiting => step.endsVisibly_eq_sees waiting) limit start
    simp only [found]
    rw [StreamM.perform_bind, loop]
    rcases (pullUntil (sees i) limit).perform s with ⟨_ | _, t⟩ <;> rfl
  · have seen : sees i s = true := by rw [sees, found, Option.isSome_some]
    rw [perform_pullUntil_of_ready (by rw [seen, Bool.or_true])]
    simp only [found]
    rw [StreamM.perform_pure, target, found, Option.getD_some]

theorem nextVisible_ok {limit i j : Nat} {s t : Stream σ}
    (h : (nextVisible limit i).perform s = (.ok j, t)) :
    Pulls s t ∧ j = target i t ∧ t.Settled j := by
  rw [perform_nextVisible] at h
  obtain ⟨loop, rfl⟩ := search_ok h
  obtain ⟨pulls, stops⟩ := pullUntil_ok loop
  exact ⟨pulls, rfl, settled_target stops⟩

/-! ## Where the cursor stands -/

theorem perform_position_of_some {s : Stream σ} {p : Nat} (h : s.cursor = some p) (limit : Nat) :
    (position limit).perform s = (.ok p, s) := by
  rw [position, StreamM.perform_bind, StreamM.perform_get]
  simp only [h, StreamM.perform_pure]

theorem perform_position_of_none {s : Stream σ} (h : s.cursor = none) (limit : Nat) :
    (position limit).perform s =
      (nextVisible limit 0 >>= fun p => place p >>= fun _ => pure p).perform s := by
  rw [position, StreamM.perform_bind, StreamM.perform_get]
  simp only [h]

theorem perform_consume_of_lt {s : Stream σ} {p : Nat} (placed : s.cursor = some p)
    (below : p < s.size) (limit : Nat) :
    (consume limit).perform s = (seek limit (p + 1)).perform s := by
  rw [consume, StreamM.perform_bind_of_ok (perform_position_of_some placed limit),
    StreamM.perform_bind, StreamM.perform_get]
  simp only [below, if_true]

theorem perform_consume_of_not_lt {s : Stream σ} {p : Nat} (placed : s.cursor = some p)
    (atEnd : ¬ p < s.size) (limit : Nat) : (consume limit).perform s = (.ok (), s) := by
  rw [consume, StreamM.perform_bind_of_ok (perform_position_of_some placed limit),
    StreamM.perform_bind, StreamM.perform_get]
  simp only [atEnd, if_false, StreamM.perform_pure]

/-- The cursor of a stream, if it is set, stands on a settled slot. -/
def CursorSettled (s : Stream σ) : Prop := ∀ p, s.cursor = some p → s.Settled p

/-- After positioning the cursor is set. It stands where it stood, or on the first visible slot. -/
theorem position_ok {limit p : Nat} {s t : Stream σ}
    (h : (position limit).perform s = (.ok p, t)) :
    t.cursor = some p ∧ (t = s ∨ s.cursor = none ∧ ∃ u, (nextVisible limit 0).perform s = (.ok p, u)
      ∧ t = { u with cursor := some p }) := by
  rcases placed : s.cursor with _ | q
  · rw [perform_position_of_none placed] at h
    rcases StreamM.perform_bind_ok h with ⟨q, u, search, h⟩
    cases h
    exact ⟨rfl, Or.inr ⟨rfl, u, search, rfl⟩⟩
  · rw [perform_position_of_some placed] at h
    cases h
    exact ⟨placed, Or.inl rfl⟩

theorem settled_of_position {limit p : Nat} {s t : Stream σ} (sound : s.CursorSettled)
    (h : (position limit).perform s = (.ok p, t)) : t.Settled p := by
  obtain ⟨placed, rfl | ⟨-, u, search, rfl⟩⟩ := position_ok h
  · exact sound p placed
  · exact (nextVisible_ok search).2.2

/-! ## Steps ahead -/

theorem perform_stepsAhead_of_lt {s : Stream σ} {i : Nat} (h : i < s.size) (limit k : Nat) :
    (stepsAhead limit (k + 1) i).perform s =
      (nextVisible limit (i + 1) >>= stepsAhead limit k).perform s := by
  rw [stepsAhead, StreamM.perform_bind, StreamM.perform_get]
  simp only [h, if_true]

theorem perform_stepsAhead_of_not_lt {s : Stream σ} {i : Nat} (h : ¬ i < s.size) (limit k : Nat) :
    (stepsAhead limit k i).perform s = (.ok i, s) := by
  cases k with
  | zero => rfl
  | succ k =>
    rw [stepsAhead, StreamM.perform_bind, StreamM.perform_get]
    simp only [h, if_false, StreamM.perform_pure]

theorem stepsAhead_ok {limit k i j : Nat} {s t : Stream σ} (settled : s.Settled i)
    (h : (stepsAhead limit k i).perform s = (.ok j, t)) :
    Pulls s t ∧ t.Settled j ∧ i ≤ j := by
  induction k generalizing i s with
  | zero =>
    cases h
    exact ⟨.refl, settled, Nat.le_refl _⟩
  | succ k ih =>
    by_cases hi : i < s.size
    · rw [perform_stepsAhead_of_lt hi, StreamM.perform_bind] at h
      rcases search : (nextVisible limit (i + 1)).perform s with ⟨_ | m, u⟩
      · rw [search] at h
        cases h
      · rw [search] at h
        obtain ⟨pulls, rfl, found⟩ := nextVisible_ok search
        have grown := pulls.within.size_le
        have further : i + 1 ≤ target (i + 1) u := le_target (by omega)
        obtain ⟨pulls', settled', le⟩ := ih found h
        exact ⟨pulls.trans pulls', settled', by omega⟩
    · rw [perform_stepsAhead_of_not_lt hi] at h
      cases h
      exact ⟨.refl, settled, Nat.le_refl _⟩

theorem perform_lookahead (limit k : Nat) (s : Stream σ) :
    (lookahead limit (k + 1 : Nat)).perform s =
      (position limit >>= fun p => stepsAhead limit k p >>= fun i => get >>= fun s =>
        pure (s.buffer[i]? <|> s.endToken)).perform s := rfl

/-- Looking ahead finds what is in a settled slot from the cursor on, or the end-of-stream token. -/
theorem lookahead_ok {limit k : Nat} {s t : Stream σ} {found : Option Token}
    (sound : s.CursorSettled) (h : (lookahead limit (k + 1 : Nat)).perform s = (.ok found, t)) :
    ∃ p i, t.cursor = some p ∧ p ≤ i ∧ t.Settled i ∧ found = (t.buffer[i]? <|> t.endToken) := by
  rw [perform_lookahead] at h
  rcases StreamM.perform_bind_ok h with ⟨p, u, positioned, h⟩
  rcases StreamM.perform_bind_ok h with ⟨i, v, stepped, h⟩
  have settled := settled_of_position sound positioned
  obtain ⟨pulls, settled', le⟩ := stepsAhead_ok settled stepped
  cases h
  exact ⟨p, i, pulls.cursor.trans (position_ok positioned).1, le, settled', rfl⟩

end Lookahead.Stream
