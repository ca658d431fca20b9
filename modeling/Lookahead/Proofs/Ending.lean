import Lookahead.Proofs.Conclusion

/-!
# Sources that end

`EndsAfter source n` says that a source gives `n` tokens and then the end-of-stream token, and
`DryAfter n s` that a stream is dry after `n` pulls, none of which fails. No motion takes a stream
further from its end (`Motion.dryAfter`). An operation whose searches may take as many pulls as are
left comes to an end, and as no pull of it can fail, it answers (`answers_exec`).
-/

namespace Lookahead

/-- A source that gives `n` tokens, then the end-of-stream token, and does not fail before. -/
inductive TokenSource.EndsAfter {σ : Type} [TokenSource σ] : σ → Nat → Prop
  | last {source rest : σ} {token : Token} :
    next source = (.ok token, rest) → token.isEnd = true → EndsAfter source 0
  | more {source rest : σ} {token : Token} {n : Nat} :
    next source = (.ok token, rest) → token.isEnd = false → EndsAfter rest n →
    EndsAfter source (n + 1)

theorem TokenSource.EndsAfter.stopsAfter {σ : Type} [TokenSource σ] {source : σ} {n : Nat}
    (h : EndsAfter source n) : ∃ token, StopsAfter source n (.ok token) := by
  induction h with
  | @last source rest token next isEnd => exact ⟨token, .ended next isEnd⟩
  | more next noEnd _ ih =>
    obtain ⟨token, stops⟩ := ih
    exact ⟨token, .more next noEnd stops⟩

namespace Stream

variable {σ : Type} [TokenSource σ]

/-- A stream that is dry after exactly `n` pulls, none of which fails. -/
inductive DryAfter : Nat → Stream σ → Prop
  | dry {s : Stream σ} : s.isDry = true → DryAfter 0 s
  | pull {s t : Stream σ} {n : Nat} : PullStep s t → DryAfter n t → DryAfter (n + 1) s

theorem dryAfter_iff {n : Nat} {s : Stream σ} : DryAfter n s ↔ Stops none n s := by
  constructor
  · intro h
    induction h with
    | dry dry => exact .dry dry
    | pull step _ ih => exact .pull step ih
  · intro h
    generalize same : none = e at h
    induction h with
    | dry dry => exact .dry dry
    | failing _ _ => cases same
    | pull step _ ih => exact .pull step (ih same)

theorem dryAfter_of_endsAfter {source : σ} {n : Nat} (ends : TokenSource.EndsAfter source n)
    {s : Stream σ} (here : s.source = source) (wet : s.isDry = false) : DryAfter (n + 1) s := by
  obtain ⟨token, last⟩ := ends.stopsAfter
  obtain ⟨e, stops, ended⟩ := stops_of_wet last here wet
  obtain rfl := ended.2 ⟨token, rfl⟩
  exact dryAfter_iff.2 stops

/-- A motion takes a stream no further from its end. -/
theorem Motion.dryAfter {s t : Stream σ} {n : Nat} (motion : Motion s t) (h : DryAfter n s) :
    ∃ m, m ≤ n ∧ DryAfter m t := by
  cases motion with
  | pulled step =>
    cases h with
    | dry dry =>
      rw [step.1] at dry
      cases dry
    | @pull _ u n step' h =>
      cases step.unique step'
      exact ⟨n, Nat.le_succ n, h⟩
  | failed wet next =>
    cases h with
    | dry dry =>
      rw [wet] at dry
      cases dry
    | pull step' h =>
      obtain ⟨token, source, next', -⟩ := step'.exists_token
      rw [next] at next'
      cases next'
  | placed _ => exact ⟨n, Nat.le_refl _, dryAfter_iff.2 ((dryAfter_iff.1 h).setCursor _)⟩
  | marked _ => exact ⟨n, Nat.le_refl _, dryAfter_iff.2 ((dryAfter_iff.1 h).setMark _)⟩

/-! ## Operations that answer -/

/-- A sound stream that is dry after no more pulls than a search may take. -/
structure EndsWithin (limit : Nat) (s : Stream σ) : Prop where
  sound : s.Sound
  dryAfter : ∃ n, n ≤ limit ∧ DryAfter n s

theorem EndsWithin.operates {limit : Nat} {s t : Stream σ} (h : s.EndsWithin limit)
    (operates : Operates s t) : t.EndsWithin limit := by
  induction operates with
  | refl => exact h
  | tail _ motion ih =>
    obtain ⟨n, le, dryAfter⟩ := ih.dryAfter
    obtain ⟨m, le', dryAfter'⟩ := motion.dryAfter dryAfter
    exact ⟨motion.sound ih.sound, m, Nat.le_trans le' le, dryAfter'⟩

/-- The operation gives an answer. -/
def Answers {α : Type} (op : StreamM σ α) (s : Stream σ) : Prop :=
  ∃ a t, op.perform s = (.ok a, t)

/-- An operation that comes to an end on a stream that is going to be dry has not failed. -/
theorem Concludes.answers {α : Type} {op : Nat → StreamM σ α} {limit n : Nat} {s : Stream σ}
    (h : Concludes none n op s) (le : n ≤ limit) : Answers (op limit) s := by
  obtain ⟨r, performed, ended⟩ := h
  cases ended with
  | @answered a m t _ => exact ⟨a, t, performed limit le⟩
  | failed error _ => cases error

theorem answers_pullUntil (ready : Stream σ → Bool) {limit n : Nat} (le : n ≤ limit)
    {s : Stream σ} (h : DryAfter n s) : Answers (pullUntil ready limit) s :=
  (concludes_pullUntil ready (dryAfter_iff.1 h)).answers le

/-- Every operation answers if its searches may take all the pulls that are left. -/
theorem answers_exec {limit : Nat} {s : Stream σ} (h : s.EndsWithin limit) {c : Command σ}
    (op : c.isOperation = true) : Answers (exec limit c) s := by
  obtain ⟨n, le, dryAfter⟩ := h.dryAfter
  exact (concludes_exec op h.sound (dryAfter_iff.1 dryAfter)).answers le

end Stream

end Lookahead
