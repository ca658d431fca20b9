import Lookahead.Proofs.Motion
import Lookahead.Source.Metered

/-!
# The cursor of a reachable stream

In every reachable stream the cursor is unset or stands on a settled slot: on a visible token, or
behind the last buffered token of a source that has ended. The second case stays true because a
stream that has the end-of-stream token never pulls again. `Sound` adds which tokens end the source:
the end-of-stream token does, the buffered ones do not.

From it follows what looking ahead gives (`cursor_of_reachable`).
-/

namespace Lookahead.Stream

/-- The cursor is settled, and only the end-of-stream token ends the source. -/
structure Sound {σ : Type} (s : Stream σ) : Prop where
  cursor : s.CursorSettled
  buffered : ∀ t ∈ s.buffer, t.isEnd = false
  ended : ∀ t, s.endToken = some t → t.isEnd = true

variable {σ : Type} [TokenSource σ]

theorem PullStep.sound {s t : Stream σ} (step : PullStep s t) (h : s.Sound) : t.Sound where
  cursor := by
    intro p placed
    rw [step.cursor] at placed
    exact step.extends.settled (h.cursor p placed)
  buffered := by
    rcases step.buffer with same | ⟨kept, noEnd, pushed⟩
    · rw [same]
      exact h.buffered
    · intro t ht
      rw [pushed, Array.mem_push] at ht
      rcases ht with old | rfl
      · exact h.buffered t old
      · exact noEnd
  ended := by
    rcases step.endToken with same | ⟨ended, isEnd, pulled⟩
    · rw [same]
      exact h.ended
    · intro t ht
      rw [pulled] at ht
      cases ht
      exact isEnd

omit [TokenSource σ] in
theorem Sound.index_le_size {s : Stream σ} (h : s.Sound) : s.index ≤ s.size := by
  rcases placed : s.cursor with _ | p
  · rw [index_of_none placed]
    exact Nat.zero_le _
  · rw [index_of_some placed]
    exact (h.cursor p placed).le_size

theorem Motion.sound {s t : Stream σ} (motion : Motion s t) (h : s.Sound) : t.Sound := by
  cases motion with
  | pulled step => exact step.sound h
  | failed _ _ => exact ⟨fun p placed => (h.cursor p placed).congr rfl rfl rfl, h.buffered, h.ended⟩
  | placed settled =>
    refine ⟨fun p placed => ?_, h.buffered, h.ended⟩
    cases placed
    exact settled.congr rfl rfl rfl
  | marked _ => exact ⟨fun p placed => (h.cursor p placed).congr rfl rfl rfl, h.buffered, h.ended⟩

/-- What an operation leaves is sound if what it starts from is. -/
theorem Operates.sound_of_perform {α : Type} {op : StreamM σ α} {s t : Stream σ}
    {result : Except Interrupt α} (operates : Operates s (op.perform s).2)
    (h : op.perform s = (result, t)) (sound : s.Sound) : t.Sound := by
  have after := operates.invariant Motion.sound sound
  rwa [h] at after

theorem Reachable.sound {s : Stream σ} (h : Reachable s) : s.Sound := by
  refine h.invariant ?_ Motion.sound ?_ ?_
  · intro policy source journal
    refine ⟨?_, ?_, ?_⟩
    · intro p placed
      cases placed
    · intro t ht
      cases Array.not_mem_empty t ht
    · intro t ht
      cases ht
  · intro s policy journal channel sound
    exact ⟨fun p placed => (sound.cursor p placed).congr rfl channel rfl, sound.buffered,
      sound.ended⟩
  · intro s source sound
    exact ⟨fun p placed => (sound.cursor p placed).congr rfl rfl rfl, sound.buffered, sound.ended⟩

omit [TokenSource σ] in
/-- What is in a settled slot is a visible token. At the end it is the end-of-stream token. -/
theorem Settled.found {s : Stream σ} {i : Nat} (h : s.Settled i) :
    (∃ t, (s.buffer[i]? <|> s.endToken) = some t ∧ i < s.size ∧ s.buffer[i]? = some t ∧
        t.channel = s.policy.channel) ∨
      ∃ t, (s.buffer[i]? <|> s.endToken) = some t ∧ i = s.size ∧ s.endToken = some t := by
  rcases h with visible | ⟨rfl, dry⟩
  · obtain ⟨t, held, channel⟩ := isVisible_iff.1 visible
    exact Or.inl ⟨t, by rw [held]; rfl, lt_size_of_isVisible visible, held, channel⟩
  · obtain ⟨t, ended⟩ := Option.isSome_iff_exists.1 dry
    have beyond : s.buffer[s.size]? = none := Array.getElem?_eq_none (Nat.le_refl _)
    exact Or.inr ⟨t, by rw [beyond, ended]; rfl, rfl, ended⟩

/-- Looking ahead finds a visible token from the cursor on, or the end-of-stream token. -/
theorem lookahead_found {s t : Stream σ} {limit k : Nat} {answer : Option Token} (sound : s.Sound)
    (h : (lookahead limit (k + 1 : Nat)).perform s = (.ok answer, t)) :
    ∃ p found, t.cursor = some p ∧ answer = some found ∧
      ((∃ i, p ≤ i ∧ t.buffer[i]? = some found ∧ found.channel = t.policy.channel) ∨
        t.endToken = some found) := by
  rcases lookahead_ok sound.cursor h with ⟨p, i, placed, le, settled, rfl⟩
  rcases settled.found with ⟨found, same, -, held, channel⟩ | ⟨found, same, -, ended⟩
  · exact ⟨p, found, placed, same, Or.inl ⟨i, le, held, channel⟩⟩
  · exact ⟨p, found, placed, same, Or.inr ended⟩

/-- A stream is at its end if the cursor is behind the last buffered token. -/
theorem isAtEnd_ok {s t : Stream σ} {limit : Nat} {b : Bool} (sound : s.Sound)
    (h : (isAtEnd limit).perform s = (.ok b, t)) :
    ∃ p, t.cursor = some p ∧ (b = true ↔ p = t.size) := by
  rcases StreamM.perform_bind_ok h with ⟨found, u, looked, asked⟩
  cases asked
  have after := (operates_lookahead limit 1 s).sound_of_perform looked sound
  -- no step is taken from the token that the cursor stands on
  rcases StreamM.perform_bind_ok ((perform_lookahead limit 0 s).symm.trans looked) with
    ⟨p, v, positioned, looked⟩
  cases looked
  have placed := (position_ok positioned).1
  have settled := settled_of_position sound.cursor positioned
  rcases settled.found with ⟨token, same, below, held, -⟩ | ⟨token, same, rfl, ended⟩
  · have noEnd := after.buffered token (Array.mem_of_getElem? held)
    refine ⟨p, placed, ?_⟩
    rw [same, Option.elim_some, noEnd]
    simp only [Bool.false_eq_true, false_iff]
    exact Nat.ne_of_lt below
  · have isEnd := after.ended token ended
    refine ⟨_, placed, ?_⟩
    rw [same, Option.elim_some, isEnd]
    exact ⟨fun _ => rfl, fun _ => rfl⟩

/-- In every reachable stream the cursor is unset, or the index of a token on the tuned channel, or
the size of the buffer while the end-of-stream token is there. So a lookahead that succeeds finds
such a token from the cursor on or the end-of-stream token, and the stream is at its end exactly
when the cursor is the size of the buffer. -/
theorem cursor_of_reachable {s : Stream σ} (h : Reachable s) :
    (s.cursor = none ∨
        (∃ p t, s.cursor = some p ∧ s.buffer[p]? = some t ∧ t.channel = s.policy.channel) ∨
        s.cursor = some s.size ∧ s.endToken.isSome = true) ∧
      (∀ (limit : Nat) (k : Int) (a : Answer σ) (t : Stream σ), 0 < k →
        (exec limit (.lookahead k)).perform s = (.ok a, t) →
        ∃ p found, t.cursor = some p ∧ a = .token? (some found) ∧
          ((∃ i, p ≤ i ∧ t.buffer[i]? = some found ∧ found.channel = t.policy.channel) ∨
            t.endToken = some found)) ∧
      ∀ (limit : Nat) (a : Answer σ) (t : Stream σ),
        (exec limit .isAtEnd).perform s = (.ok a, t) →
        ∃ p b, t.cursor = some p ∧ a = .flag b ∧ (b = true ↔ p = t.size) := by
  have sound := h.sound
  refine ⟨?_, ?_, ?_⟩
  · rcases placed : s.cursor with _ | p
    · exact Or.inl rfl
    · rcases sound.cursor p placed with visible | ⟨rfl, dry⟩
      · rcases isVisible_iff.1 visible with ⟨t, held, channel⟩
        exact Or.inr (Or.inl ⟨p, t, rfl, held, channel⟩)
      · exact Or.inr (Or.inr ⟨rfl, dry⟩)
  · intro limit k a t positive performed
    rcases StreamM.perform_bind_ok performed with ⟨answer, u, looked, performed⟩
    cases performed
    rcases Int.eq_succ_of_zero_lt positive with ⟨n, rfl⟩
    rcases lookahead_found sound looked with ⟨p, found, placed, rfl, held⟩
    exact ⟨p, found, placed, rfl, held⟩
  · intro limit a t performed
    rcases StreamM.perform_bind_ok performed with ⟨b, u, asked, performed⟩
    cases performed
    rcases isAtEnd_ok sound asked with ⟨p, placed, ends⟩
    exact ⟨p, b, placed, rfl, ends⟩

/-- A blank on the hidden channel and a word, consumed: the cursor is behind both. -/
theorem cursor_of_reachable_consumed :
    let blank := Token.onChannel 5 .hidden " " .unplaced
    let word := Token.plain 7 "a" .unplaced
    let source := ListedSource.ofList [blank, word, .endOfStream .unplaced]
    let s := ((exec 3 .consume).perform (start .standard source)).2
    let t := ((exec 3 (.lookahead 1)).perform s).2
    let ended := (Token.endOfStream .unplaced).stamp 2
    Reachable s ∧ (0 : Int) < 1 ∧
      (exec 3 (.lookahead 1)).perform s = (.ok (.token? (some ended)), t) ∧
      ∃ p found, t.cursor = some p ∧
        (Answer.token? (some ended) : Answer ListedSource) = .token? (some found) ∧
        ((∃ i, p ≤ i ∧ t.buffer[i]? = some found ∧ found.channel = t.policy.channel) ∨
          t.endToken = some found) := by
  intro blank word source s t ended
  have reachable : Reachable s := .exec 3 .consume (.start .standard source)
  have answer : ((exec 3 (.lookahead 1)).perform s).1 = .ok (.token? (some ended)) := by
    decide +kernel
  have performed : (exec 3 (.lookahead 1)).perform s = (.ok (.token? (some ended)), t) := by
    rw [← answer]
  exact ⟨reachable, by decide, performed,
    (cursor_of_reachable reachable).2.1 3 1 _ t (by decide) performed⟩

end Lookahead.Stream
