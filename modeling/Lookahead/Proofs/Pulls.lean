import Mathlib.Logic.Relation
import Lookahead.Proofs.Buffer

/-!
# Runs of pulls

`PullStep s t` is one pull of the stream's own that succeeds, `Pulls s t` any number of them. Pulls
never touch the policy, the cursor or the marker, and the buffer only grows (`Pulls.within`).

`search ready read limit` is the shape of every operation that may pull: pull until the stream is
`ready` or dry, then `read` the answer off. `pullUntil_cases` says all that can come of the loop;
from it follow what a search answers (`search_ok`), and that a search for something that stays
(`Steady`) gives the same answer after pulls that were made beforehand (`Steady.search_of_pulls`).
-/

namespace Lookahead.Stream

open Relation

/-! ## Taking in a token -/

section Receive

variable {σ : Type} (s : Stream σ) (t : Token)

@[simp] theorem receive_policy : (s.receive t).policy = s.policy := by
  unfold receive
  split
  · rfl
  · split <;> rfl

@[simp] theorem receive_source : (s.receive t).source = s.source := by
  unfold receive
  split
  · rfl
  · split <;> rfl

@[simp] theorem receive_cursor : (s.receive t).cursor = s.cursor := by
  unfold receive
  split
  · rfl
  · split <;> rfl

@[simp] theorem receive_lastMark : (s.receive t).lastMark = s.lastMark := by
  unfold receive
  split
  · rfl
  · split <;> rfl

variable {t}

theorem receive_of_isEnd (h : t.isEnd = true) :
    (s.receive t).buffer = s.buffer ∧ (s.receive t).endToken = some (t.stamp s.size) := by
  unfold receive
  rw [if_pos h]
  exact ⟨rfl, rfl⟩

theorem receive_endToken (h : t.isEnd = false) : (s.receive t).endToken = s.endToken := by
  unfold receive
  rw [if_neg (by simp [h])]
  split <;> rfl

theorem receive_of_keep {channel : Channel} (h : t.isEnd = false)
    (kept : s.policy.judge t = .keep channel) :
    (s.receive t).buffer = s.buffer.push ((t.moveTo channel).stamp s.size) := by
  unfold receive
  rw [if_neg (by simp [h]), kept]

theorem receive_of_drop (h : t.isEnd = false)
    (dropped : ∀ channel, s.policy.judge t ≠ .keep channel) :
    (s.receive t).buffer = s.buffer := by
  unfold receive
  rw [if_neg (by simp [h])]
  split
  · next channel kept => exact absurd kept (dropped channel)
  · rfl

/-- A token leaves the buffer as it is or is added at its end. -/
theorem receive_buffer (t : Token) :
    (s.receive t).buffer = s.buffer ∨
      ∃ kept : Token, kept.isEnd = false ∧ (s.receive t).buffer = s.buffer.push kept := by
  cases ends : t.isEnd with
  | true => exact Or.inl (s.receive_of_isEnd ends).1
  | false =>
    cases verdict : s.policy.judge t with
    | keep channel =>
      exact Or.inr ⟨(t.moveTo channel).stamp s.size, ends, s.receive_of_keep ends verdict⟩
    | dropKind => exact Or.inl (s.receive_of_drop ends (by simp [verdict]))
    | dropOffChannel _ => exact Or.inl (s.receive_of_drop ends (by simp [verdict]))

end Receive

variable {σ : Type} [TokenSource σ]

/-! ## Single pulls -/

/-- A pull of a stream that is not dry, and the token it takes in. -/
def PullStep (s t : Stream σ) : Prop :=
  s.isDry = false ∧ (pull : StreamM σ Unit).perform s = (.ok (), t)

theorem PullStep.exists_token {s t : Stream σ} (h : PullStep s t) :
    ∃ token source, TokenSource.next s.source = (.ok token, source) ∧
      t = receive { s with source } token := by
  rcases next : TokenSource.next s.source with ⟨_ | token, source⟩
  · have := h.2
    rw [perform_pull_error next] at this
    cases this
  · have := h.2
    rw [perform_pull_ok next] at this
    cases this
    exact ⟨token, source, rfl, rfl⟩

theorem PullStep.unique {s t u : Stream σ} (h : PullStep s t) (k : PullStep s u) : t = u := by
  have := h.2.symm.trans k.2
  cases this
  rfl

theorem PullStep.policy {s t : Stream σ} (h : PullStep s t) : t.policy = s.policy := by
  obtain ⟨token, source, -, rfl⟩ := h.exists_token
  simp

theorem PullStep.cursor {s t : Stream σ} (h : PullStep s t) : t.cursor = s.cursor := by
  obtain ⟨token, source, -, rfl⟩ := h.exists_token
  simp

theorem PullStep.lastMark {s t : Stream σ} (h : PullStep s t) : t.lastMark = s.lastMark := by
  obtain ⟨token, source, -, rfl⟩ := h.exists_token
  simp

theorem PullStep.buffer {s t : Stream σ} (h : PullStep s t) :
    t.buffer = s.buffer ∨ ∃ kept : Token, kept.isEnd = false ∧ t.buffer = s.buffer.push kept := by
  obtain ⟨token, source, -, rfl⟩ := h.exists_token
  exact receive_buffer { s with source } token

theorem PullStep.endToken {s t : Stream σ} (h : PullStep s t) :
    t.endToken = s.endToken ∨ ∃ ended : Token, ended.isEnd = true ∧ t.endToken = some ended := by
  obtain ⟨token, source, -, rfl⟩ := h.exists_token
  cases ends : token.isEnd with
  | true => exact Or.inr ⟨token.stamp s.size, ends, (receive_of_isEnd _ ends).2⟩
  | false => exact Or.inl (receive_endToken _ ends)

theorem PullStep.within {s t : Stream σ} (h : PullStep s t) : s.Within t := by
  refine ⟨congrArg Policy.channel h.policy, ?_⟩
  rcases h.buffer with same | ⟨kept, -, pushed⟩
  · exact same ▸ List.prefix_refl _
  · rw [pushed, Array.toList_push]
    exact List.prefix_append _ _

theorem PullStep.extends {s t : Stream σ} (h : PullStep s t) : s.Extends t := by
  refine ⟨h.within, fun dry => ?_⟩
  rw [h.1] at dry
  cases dry

/-! ## Runs of pulls -/

/-- Any number of pulls, none of which fails. -/
abbrev Pulls : Stream σ → Stream σ → Prop := ReflTransGen PullStep

theorem Pulls.extends {s t : Stream σ} (h : Pulls s t) : s.Extends t := by
  induction h with
  | refl => exact .refl s
  | tail _ step ih => exact ih.trans step.extends

namespace Pulls

variable {s t u : Stream σ}

theorem policy (h : Pulls s t) : t.policy = s.policy := by
  induction h with
  | refl => rfl
  | tail _ step ih => exact step.policy.trans ih

theorem cursor (h : Pulls s t) : t.cursor = s.cursor := by
  induction h with
  | refl => rfl
  | tail _ step ih => exact step.cursor.trans ih

theorem lastMark (h : Pulls s t) : t.lastMark = s.lastMark := by
  induction h with
  | refl => rfl
  | tail _ step ih => exact step.lastMark.trans ih

theorem within (h : Pulls s t) : s.Within t := h.extends.within

/-- A dry stream is not pulled. -/
theorem eq_of_isDry (h : Pulls s t) (dry : s.isDry = true) : t = s := by
  rcases h.cases_head with rfl | ⟨u, step, -⟩
  · rfl
  · rw [step.1] at dry
    cases dry

/-- Of any two streams that pulls lead to, one leads to the other. -/
theorem total (h : Pulls s t) (k : Pulls s u) : Pulls t u ∨ Pulls u t :=
  ReflTransGen.total_of_right_unique (fun _ _ _ step step' => step.unique step') h k

end Pulls

/-! ## The loop around pulls -/

/-- What can come of pulling until the stream is ready: it is ready or dry, or the next pull failed,
or the pulls allowed are used up. -/
theorem pullUntil_cases (ready : Stream σ → Bool) (limit : Nat) (s : Stream σ) :
    ∃ t, Pulls s t ∧
      ((pullUntil ready limit).perform s = (.ok (), t) ∧ (t.isDry || ready t) = true ∨
        (∃ e source, t.isDry = false ∧ TokenSource.next t.source = (.error e, source) ∧
          (pullUntil ready limit).perform s =
            (.error (.failed e), note { t with source } (.failed e))) ∨
        (pullUntil ready limit).perform s = (.error .outOfPulls, t)) := by
  induction limit generalizing s with
  | zero =>
    refine ⟨s, .refl, ?_⟩
    cases stops : s.isDry || ready s with
    | true => exact Or.inl ⟨perform_pullUntil_of_ready stops 0, rfl⟩
    | false => exact Or.inr (Or.inr (perform_pullUntil_zero stops))
  | succ limit ih =>
    cases stops : s.isDry || ready s with
    | true => exact ⟨s, .refl, Or.inl ⟨perform_pullUntil_of_ready stops _, stops⟩⟩
    | false =>
      have wet : s.isDry = false := (Bool.or_eq_false_iff.1 stops).1
      rw [perform_pullUntil_succ stops, StreamM.perform_bind]
      rcases next : TokenSource.next s.source with ⟨e | token, source⟩
      · rw [perform_pull_error next]
        exact ⟨s, .refl, Or.inr (Or.inl ⟨e, source, wet, next, rfl⟩)⟩
      · rw [perform_pull_ok next]
        obtain ⟨t, pulls, outcome⟩ := ih (receive { s with source } token)
        exact ⟨t, .head ⟨wet, perform_pull_ok next⟩ pulls, outcome⟩

theorem pullUntil_ok {ready : Stream σ → Bool} {limit : Nat} {s t : Stream σ}
    (h : (pullUntil ready limit).perform s = (.ok (), t)) :
    Pulls s t ∧ (t.isDry || ready t) = true := by
  obtain ⟨u, pulls, ⟨ok, stops⟩ | ⟨e, source, -, -, failed⟩ | out⟩ := pullUntil_cases ready limit s
  · rw [ok] at h
    cases h
    exact ⟨pulls, stops⟩
  · rw [failed] at h
    cases h
  · rw [out] at h
    cases h

/-- A pull at the head of the loop. -/
theorem perform_pullUntil_step {ready : Stream σ → Bool} {s u : Stream σ} (step : PullStep s u)
    (waiting : ready s = false) (limit : Nat) :
    (pullUntil ready (limit + 1)).perform s = (pullUntil ready limit).perform u := by
  rw [perform_pullUntil_succ (by simp [step.1, waiting]), StreamM.perform_bind, step.2]

/-- The operation does not use up the pulls that it is allowed. -/
def InTime {α : Type} (op : StreamM σ α) (s : Stream σ) : Prop :=
  (op.perform s).1 ≠ .error .outOfPulls

omit [TokenSource σ] in
theorem inTime_of_ok {α : Type} {op : StreamM σ α} {s t : Stream σ} {a : α}
    (h : op.perform s = (.ok a, t)) : InTime op s := by
  rw [InTime, h]
  intro out
  cases out

omit [TokenSource σ] in
theorem InTime.of_bind {α β : Type} {op : StreamM σ α} {next : α → StreamM σ β} {s : Stream σ}
    (inTime : InTime (op >>= next) s) : InTime op s := by
  intro out
  rcases first : op.perform s with ⟨i | a, t⟩
  · rw [first] at out
    cases out
    exact inTime (by rw [StreamM.perform_bind_of_error first])
  · rw [first] at out
    cases out

/-- Allowed enough pulls, and however many more, the operation has this result and leaves this
stream. -/
def ComesTo {α : Type} (op : Nat → StreamM σ α) (s : Stream σ)
    (outcome : Except Interrupt α × Stream σ) : Prop :=
  outcome.1 ≠ .error .outOfPulls ∧ ∃ limit, ∀ more, limit ≤ more → (op more).perform s = outcome

theorem pullUntil_succ_of_inTime {ready : Stream σ → Bool} {limit : Nat} {s : Stream σ}
    (inTime : InTime (pullUntil ready limit) s) :
    (pullUntil ready (limit + 1)).perform s = (pullUntil ready limit).perform s := by
  induction limit generalizing s with
  | zero =>
    cases stops : s.isDry || ready s with
    | true => rw [perform_pullUntil_of_ready stops, perform_pullUntil_of_ready stops]
    | false =>
      rw [InTime, perform_pullUntil_zero stops] at inTime
      exact absurd rfl inTime
  | succ limit ih =>
    cases stops : s.isDry || ready s with
    | true => rw [perform_pullUntil_of_ready stops, perform_pullUntil_of_ready stops]
    | false =>
      rw [InTime, perform_pullUntil_succ stops, StreamM.perform_bind] at inTime
      rw [perform_pullUntil_succ stops, perform_pullUntil_succ stops, StreamM.perform_bind,
        StreamM.perform_bind]
      rcases next : TokenSource.next s.source with ⟨e | token, source⟩
      · rw [perform_pull_error next]
      · rw [perform_pull_ok next] at inTime ⊢
        exact ih inTime

/-- A loop that was allowed enough pulls ends the same way when it is allowed more. -/
theorem perform_pullUntil_of_le {ready : Stream σ → Bool} {limit more : Nat} (le : limit ≤ more)
    {s : Stream σ} (inTime : InTime (pullUntil ready limit) s) :
    (pullUntil ready more).perform s = (pullUntil ready limit).perform s := by
  induction le with
  | refl => rfl
  | @step more _ ih =>
    have inTime' : InTime (pullUntil ready more) s := by rwa [InTime, ih]
    rw [pullUntil_succ_of_inTime inTime', ih]

theorem pullUntil_succ_ok {ready : Stream σ → Bool} {limit : Nat} {s t : Stream σ}
    (h : (pullUntil ready limit).perform s = (.ok (), t)) :
    (pullUntil ready (limit + 1)).perform s = (.ok (), t) := by
  rw [pullUntil_succ_of_inTime (inTime_of_ok h), h]

/-! ## Searches -/

/-- Pulls until the stream is ready or dry, and then reads the answer off. -/
def search {α : Type} (ready : Stream σ → Bool) (read : Stream σ → α) (limit : Nat) :
    StreamM σ α := do
  pullUntil ready limit
  let s ← get
  pure (read s)

/-- A stream that is ready stays ready through pulls, and what is read off it stays the same. -/
structure Steady {α : Type} (ready : Stream σ → Bool) (read : Stream σ → α) : Prop where
  ready_step : ∀ {s t}, PullStep s t → ready s = true → ready t = true
  read_step : ∀ {s t}, PullStep s t → ready s = true → read t = read s

theorem Lasting.steady {α : Type} {ready : Stream σ → Bool} {read : Stream σ → α}
    (h : Lasting ready read) : Steady ready read where
  ready_step step := h.ready_grown step.within
  read_step step := h.read_grown step.within

variable {α : Type} {ready : Stream σ → Bool} {read : Stream σ → α}

theorem perform_search (limit : Nat) (s : Stream σ) :
    (search ready read limit).perform s =
      match (pullUntil ready limit).perform s with
      | (.ok (), t) => (.ok (read t), t)
      | (.error i, t) => (.error i, t) := by
  rw [search, StreamM.perform_bind]
  rcases (pullUntil ready limit).perform s with ⟨_ | _, t⟩ <;> rfl

theorem search_ok {limit : Nat} {s t : Stream σ} {a : α}
    (h : (search ready read limit).perform s = (.ok a, t)) :
    (pullUntil ready limit).perform s = (.ok (), t) ∧ a = read t := by
  rw [perform_search] at h
  rcases loop : (pullUntil ready limit).perform s with ⟨_ | _, u⟩
  · rw [loop] at h
    cases h
  · rw [loop] at h
    cases h
    exact ⟨rfl, rfl⟩

namespace Steady

theorem ready_pulls (steady : Steady ready read) {s t : Stream σ} (h : Pulls s t)
    (hs : ready s = true) : ready t = true := by
  induction h with
  | refl => exact hs
  | tail _ step ih => exact steady.ready_step step ih

theorem read_pulls (steady : Steady ready read) {s t : Stream σ} (h : Pulls s t)
    (hs : (s.isDry || ready s) = true) : (t.isDry || ready t) = true ∧ read t = read s := by
  rw [Bool.or_eq_true] at hs
  rcases hs with dry | hs
  · rw [h.eq_of_isDry dry, dry]
    exact ⟨rfl, rfl⟩
  · refine ⟨by rw [steady.ready_pulls h hs, Bool.or_true], ?_⟩
    induction h with
    | refl => rfl
    | tail pulls step ih => exact (steady.read_step step (steady.ready_pulls pulls hs)).trans ih

/-- The loop may be entered anywhere further on in the run of pulls: it ends where it would have
ended, or where it was entered if that is later. -/
theorem pullUntil_of_pulls (steady : Steady ready read) {limit : Nat} {s t v : Stream σ}
    (h : (pullUntil ready limit).perform s = (.ok (), t)) (pulls : Pulls s v) :
    ∃ w, (pullUntil ready limit).perform v = (.ok (), w) ∧ Pulls t w := by
  induction pulls using ReflTransGen.head_induction_on generalizing limit with
  | refl => exact ⟨t, h, .refl⟩
  | @head s u step rest ih =>
    cases waiting : ready s with
    | true =>
      rw [perform_pullUntil_of_ready (by rw [waiting, Bool.or_true])] at h
      cases h
      have stops : (v.isDry || ready v) = true := by
        rw [steady.ready_pulls rest (steady.ready_step step waiting), Bool.or_true]
      exact ⟨v, perform_pullUntil_of_ready stops limit, .head step rest⟩
    | false =>
      cases limit with
      | zero =>
        rw [perform_pullUntil_zero (by rw [step.1, waiting, Bool.or_false])] at h
        cases h
      | succ limit =>
        rw [perform_pullUntil_step step waiting] at h
        exact ih (pullUntil_succ_ok h)

/-- A search gives the same answer after pulls that were made beforehand. -/
theorem search_of_pulls (steady : Steady ready read) {limit : Nat} {s t v : Stream σ} {a : α}
    (h : (search ready read limit).perform s = (.ok a, t)) (pulls : Pulls s v) :
    ∃ w, (search ready read limit).perform v = (.ok a, w) ∧ Pulls t w := by
  obtain ⟨loop, rfl⟩ := search_ok h
  obtain ⟨w, loop', later⟩ := steady.pullUntil_of_pulls loop pulls
  refine ⟨w, ?_, later⟩
  rw [perform_search, loop']
  simp only [(steady.read_pulls later (pullUntil_ok loop).2).2]

end Steady

end Lookahead.Stream
