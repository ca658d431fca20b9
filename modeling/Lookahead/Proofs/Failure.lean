import Lookahead.Proofs.Cursor
import Lookahead.Source.Listed

/-!
# Operations that fail

An operation fails because a pull does. Most of them pull before they change anything, so what they
leave behind is some pulls that succeeded and one that did not (`FailsInPlace`). An operation that
positions the cursor and then goes on may fail after the first of the two (`PlacedThenFails`), and
draining fails after any number of its steps (`Ahead`). In all cases the policy and the marker are
as before, and the buffer has only grown (`unharmed_of_failed`).
-/

namespace Lookahead

/-- Whether a command may go on to pull when it has positioned the cursor. -/
def Command.goesOn {σ : Type} : Command σ → Bool
  | .consume | .drain => true
  | .peekKind k | .lookahead k => 1 < k
  | _ => false

namespace Stream

open Relation

variable {σ : Type} [TokenSource σ]

/-! ## Pulls that come to nothing -/

/-- A pull of `s` fails with an error and leaves `t`. -/
def Fails (s : Stream σ) (e : SourceError) (t : Stream σ) : Prop :=
  s.isDry = false ∧ ∃ source,
    TokenSource.next s.source = (.error e, source) ∧ t = note { s with source } (.failed e)

/-- Some pulls succeed, and the next one fails. -/
def FailsAfter (s : Stream σ) (e : SourceError) (t : Stream σ) : Prop :=
  ∃ u, Pulls s u ∧ Fails u e t

theorem FailsAfter.head {s u t : Stream σ} {e : SourceError} (pulls : Pulls s u)
    (h : FailsAfter u e t) : FailsAfter s e t := by
  obtain ⟨v, pulls', fails⟩ := h
  exact ⟨v, pulls.trans pulls', fails⟩

theorem FailsAfter.cursor {s t : Stream σ} {e : SourceError} (h : FailsAfter s e t) :
    t.cursor = s.cursor := by
  obtain ⟨u, pulls, -, source, -, rfl⟩ := h
  exact pulls.cursor

theorem FailsAfter.within {s t : Stream σ} {e : SourceError} (h : FailsAfter s e t) :
    s.Within t := by
  obtain ⟨u, pulls, -, source, -, rfl⟩ := h
  exact ⟨pulls.within.channel, pulls.within.isPrefix⟩

/-- A stream of which a pull is still to fail is not dry. -/
theorem FailsAfter.wet {s t : Stream σ} {e : SourceError} (h : FailsAfter s e t) :
    s.isDry = false := by
  obtain ⟨u, pulls, wet, -⟩ := h
  by_contra dry
  rw [Bool.not_eq_false] at dry
  rw [pulls.eq_of_isDry dry, dry] at wet
  cases wet

/-! ## Operations that pull before they change anything -/

/-- Whenever the operation fails, all it has done is to pull. -/
def FailsInPlace {α : Type} (op : StreamM σ α) : Prop :=
  ∀ ⦃s e t⦄, op.perform s = (.error (.failed e), t) → FailsAfter s e t

section

variable {α β : Type}

/-- What is done after the operation and cannot be interrupted makes no difference. -/
theorem failsInPlace_bind_sure {op : StreamM σ α} {next : α → StreamM σ β} (h : FailsInPlace op)
    (sure : ∀ a s, ∃ b t, (next a).perform s = (.ok b, t)) : FailsInPlace (op >>= next) := by
  intro s e t performed
  rcases StreamM.perform_bind_error performed with failed | ⟨a, u, -, failed⟩
  · exact h failed
  · obtain ⟨b, v, answered⟩ := sure a u
    rw [answered] at failed
    cases failed

theorem failsInPlace_bind_pure {op : StreamM σ α} (f : α → β) (h : FailsInPlace op) :
    FailsInPlace (op >>= fun a => pure (f a)) :=
  failsInPlace_bind_sure h fun _ _ => ⟨_, _, rfl⟩

theorem failsInPlace_pure (a : α) : FailsInPlace (pure a : StreamM σ α) := by
  intro s e t performed
  cases performed

theorem failsInPlace_read (read : Stream σ → α) :
    FailsInPlace (getThe (Stream σ) >>= fun s => pure (read s) : StreamM σ α) := by
  intro s e t performed
  cases performed

theorem failsInPlace_pullUntil (ready : Stream σ → Bool) (limit : Nat) :
    FailsInPlace (pullUntil ready limit) := by
  intro s e t performed
  obtain ⟨u, pulls, ⟨ok, -⟩ | ⟨e', source, wet, next, failed⟩ | out⟩ :=
    pullUntil_cases ready limit s
  · rw [ok] at performed
    cases performed
  · rw [failed] at performed
    cases performed
    exact ⟨u, pulls, wet, source, next, rfl⟩
  · rw [out] at performed
    cases performed

theorem failsInPlace_search (ready : Stream σ → Bool) (read : Stream σ → α) (limit : Nat) :
    FailsInPlace (search ready read limit) :=
  failsInPlace_bind_sure (failsInPlace_pullUntil ready limit) fun _ _ => ⟨_, _, rfl⟩

end

theorem failsInPlace_nextVisible (limit i : Nat) :
    FailsInPlace (nextVisible limit i : StreamM σ Nat) := by
  intro s e t performed
  rw [perform_nextVisible] at performed
  exact failsInPlace_search _ _ limit performed

theorem failsInPlace_seek (limit i : Nat) : FailsInPlace (seek limit i : StreamM σ Unit) :=
  failsInPlace_bind_sure (failsInPlace_nextVisible limit i) fun _ _ => ⟨_, _, rfl⟩

theorem failsInPlace_rewindToMark (limit : Nat) :
    FailsInPlace (rewindToMark limit : StreamM σ Unit) := by
  intro s e t performed
  rw [rewindToMark, StreamM.perform_bind, StreamM.perform_get] at performed
  exact failsInPlace_seek limit s.lastMark performed

theorem failsInPlace_position (limit : Nat) : FailsInPlace (position limit : StreamM σ Nat) := by
  intro s e t performed
  rcases placed : s.cursor with _ | p
  · rw [perform_position_of_none placed] at performed
    have settle : FailsInPlace
        (nextVisible limit 0 >>= fun p => place p >>= fun _ => pure p : StreamM σ Nat) :=
      failsInPlace_bind_sure (failsInPlace_nextVisible limit 0) fun _ _ => ⟨_, _, rfl⟩
    exact settle performed
  · rw [perform_position_of_some placed] at performed
    cases performed

theorem failsInPlace_mark (limit : Nat) : FailsInPlace (mark limit : StreamM σ Nat) :=
  failsInPlace_bind_sure (failsInPlace_position limit) fun _ _ => ⟨_, _, rfl⟩

theorem failsInPlace_stepsAhead (limit k i : Nat) :
    FailsInPlace (stepsAhead limit k i : StreamM σ Nat) := by
  induction k generalizing i with
  | zero => exact failsInPlace_pure i
  | succ k ih =>
    intro s e t performed
    by_cases hi : i < s.size
    · rw [perform_stepsAhead_of_lt hi] at performed
      rcases StreamM.perform_bind_error performed with failed | ⟨j, u, found, failed⟩
      · exact failsInPlace_nextVisible limit (i + 1) failed
      · exact (ih j failed).head (nextVisible_ok found).1
    · rw [perform_stepsAhead_of_not_lt hi] at performed
      cases performed

/-- To look at the current token or back is to position the cursor. -/
theorem failsInPlace_lookahead (limit : Nat) {k : Int} (near : k ≤ 1) :
    FailsInPlace (lookahead limit k : StreamM σ (Option Token)) := by
  match k with
  | .ofNat 0 => exact failsInPlace_pure none
  | .ofNat 1 => exact failsInPlace_bind_sure (failsInPlace_position limit) fun _ _ => ⟨_, _, rfl⟩
  | .ofNat (k + 2) =>
    have far : ((k + 2 : Nat) : Int) ≤ 1 := near
    omega
  | .negSucc k => exact failsInPlace_bind_sure (failsInPlace_position limit) fun _ _ => ⟨_, _, rfl⟩

theorem failsInPlace_range (limit first last : Nat) :
    FailsInPlace (range limit first last : StreamM σ (List Token)) := by
  unfold range
  split
  · exact failsInPlace_pure []
  · exact failsInPlace_search _ (fun s => s.slots first last) limit

/-- Only a command that goes on from the cursor it has positioned fails anywhere else. -/
theorem failsInPlace_exec (limit : Nat) {c : Command σ} (op : c.isOperation = true)
    (stays : c.goesOn = false) : FailsInPlace (exec limit c) := by
  apply exec_induction op (P := FailsInPlace)
  case wrap => exact failsInPlace_bind_pure
  case value => exact failsInPlace_pure
  case policy => exact fun read _ => failsInPlace_read _
  case name => exact fun _ => failsInPlace_read _
  case consume =>
    rintro rfl
    cases stays
  case lookahead =>
    intro k asked
    have near : k ≤ 1 := by
      rcases asked with rfl | rfl | ⟨rfl, rfl⟩
      · simpa [Command.goesOn] using stays
      · simpa [Command.goesOn] using stays
      · exact Int.le_refl 1
    exact failsInPlace_lookahead limit near
  case get? => exact fun i => failsInPlace_search _ _ limit
  case mark => exact fun _ => failsInPlace_mark limit
  case seek => exact failsInPlace_seek limit
  case rewindToMark => exact failsInPlace_rewindToMark limit
  case fill => exact failsInPlace_pullUntil _ limit
  case tokens => exact failsInPlace_search _ _ limit
  case range => exact failsInPlace_range limit
  case drain =>
    rintro rfl
    cases stays

/-! ## Operations that go on from the cursor -/

/-- The cursor was unset and is put on the first visible slot, and then pulls come to nothing. -/
def PlacedThenFails (s : Stream σ) (e : SourceError) (t : Stream σ) : Prop :=
  s.cursor = none ∧ ∃ u p, Pulls s u ∧ u.visibleFrom? 0 = some p ∧
    FailsAfter { u with cursor := some p } e t

/-- A search that has come back while the source goes on has found a visible slot. -/
theorem found_of_wet {limit i j : Nat} {s t : Stream σ}
    (h : (nextVisible limit i).perform s = (.ok j, t)) (wet : t.isDry = false) :
    t.visibleFrom? i = some j := by
  obtain ⟨-, rfl, settled⟩ := nextVisible_ok h
  rcases found : t.visibleFrom? i with _ | j
  · have atEnd : target i t = t.size := by rw [target, found, Option.getD_none]
    rw [atEnd] at settled
    have dry := (settled.isDry (Nat.lt_irrefl _)).2
    rw [wet] at dry
    cases dry
  · rw [target, found, Option.getD_some]

theorem failed_of_position {α : Type} {limit : Nat} {next : Nat → StreamM σ α}
    (h : ∀ p, FailsInPlace (next p)) {s t : Stream σ} {e : SourceError}
    (failed : (position limit >>= next).perform s = (.error (.failed e), t)) :
    FailsAfter s e t ∨ PlacedThenFails s e t := by
  rcases StreamM.perform_bind_error failed with failed | ⟨p, u, positioned, failed⟩
  · exact Or.inl (failsInPlace_position limit failed)
  · have fails : FailsAfter u e t := h p failed
    obtain ⟨-, rfl | ⟨unset, v, search, rfl⟩⟩ := position_ok positioned
    · exact Or.inl fails
    · have wet : v.isDry = false := fails.wet
      have pulls : Pulls s v := (nextVisible_ok search).1
      exact Or.inr ⟨unset, v, p, pulls, found_of_wet search wet, fails⟩

theorem failed_of_consume {limit : Nat} {s t : Stream σ} {e : SourceError}
    (failed : (consume limit).perform s = (.error (.failed e), t)) :
    FailsAfter s e t ∨ PlacedThenFails s e t := by
  refine failed_of_position (fun p => ?_) failed
  intro u e t failed
  rw [StreamM.perform_bind, StreamM.perform_get] at failed
  dsimp only at failed
  split at failed
  · exact failsInPlace_seek limit (p + 1) failed
  · cases failed

theorem failed_of_lookahead {limit : Nat} {k : Int} {s t : Stream σ} {e : SourceError}
    (failed : (lookahead limit k).perform s = (.error (.failed e), t)) :
    FailsAfter s e t ∨ PlacedThenFails s e t := by
  match k with
  | .ofNat (k + 1) =>
    have look (p : Nat) : FailsInPlace (stepsAhead limit k p >>= fun i => get >>= fun s =>
        pure (s.buffer[i]? <|> s.endToken) : StreamM σ (Option Token)) :=
      failsInPlace_bind_sure (failsInPlace_stepsAhead limit k p) fun _ _ => ⟨_, _, rfl⟩
    exact failed_of_position look failed
  | .ofNat 0 => exact Or.inl (failsInPlace_lookahead limit (by decide) failed)
  | .negSucc k => exact Or.inl (failsInPlace_lookahead limit (by omega) failed)

/-! ## Draining -/

/-- Pulls that succeed, and the cursor put on settled slots further and further on. -/
abbrev Ahead : Stream σ → Stream σ → Prop :=
  ReflTransGen fun s t =>
    PullStep s t ∨ ∃ i, s.index ≤ i ∧ s.Settled i ∧ t = { s with cursor := some i }

namespace Ahead

variable {s t : Stream σ}

theorem of_pulls (h : Pulls s t) : Ahead s t := by
  induction h with
  | refl => exact .refl
  | tail _ step ih => exact ih.tail (Or.inl step)

theorem place {i : Nat} (le : s.index ≤ i) (settled : s.Settled i) :
    Ahead s { s with cursor := some i } :=
  .single (Or.inr ⟨i, le, settled, rfl⟩)

theorem operates (h : Ahead s t) : Operates s t := by
  induction h with
  | refl => exact .refl
  | tail _ step ih =>
    rcases step with step | ⟨i, -, settled, rfl⟩
    · exact ih.tail (.pulled step)
    · exact ih.tail (.placed settled)

theorem policy (h : Ahead s t) : t.policy = s.policy := by
  induction h with
  | refl => rfl
  | tail _ step ih =>
    rcases step with step | ⟨i, -, -, rfl⟩
    · exact step.policy.trans ih
    · exact ih

theorem lastMark (h : Ahead s t) : t.lastMark = s.lastMark := by
  induction h with
  | refl => rfl
  | tail _ step ih =>
    rcases step with step | ⟨i, -, -, rfl⟩
    · exact step.lastMark.trans ih
    · exact ih

theorem within (h : Ahead s t) : s.Within t := by
  induction h with
  | refl => exact .refl s
  | tail _ step ih =>
    rcases step with step | ⟨i, -, -, rfl⟩
    · exact ih.trans step.within
    · exact ⟨ih.channel, ih.isPrefix⟩

theorem wet (h : Ahead s t) (wet : t.isDry = false) : s.isDry = false := by
  induction h with
  | refl => exact wet
  | tail _ step ih =>
    rcases step with step | ⟨i, -, -, rfl⟩
    · exact ih step.1
    · exact ih wet

/-- The cursor is where it was, or settled further on. -/
theorem cursor (h : Ahead s t) :
    t.cursor = s.cursor ∨ s.index ≤ t.index ∧ ∃ p, t.cursor = some p ∧ t.Settled p := by
  induction h with
  | refl => exact Or.inl rfl
  | @tail u t _ step ih =>
    rcases step with step | ⟨i, le, settled, rfl⟩
    · have kept : t.cursor = u.cursor := step.cursor
      have stays : t.index = u.index := by rw [index, index, kept]
      rcases ih with same | ⟨le, p, placed, settled⟩
      · exact Or.inl (kept.trans same)
      · exact Or.inr ⟨stays ▸ le, p, kept.trans placed, step.extends.settled settled⟩
    · have start : s.index ≤ u.index := by
        rcases ih with same | ⟨le, -⟩
        · rw [index, index, same]
        · exact le
      exact Or.inr ⟨Nat.le_trans start le, i, rfl, settled.congr rfl rfl rfl⟩

end Ahead

theorem ahead_position {limit p : Nat} {s t : Stream σ}
    (h : (position limit).perform s = (.ok p, t)) : Ahead s t := by
  obtain ⟨-, rfl | ⟨unset, u, search, rfl⟩⟩ := position_ok h
  · exact .refl
  · obtain ⟨pulls, -, settled⟩ := nextVisible_ok search
    have start : u.index ≤ p := by
      rw [index_of_none (pulls.cursor.trans unset)]
      exact Nat.zero_le p
    exact (Ahead.of_pulls pulls).trans (Ahead.place start settled)

/-- Looking at the current token positions the cursor and does no more. -/
theorem ahead_lookahead_one {limit : Nat} {s t : Stream σ} {found : Option Token}
    (h : (lookahead limit 1).perform s = (.ok found, t)) :
    Ahead s t ∧ ∃ p, t.cursor = some p := by
  rw [show (1 : Int) = (0 + 1 : Nat) from rfl, perform_lookahead] at h
  rcases StreamM.perform_bind_ok h with ⟨p, u, positioned, h⟩
  cases h
  exact ⟨ahead_position positioned, p, (position_ok positioned).1⟩

theorem ahead_consume {limit p : Nat} {s t : Stream σ} (placed : s.cursor = some p) {a : Unit}
    (h : (consume limit).perform s = (.ok a, t)) : Ahead s t := by
  rw [consume, StreamM.perform_bind_of_ok (perform_position_of_some placed limit),
    StreamM.perform_bind, StreamM.perform_get] at h
  dsimp only at h
  split at h
  · next below =>
    rcases StreamM.perform_bind_ok h with ⟨j, u, search, h⟩
    cases h
    obtain ⟨pulls, rfl, settled⟩ := nextVisible_ok search
    have grown : s.size ≤ u.size := pulls.within.size_le
    have further : p + 1 ≤ target (p + 1) u := le_target (by omega)
    have start : u.index ≤ target (p + 1) u := by
      rw [index_of_some (pulls.cursor.trans placed)]
      omega
    exact (Ahead.of_pulls pulls).trans (Ahead.place start settled)
  · cases h
    exact .refl

theorem failed_of_drainTexts {limit count : Nat} {s t : Stream σ} {e : SourceError}
    (failed : (drainTexts limit count).perform s = (.error (.failed e), t)) :
    ∃ u, Ahead s u ∧ FailsAfter u e t := by
  induction count generalizing s with
  | zero => cases failed
  | succ count ih =>
    rcases StreamM.perform_bind_error failed with failed | ⟨found, u, looked, failed⟩
    · exact ⟨s, .refl, failsInPlace_lookahead limit (by decide) failed⟩
    · obtain ⟨ahead, p, placed⟩ := ahead_lookahead_one looked
      cases found with
      | none => cases failed
      | some token =>
        dsimp only at failed
        split at failed
        · cases failed
        · rcases StreamM.perform_bind_error failed with failed | ⟨a, v, consumed, failed⟩
          · rcases failed_of_consume failed with fails | ⟨unset, -⟩
            · exact ⟨u, ahead, fails⟩
            · rw [placed] at unset
              cases unset
          · have ahead' : Ahead s v := ahead.trans (ahead_consume placed consumed)
            rcases StreamM.perform_bind_error failed with failed | ⟨texts, w, -, failed⟩
            · obtain ⟨w, ahead'', fails⟩ := ih failed
              exact ⟨w, ahead'.trans ahead'', fails⟩
            · cases failed

/-! ## Commands -/

/-- How an operation fails: before it changes anything, or after it has positioned the cursor, or,
if it is draining, some way ahead. -/
theorem failed_of_exec {limit : Nat} {c : Command σ} (op : c.isOperation = true) {s t : Stream σ}
    {e : SourceError} (failed : (exec limit c).perform s = (.error (.failed e), t)) :
    FailsAfter s e t ∨ PlacedThenFails s e t ∨
      c = .drain ∧ ∃ u, Ahead s u ∧ FailsAfter u e t := by
  revert s t e
  apply exec_induction op (P := fun op => ∀ {s t : Stream σ} {e : SourceError},
    op.perform s = (.error (.failed e), t) → FailsAfter s e t ∨ PlacedThenFails s e t ∨
      c = .drain ∧ ∃ u, Ahead s u ∧ FailsAfter u e t)
  case wrap =>
    intro α β op f fails s t e failed
    rcases StreamM.perform_bind_error failed with failed | ⟨a, u, -, failed⟩
    · exact fails failed
    · cases failed
  case value => exact fun a s t e failed => Or.inl (failsInPlace_pure a failed)
  case policy => exact fun read _ s t e failed => Or.inl (failsInPlace_read _ failed)
  case name => exact fun _ s t e failed => Or.inl (failsInPlace_read _ failed)
  case consume => exact fun _ s t e failed => (failed_of_consume failed).imp_right Or.inl
  case lookahead => exact fun k _ s t e failed => (failed_of_lookahead failed).imp_right Or.inl
  case get? => exact fun i s t e failed => Or.inl (failsInPlace_search _ _ limit failed)
  case mark => exact fun _ s t e failed => Or.inl (failsInPlace_mark limit failed)
  case seek => exact fun i s t e failed => Or.inl (failsInPlace_seek limit i failed)
  case rewindToMark => exact fun failed => Or.inl (failsInPlace_rewindToMark limit failed)
  case fill => exact fun failed => Or.inl (failsInPlace_pullUntil _ limit failed)
  case tokens => exact fun failed => Or.inl (failsInPlace_search _ _ limit failed)
  case range => exact fun i j s t e failed => Or.inl (failsInPlace_range limit i j failed)
  case drain =>
    intro draining s t e failed
    rw [drain, StreamM.perform_bind, StreamM.perform_get] at failed
    exact Or.inr (Or.inr ⟨draining, failed_of_drainTexts failed⟩)

theorem PlacedThenFails.ahead {s t : Stream σ} {e : SourceError} (h : PlacedThenFails s e t) :
    ∃ u, Ahead s u ∧ FailsAfter u e t := by
  obtain ⟨unset, u, p, pulls, found, fails⟩ := h
  have visible : u.isVisible p = true := (visibleFrom?_eq_some.1 found).2.1
  have start : u.index ≤ p := by
    rw [index_of_none (pulls.cursor.trans unset)]
    exact Nat.zero_le p
  exact ⟨_, (Ahead.of_pulls pulls).trans (Ahead.place start (Or.inl visible)), fails⟩

theorem PlacedThenFails.cursor {s t : Stream σ} {e : SourceError} (h : PlacedThenFails s e t) :
    s.cursor = none ∧ ∃ p, t.cursor = some p ∧ t.visibleFrom? 0 = some p := by
  obtain ⟨unset, u, p, -, found, fails⟩ := h
  have grown : u.Within t := ⟨fails.within.channel, fails.within.isPrefix⟩
  exact ⟨unset, p, fails.cursor, grown.visibleFrom?_eq found⟩

/-- What a command that fails leaves of a stream: policy and marker are what they were, the source
has not ended, and the buffer has only grown. The cursor is what it was, unless the command goes on
to pull after it has positioned the cursor. Then a cursor that was unset may be on the first visible
slot. Draining may have gone on to any visible slot. -/
structure Unharmed (c : Command σ) (s t : Stream σ) : Prop where
  policy : t.policy = s.policy
  lastMark : t.lastMark = s.lastMark
  wet_before : s.endToken = none
  wet : t.endToken = none
  buffer : s.buffer.toList <+: t.buffer.toList
  inPlace : c.goesOn = false → t.cursor = s.cursor
  placed : c ≠ .drain →
    t.cursor = s.cursor ∨ s.cursor = none ∧ ∃ p, t.cursor = some p ∧ t.visibleFrom? 0 = some p
  ahead : t.cursor = s.cursor ∨
    s.index ≤ t.index ∧ ∃ p, t.cursor = some p ∧ t.isVisible p = true

theorem FailsAfter.wet_after {s t : Stream σ} {e : SourceError} (h : FailsAfter s e t) :
    t.isDry = false := by
  obtain ⟨u, -, wet, source, -, rfl⟩ := h
  exact wet

theorem FailsAfter.policy {s t : Stream σ} {e : SourceError} (h : FailsAfter s e t) :
    t.policy = s.policy := by
  obtain ⟨u, pulls, -, source, -, rfl⟩ := h
  exact pulls.policy

theorem FailsAfter.lastMark {s t : Stream σ} {e : SourceError} (h : FailsAfter s e t) :
    t.lastMark = s.lastMark := by
  obtain ⟨u, pulls, -, source, -, rfl⟩ := h
  exact pulls.lastMark

/-- An operation that fails leaves the stream unharmed. -/
theorem unharmed_of_failed {limit : Nat} {c : Command σ} (op : c.isOperation = true)
    {s t : Stream σ} {e : SourceError}
    (failed : (exec limit c).perform s = (.error (.failed e), t)) : Unharmed c s t := by
  have ways := failed_of_exec op failed
  obtain ⟨u, ahead, fails⟩ : ∃ u, Ahead s u ∧ FailsAfter u e t := by
    rcases ways with fails | placed | ⟨-, further⟩
    · exact ⟨s, .refl, fails⟩
    · exact placed.ahead
    · exact further
  have wet : t.isDry = false := fails.wet_after
  exact {
    policy := fails.policy.trans ahead.policy
    lastMark := fails.lastMark.trans ahead.lastMark
    wet_before := endToken_of_wet (ahead.wet fails.wet)
    wet := endToken_of_wet wet
    buffer := (ahead.within.trans fails.within).isPrefix
    inPlace := fun stays => (failsInPlace_exec limit op stays failed).cursor
    placed := by
      intro other
      rcases ways with fails | placed | ⟨draining, -⟩
      · exact Or.inl fails.cursor
      · exact Or.inr placed.cursor
      · exact absurd draining other
    ahead := by
      have kept : t.cursor = u.cursor := fails.cursor
      have stays : t.index = u.index := by rw [index, index, kept]
      rcases ahead.cursor with same | ⟨le, p, placed, settled⟩
      · exact Or.inl (kept.trans same)
      · rcases settled with visible | ⟨-, dry⟩
        · exact Or.inr ⟨stays ▸ le, p, kept.trans placed, fails.within.isVisible visible⟩
        · rw [fails.wet] at dry
          cases dry }

/-- A word, looked at before it is consumed, and then a source that has run out. -/
theorem unharmed_of_failed_listed :
    let e := SourceError.missingEnd 1
    let source := ListedSource.ofList [.plain 7 "a" .unplaced]
    let s := ((exec 3 (.lookahead 1)).perform (start .standard source)).2
    let t := ((exec 3 .consume).perform s).2
    (Command.consume : Command ListedSource).isOperation = true ∧
      (exec 3 .consume).perform s = (.error (.failed e), t) ∧ Unharmed .consume s t := by
  intro e source s t
  have result : ((exec 3 .consume).perform s).1 = .error (.failed e) := by decide +kernel
  have failed : (exec 3 .consume).perform s = (.error (.failed e), t) := by rw [← result]
  exact ⟨rfl, failed, unharmed_of_failed rfl failed⟩

/-- A lookahead that fails may set the cursor of a new stream: the first token is on the hidden
channel, the second one is visible, and the third pull fails. -/
theorem index_of_failed_lookahead :
    let source := ListedSource.ofList
      [.onChannel 5 .hidden " " .unplaced, .plain 7 "a" .unplaced]
    let s := start .standard source
    let t := ((exec 3 (.lookahead 2)).perform s).2
    Reachable s ∧
      ((exec 3 (.lookahead 2)).perform s).1 = .error (.failed (.missingEnd 2)) ∧
      s.index = 0 ∧ t.index = 1 := by
  intro source s t
  exact ⟨.start .standard source, by decide +kernel, rfl, by decide +kernel⟩

end Stream

end Lookahead
