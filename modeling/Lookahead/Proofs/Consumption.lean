import Lookahead.Proofs.Advance
import Lookahead.Proofs.Lockstep

/-!
# Consuming and looking ahead

No search forward looks at the cursor: on streams that differ in nothing else, searches go in
lockstep. So it does not matter whether the cursor is taken along on the way to a token or is left
where it is, and consuming tokens before looking ahead comes to the same as looking further ahead
(`together_consumes_lookahead`): the same pulls are made, and the same answer or interrupt comes of
them.
-/

namespace Lookahead.Stream

variable {σ : Type}

/-- The stream with its cursor unset. -/
def unplaced (s : Stream σ) : Stream σ := { s with cursor := none }

/-- The streams differ in the cursor only. -/
abbrev SameButCursor (s s' : Stream σ) : Prop := s.unplaced = s'.unplaced

section

variable {s s' : Stream σ} (same : SameButCursor s s')

include same

theorem SameButCursor.policy : s.policy = s'.policy := congrArg (·.policy) same

theorem SameButCursor.source : s.source = s'.source := congrArg (·.source) same

theorem SameButCursor.buffer : s.buffer = s'.buffer := congrArg (·.buffer) same

theorem SameButCursor.endToken : s.endToken = s'.endToken := congrArg (·.endToken) same

theorem SameButCursor.size : s.size = s'.size := congrArg Array.size same.buffer

theorem SameButCursor.visibleFrom? (i : Nat) : s.visibleFrom? i = s'.visibleFrom? i :=
  visibleFrom?_congr same.buffer (congrArg Policy.channel same.policy) i

end

variable [TokenSource σ]

/-! ## Searches do not look at the cursor -/

theorem SameButCursor.pull {s s' : Stream σ} (same : SameButCursor s s') :
    Together (fun _ _ => SameButCursor) SameButCursor ((pull : StreamM σ Unit).perform s)
      ((Stream.pull : StreamM σ Unit).perform s') := by
  have source := same.source
  rcases next : TokenSource.next s'.source with ⟨e | token, rest⟩
  · have next' : TokenSource.next s.source = (.error e, rest) := source ▸ next
    rw [perform_pull_error next, perform_pull_error next']
    have noted : ({ s.unplaced with source := rest } : Stream σ).note (.failed e) =
        ({ s'.unplaced with source := rest } : Stream σ).note (.failed e) := by rw [same]
    exact .interrupted noted
  · have next' : TokenSource.next s.source = (.ok token, rest) := source ▸ next
    rw [perform_pull_ok next, perform_pull_ok next']
    have received : ({ s.unplaced with source := rest } : Stream σ).receive token =
        ({ s'.unplaced with source := rest } : Stream σ).receive token := by rw [same]
    have apart (u : Stream σ) : (({ u with source := rest } : Stream σ).receive token).unplaced =
        ({ u.unplaced with source := rest } : Stream σ).receive token :=
      (receive_setCursor { u with source := rest } token none).symm
    exact .answered ((apart s).trans (received.trans (apart s').symm))

theorem lockstep_nextVisible (limit i : Nat) :
    Lockstep SameButCursor (Same SameButCursor) SameButCursor (nextVisible limit i : StreamM σ Nat)
      (nextVisible limit i) := by
  intro s s' same
  rw [perform_nextVisible, perform_nextVisible]
  have pulled : Lockstep SameButCursor _ SameButCursor (pullUntil (sees i) limit : StreamM σ Unit)
      (pullUntil (sees i) limit) :=
    lockstep_pullUntil (fun same => congrArg Option.isSome same.endToken)
      (fun same => congrArg Option.isSome (same.visibleFrom? i)) (fun same _ => same.pull)
      (fun same => same) limit
  refine lockstep_bind pulled (fun _ _ => lockstep_read fun ⟨same, _⟩ => ?_) same
  refine ⟨?_, same⟩
  rw [target, target, same.visibleFrom?, same.size]

theorem lockstep_stepsAhead (limit k i : Nat) :
    Lockstep SameButCursor (Same SameButCursor) SameButCursor (stepsAhead limit k i : StreamM σ Nat)
      (stepsAhead limit k i) := by
  induction k generalizing i with
  | zero => exact same_pure i
  | succ k ih =>
    apply lockstep_get
    rintro s s' u u' ⟨rfl, rfl, same⟩
    rw [same.size]
    split
    · exact same_bind (lockstep_nextVisible limit (i + 1)) ih same
    · exact same_pure i same

/-! ## Consuming on the way -/

/-- Consumes so many tokens, one after the other. -/
def consumes (limit : Nat) : (n : Nat) → StreamM σ Unit
  | 0 => pure ()
  | n + 1 => do
    consume limit
    consumes limit n

section

variable {α : Type} {s : Stream σ} {p : Nat}

/-- The cursor may as well be positioned before. -/
theorem perform_position_consume (limit : Nat) (s : Stream σ) :
    (consume limit).perform s = (position limit >>= fun _ => consume limit).perform s := by
  rcases positioned : (position limit).perform s with ⟨i | p, t⟩
  · rw [consume, StreamM.perform_bind_of_error positioned, StreamM.perform_bind_of_error positioned]
  · have placed := perform_position_of_some (position_ok positioned).1 limit
    rw [StreamM.perform_bind_of_ok positioned, consume, StreamM.perform_bind_of_ok positioned,
      StreamM.perform_bind_of_ok placed]

/-- What is found by so many steps from a slot. -/
def readAhead (limit k i : Nat) : StreamM σ (Option Token) := do
  let j ← stepsAhead limit k i
  let s ← get
  pure (s.buffer[j]? <|> s.endToken)

theorem lockstep_readAhead (limit k i : Nat) :
    Lockstep SameButCursor (Same SameButCursor) SameButCursor
      (readAhead limit k i : StreamM σ (Option Token)) (readAhead limit k i) := by
  refine same_bind (lockstep_stepsAhead limit k i) fun j => same_read fun same => ?_
  rw [same.buffer, same.endToken]

theorem perform_readAhead_of_lt {i : Nat} (below : i < s.size) (limit k : Nat) :
    (readAhead limit (k + 1) i).perform s =
      (nextVisible limit (i + 1) >>= readAhead limit k).perform s := by
  rw [readAhead, StreamM.perform_bind, perform_stepsAhead_of_lt below, ← StreamM.perform_bind,
    bind_assoc]
  rfl

theorem perform_readAhead_of_not_lt {i : Nat} (atEnd : ¬ i < s.size) (limit k : Nat) :
    (readAhead limit k i).perform s = (.ok (s.buffer[i]? <|> s.endToken), s) := by
  rw [readAhead, StreamM.perform_bind_of_ok (perform_stepsAhead_of_not_lt atEnd limit k)]
  rfl

/-- From a cursor in slot `p`, steps that take the cursor along and steps that do not. -/
theorem together_consumes_readAhead (limit n k : Nat) {s s' : Stream σ} (placed : s.cursor = some p)
    (same : SameButCursor s s') :
    Together (Same SameButCursor) SameButCursor
      ((consumes limit n >>= fun _ => lookahead limit (k + 1 : Nat)).perform s)
      ((readAhead limit (n + k) p).perform s') := by
  induction n generalizing s s' p with
  | zero =>
    have here : (lookahead limit (k + 1 : Nat)).perform s = (readAhead limit k p).perform s := by
      rw [perform_lookahead, StreamM.perform_bind_of_ok (perform_position_of_some placed limit)]
      rfl
    rw [consumes, StreamM.perform_bind_of_ok (StreamM.perform_pure () s), here, Nat.zero_add]
    exact lockstep_readAhead limit k p same
  | succ n ih =>
    rw [consumes, bind_assoc, Nat.add_right_comm]
    by_cases below : p < s.size
    · rw [StreamM.perform_bind, perform_consume_of_lt placed below, ← StreamM.perform_bind, seek,
        bind_assoc, perform_readAhead_of_lt (same.size ▸ below), StreamM.perform_bind,
        StreamM.perform_bind]
      have ended := lockstep_nextVisible limit (p + 1) same
      generalize (nextVisible limit (p + 1)).perform s = r,
        (nextVisible limit (p + 1)).perform s' = r' at ended ⊢
      cases ended with
      | interrupted fail => exact .interrupted fail
      | @answered j _ t t' post =>
        obtain ⟨rfl, same⟩ := post
        exact ih (s := { t with cursor := some j }) rfl same
    · have atEnd : ¬ p < s'.size := same.size ▸ below
      rw [StreamM.perform_bind_of_ok (perform_consume_of_not_lt placed below limit),
        perform_readAhead_of_not_lt atEnd, ← perform_readAhead_of_not_lt atEnd limit (n + k)]
      exact ih placed same

end

/-- To consume `n` tokens and look `k` tokens ahead comes to the same as to look `n + k` tokens
ahead, but for where it leaves the cursor. -/
theorem together_consumes_lookahead (limit n k : Nat) (s : Stream σ) :
    Together (Same SameButCursor) SameButCursor
      ((consumes limit n >>= fun _ => lookahead limit (k + 1 : Nat)).perform s)
      ((lookahead limit (n + k + 1 : Nat)).perform s) := by
  cases n with
  | zero =>
    rw [consumes, StreamM.perform_bind_of_ok (StreamM.perform_pure () s), Nat.zero_add]
    rcases (lookahead limit (k + 1 : Nat)).perform s with ⟨i | a, t⟩
    · exact .interrupted rfl
    · exact .answered ⟨rfl, rfl⟩
  | succ n =>
    have first : (consumes limit (n + 1) >>= fun _ => lookahead limit (k + 1 : Nat)).perform s =
        (position limit >>= fun _ => consumes limit (n + 1) >>= fun _ =>
          lookahead limit (k + 1 : Nat)).perform s := by
      rw [consumes, bind_assoc, StreamM.perform_bind, perform_position_consume,
        ← StreamM.perform_bind, bind_assoc]
    rw [first, perform_lookahead]
    rcases positioned : (position limit).perform s with ⟨i | p, t⟩
    · rw [StreamM.perform_bind_of_error positioned, StreamM.perform_bind_of_error positioned]
      exact .interrupted rfl
    · rw [StreamM.perform_bind_of_ok positioned, StreamM.perform_bind_of_ok positioned]
      exact together_consumes_readAhead limit (n + 1) k (position_ok positioned).1 rfl

end Lookahead.Stream
