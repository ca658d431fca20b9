import Lookahead.Proofs.Position

/-!
# Motions

Whatever an operation does to a stream, it does by a handful of motions: pulls that succeed, one
that fails, the cursor being put on a settled slot, and the marker being set to the cursor
(`operates_exec`). Commands that change the policy or handle the source are the only others, so
`Reachable.invariant` asks of an invariant that it hold of new streams, and that the motions, a
change of the policy and a change of the source keep it.
-/

namespace Lookahead

open Relation

/-- Whether a command leaves the policy alone and leaves the source to the stream. -/
def Command.isOperation {σ : Type} : Command σ → Bool
  | .discard _ | .reroute _ _ | .dropOffChannel _ | .pullSource | .replace _ => false
  | _ => true

/-- The policies are tuned to one channel and treat all tokens alike, whatever the order of their
entries. -/
structure Policy.Agrees (p q : Policy) : Prop where
  channel : p.channel = q.channel
  dropsOffChannel : p.dropsOffChannel = q.dropsOffChannel
  overrides : ∀ kind, p.overrides.find? kind = q.overrides.find? kind
  discards : ∀ kind, p.discards.contains kind = q.discards.contains kind

namespace Policy.Agrees

variable {p q : Policy}

theorem refl (p : Policy) : p.Agrees p := ⟨rfl, rfl, fun _ => rfl, fun _ => rfl⟩

theorem judge (h : p.Agrees q) (t : Token) : p.judge t = q.judge t := by
  have route : p.route t = q.route t := by rw [Policy.route, Policy.route, h.overrides]
  rw [Policy.judge, Policy.judge, h.discards, h.dropsOffChannel, h.channel, route]

theorem discard (h : p.Agrees q) (kind : Kind) : (p.discard kind).Agrees (q.discard kind) where
  channel := h.channel
  dropsOffChannel := h.dropsOffChannel
  overrides := h.overrides
  discards k := by
    rw [Policy.discard, Policy.discard, Discards.contains_insert, Discards.contains_insert,
      h.discards]

theorem reroute (h : p.Agrees q) (kind : Kind) (channel : Channel) :
    (p.reroute kind channel).Agrees (q.reroute kind channel) where
  channel := h.channel
  dropsOffChannel := h.dropsOffChannel
  overrides k := by
    rw [Policy.reroute, Policy.reroute, Overrides.find?_insert, Overrides.find?_insert, h.overrides]
  discards := h.discards

theorem dropOffChannel (h : p.Agrees q) (drop : Bool) :
    (p.dropOffChannel drop).Agrees (q.dropOffChannel drop) where
  channel := h.channel
  dropsOffChannel := rfl
  overrides := h.overrides
  discards := h.discards

end Policy.Agrees

namespace Stream

variable {σ : Type} [TokenSource σ]

/-- What an operation can do to a stream at once. -/
inductive Motion : Stream σ → Stream σ → Prop
  | pulled {s t : Stream σ} : PullStep s t → Motion s t
  | failed {s : Stream σ} {e : SourceError} {source : σ} :
    s.isDry = false → TokenSource.next s.source = (.error e, source) →
    Motion s (note { s with source } (.failed e))
  | placed {s : Stream σ} {i : Nat} : s.Settled i → Motion s { s with cursor := some i }
  | marked {s : Stream σ} {i : Nat} : s.cursor = some i → Motion s { s with lastMark := i }

/-- What operations can do to a stream. -/
abbrev Operates : Stream σ → Stream σ → Prop := ReflTransGen Motion

theorem Pulls.operates {s t : Stream σ} (h : Pulls s t) : Operates s t := by
  induction h with
  | refl => exact .refl
  | tail _ step ih => exact ih.tail (.pulled step)

theorem Motion.extends {s t : Stream σ} (motion : Motion s t) : s.Extends t := by
  cases motion with
  | pulled step => exact step.extends
  | failed _ _ => exact .of_same rfl rfl rfl
  | placed _ => exact .of_same rfl rfl rfl
  | marked _ => exact .of_same rfl rfl rfl

theorem Operates.invariant {Inv : Stream σ → Prop} (motion : ∀ {s t}, Motion s t → Inv s → Inv t)
    {s t : Stream σ} (h : Operates s t) (hs : Inv s) : Inv t := by
  induction h with
  | refl => exact hs
  | tail _ step ih => exact motion step ih

theorem Operates.extends {s t : Stream σ} (h : Operates s t) : s.Extends t :=
  h.invariant (fun motion extended => extended.trans motion.extends) (.refl s)

theorem Motion.policy {s t : Stream σ} (motion : Motion s t) : t.policy = s.policy := by
  cases motion with
  | pulled step => exact step.policy
  | failed _ _ => rfl
  | placed _ => rfl
  | marked _ => rfl

theorem Operates.policy {s t : Stream σ} (h : Operates s t) : t.policy = s.policy :=
  h.invariant (fun motion same => motion.policy.trans same) rfl

section

variable {α β : Type} {s : Stream σ}

theorem operates_bind {op : StreamM σ α} {next : α → StreamM σ β}
    (first : Operates s (op.perform s).2)
    (then_ : ∀ a t, op.perform s = (.ok a, t) → Operates t ((next a).perform t).2) :
    Operates s ((op >>= next).perform s).2 := by
  rcases h : op.perform s with ⟨i | a, t⟩
  · rw [h] at first
    rw [StreamM.perform_bind_of_error h]
    exact first
  · rw [h] at first
    rw [StreamM.perform_bind_of_ok h]
    exact first.trans (then_ a t h)

theorem operates_bind_pure {op : StreamM σ α} {f : α → β} (h : Operates s (op.perform s).2) :
    Operates s ((op >>= fun a => pure (f a)).perform s).2 :=
  operates_bind h fun _ _ _ => .refl

end

/-! ## Searches -/

theorem operates_pullUntil (ready : Stream σ → Bool) (limit : Nat) (s : Stream σ) :
    Operates s ((pullUntil ready limit).perform s).2 := by
  obtain ⟨t, pulls, ⟨ok, -⟩ | ⟨e, source, wet, next, failed⟩ | out⟩ :=
    pullUntil_cases ready limit s
  · rw [ok]
    exact pulls.operates
  · rw [failed]
    exact pulls.operates.tail (.failed wet next)
  · rw [out]
    exact pulls.operates

theorem operates_search {α : Type} (ready : Stream σ → Bool) (read : Stream σ → α) (limit : Nat)
    (s : Stream σ) : Operates s ((search ready read limit).perform s).2 :=
  operates_bind (operates_pullUntil ready limit s) fun _ _ _ => .refl

theorem operates_nextVisible (limit i : Nat) (s : Stream σ) :
    Operates s ((nextVisible limit i).perform s).2 := by
  rw [perform_nextVisible]
  exact operates_search _ _ limit s

/-! ## Operations with the cursor -/

theorem operates_seek (limit i : Nat) (s : Stream σ) :
    Operates s ((seek limit i).perform s).2 := by
  apply operates_bind (operates_nextVisible limit i s)
  intro j t search
  exact .single (.placed (nextVisible_ok search).2.2)

theorem operates_position (limit : Nat) (s : Stream σ) :
    Operates s ((position limit).perform s).2 := by
  rcases placed : s.cursor with _ | p
  · rw [perform_position_of_none placed]
    apply operates_bind (operates_nextVisible limit 0 s)
    intro p t search
    exact .single (.placed (nextVisible_ok search).2.2)
  · rw [perform_position_of_some placed]

theorem operates_consume (limit : Nat) (s : Stream σ) :
    Operates s ((consume limit).perform s).2 := by
  apply operates_bind (operates_position limit s)
  intro p t _
  rw [StreamM.perform_bind, StreamM.perform_get]
  dsimp only
  split
  · exact operates_seek limit (p + 1) t
  · exact .refl

theorem operates_mark (limit : Nat) (s : Stream σ) :
    Operates s ((mark limit).perform s).2 := by
  apply operates_bind (operates_position limit s)
  intro p t positioned
  exact .single (.marked (position_ok positioned).1)

theorem operates_rewindToMark (limit : Nat) (s : Stream σ) :
    Operates s ((rewindToMark limit).perform s).2 := by
  rw [rewindToMark, StreamM.perform_bind, StreamM.perform_get]
  exact operates_seek limit s.lastMark s

theorem operates_stepsAhead (limit k i : Nat) (s : Stream σ) :
    Operates s ((stepsAhead limit k i).perform s).2 := by
  induction k generalizing i s with
  | zero => exact .refl
  | succ k ih =>
    by_cases hi : i < s.size
    · rw [perform_stepsAhead_of_lt hi]
      exact operates_bind (operates_nextVisible limit (i + 1) s) fun j t _ => ih j t
    · rw [perform_stepsAhead_of_not_lt hi]

theorem operates_lookahead (limit : Nat) (k : Int) (s : Stream σ) :
    Operates s ((lookahead limit k).perform s).2 := by
  match k with
  | .ofNat 0 => exact .refl
  | .ofNat (k + 1) =>
    apply operates_bind (operates_position limit s)
    intro p t _
    exact operates_bind (operates_stepsAhead limit k p t) fun _ _ _ => .refl
  | .negSucc k => exact operates_bind (operates_position limit s) fun _ _ _ => .refl

theorem operates_drainTexts (limit count : Nat) (s : Stream σ) :
    Operates s ((drainTexts limit count).perform s).2 := by
  induction count generalizing s with
  | zero => exact .refl
  | succ count ih =>
    apply operates_bind (operates_lookahead limit 1 s)
    intro found t _
    cases found with
    | none => exact .refl
    | some token =>
      dsimp only
      split
      · exact .refl
      · apply operates_bind (operates_consume limit t)
        intro _ u _
        exact operates_bind_pure (ih u)

theorem operates_drain (limit : Nat) (s : Stream σ) :
    Operates s ((drain limit).perform s).2 := by
  rw [drain, StreamM.perform_bind, StreamM.perform_get]
  exact operates_drainTexts limit _ s

/-! ## Operations on slots by number -/

theorem operates_range (limit first last : Nat) (s : Stream σ) :
    Operates s ((range limit first last).perform s).2 := by
  unfold range
  split
  · exact .refl
  · exact operates_bind (operates_pullUntil _ limit s) fun _ _ _ => .refl

/-! ## Commands -/

/-- What holds of the operations that commands are made of, each given by the pulls it is allowed,
and is kept when an answer is wrapped, holds of the commands. The name of the source, consuming,
looking ahead, marking and draining are asked for only if the command is one that does so. -/
theorem exec_induction_limits {c : Command σ} (op : c.isOperation = true)
    {P : ∀ {α : Type}, (Nat → StreamM σ α) → Prop}
    (wrap : ∀ {α β : Type} {op : Nat → StreamM σ α} (f : α → β), P op →
      P (fun limit => op limit >>= fun a => pure (f a)))
    (value : ∀ {α : Type} (a : α), P (fun _ => pure a))
    (policy : ∀ read : Policy → Answer σ, (∀ {p q}, p.Agrees q → read p = read q) →
      P (fun _ => getThe (Stream σ) >>= fun s => pure (read s.policy)))
    (name : c = .sourceName →
      P (fun _ =>
        getThe (Stream σ) >>= fun s => pure (Answer.text? (TokenSource.name s.source) : Answer σ)))
    (consume : c = .consume → P consume)
    (lookahead : ∀ k, c = .lookahead k ∨ c = .peekKind k ∨ c = .isAtEnd ∧ k = 1 →
      P (lookahead · k))
    (get? : ∀ i, P (get? · i))
    (mark : c = .mark → P mark)
    (seek : ∀ i, P (seek · i))
    (rewindToMark : P rewindToMark)
    (fill : P fill)
    (tokens : P tokens)
    (range : ∀ first last, P (range · first last))
    (drain : c = .drain → P drain) : P (exec · c) := by
  cases c with
  | consume => exact wrap _ (consume rfl)
  | peekKind k => exact wrap _ (wrap _ (lookahead k (Or.inr (Or.inl rfl))))
  | lookahead k => exact wrap _ (lookahead k (Or.inl rfl))
  | get i => exact wrap _ (get? i)
  | display i => exact wrap _ (get? i)
  | mark => exact wrap _ (mark rfl)
  | release marker => exact value _
  | rewind marker => exact wrap _ (seek marker)
  | rewindToMark => exact wrap _ rewindToMark
  | seek i => exact wrap _ (seek i)
  | sourceName => exact name rfl
  | fill => exact wrap _ fill
  | isAtEnd => exact wrap _ (wrap _ (lookahead 1 (Or.inr (Or.inr ⟨rfl, rfl⟩))))
  | channel => exact policy (fun p => .channel p.channel) fun h => by rw [h.channel]
  | routeOf kind =>
    exact policy (fun p => .channel? (p.overrides.find? kind)) fun h => by rw [h.overrides]
  | dropsOffChannel =>
    exact policy (fun p => .flag p.dropsOffChannel) fun h => by rw [h.dropsOffChannel]
  | isDiscarded kind =>
    exact policy (fun p => .flag (p.discards.contains kind)) fun h => by rw [h.discards]
  | tokens => exact wrap _ tokens
  | range first last => exact wrap _ (range first last)
  | rangeInSet first last kinds => exact wrap _ (wrap _ (range first last))
  | rangeOfKinds first last kinds => exact wrap _ (wrap _ (range first last))
  | rangeOfKind first last kind => exact wrap _ (wrap _ (range first last))
  | text => exact wrap _ (wrap _ tokens)
  | textRange first last => exact wrap _ (wrap _ (range first last))
  | textBetween first last =>
    simp only [exec, textBetween]
    split
    · exact wrap _ (wrap _ (range _ _))
    · exact wrap _ (value "")
  | drain => exact wrap _ (drain rfl)
  | discard kind => cases op
  | reroute kind channel => cases op
  | dropOffChannel drop => cases op
  | pullSource => cases op
  | replace source => cases op

/-- The same for a number of pulls that is fixed. -/
theorem exec_induction {limit : Nat} {c : Command σ} (op : c.isOperation = true)
    {P : ∀ {α : Type}, StreamM σ α → Prop}
    (wrap : ∀ {α β : Type} {op : StreamM σ α} (f : α → β), P op → P (op >>= fun a => pure (f a)))
    (value : ∀ {α : Type} (a : α), P (pure a))
    (policy : ∀ read : Policy → Answer σ, (∀ {p q}, p.Agrees q → read p = read q) →
      P (getThe (Stream σ) >>= fun s => pure (read s.policy)))
    (name : c = .sourceName →
      P (getThe (Stream σ) >>= fun s => pure (Answer.text? (TokenSource.name s.source) : Answer σ)))
    (consume : c = .consume → P (consume limit))
    (lookahead : ∀ k, c = .lookahead k ∨ c = .peekKind k ∨ c = .isAtEnd ∧ k = 1 →
      P (lookahead limit k))
    (get? : ∀ i, P (get? limit i))
    (mark : c = .mark → P (mark limit))
    (seek : ∀ i, P (seek limit i))
    (rewindToMark : P (rewindToMark limit))
    (fill : P (fill limit))
    (tokens : P (tokens limit))
    (range : ∀ first last, P (range limit first last))
    (drain : c = .drain → P (drain limit)) : P (exec limit c) :=
  exec_induction_limits op (P := fun op => P (op limit)) wrap value policy name consume lookahead
    get? mark seek rewindToMark fill tokens range drain

/-- An operation does no more to a stream than motions do. -/
theorem operates_exec (limit : Nat) {c : Command σ} (op : c.isOperation = true) (s : Stream σ) :
    Operates s ((exec limit c).perform s).2 := by
  revert s
  apply exec_induction op (P := fun op => ∀ s, Operates s (op.perform s).2)
  case wrap => exact fun f h s => operates_bind_pure (h s)
  case value => exact fun a s => .refl
  case policy => exact fun read _ s => .refl
  case name => exact fun _ s => .refl
  case consume => exact fun _ => operates_consume limit
  case lookahead => exact fun k _ => operates_lookahead limit k
  case get? => exact fun i => operates_search _ _ limit
  case mark => exact fun _ => operates_mark limit
  case seek => exact operates_seek limit
  case rewindToMark => exact operates_rewindToMark limit
  case fill => exact operates_pullUntil _ limit
  case tokens => exact operates_search _ _ limit
  case range => exact operates_range limit
  case drain => exact fun _ => operates_drain limit

theorem perform_pullSource (s : Stream σ) :
    ((pullSource : StreamM σ Token).perform s).2 =
      { s with source := (TokenSource.next s.source).2 } := by
  rw [pullSource, StreamM.perform_bind, StreamM.perform_get]
  dsimp only
  rw [StreamM.perform_bind, StreamM.perform_set]
  dsimp only
  split <;> rfl

theorem perform_pullSource_ok {s : Stream σ} {t : Token} {source : σ}
    (h : TokenSource.next s.source = (.ok t, source)) :
    (pullSource : StreamM σ Token).perform s = (.ok t, { s with source }) := by
  simp only [pullSource, StreamM.perform_bind, StreamM.perform_get, StreamM.perform_set, h,
    StreamM.perform_pure]

theorem perform_pullSource_error {s : Stream σ} {e : SourceError} {source : σ}
    (h : TokenSource.next s.source = (.error e, source)) :
    (pullSource : StreamM σ Token).perform s = (.error (.failed e), { s with source }) := by
  simp only [pullSource, StreamM.perform_bind, StreamM.perform_get, StreamM.perform_set, h,
    StreamM.perform_throw]

theorem perform_exec_pullSource (limit : Nat) (s : Stream σ) :
    ((exec limit .pullSource).perform s).2 =
      { s with source := (TokenSource.next s.source).2 } := by
  rw [← perform_pullSource, exec, StreamM.perform_bind]
  rcases (pullSource : StreamM σ Token).perform s with ⟨_ | _, t⟩ <;> rfl

/-- What the other commands do to a stream: they change the policy but for the channel, pull the
source without the stream taking notice, or install another source. -/
theorem other_exec (limit : Nat) {c : Command σ} (other : c.isOperation = false) (s : Stream σ) :
    (∃ policy journal, policy.channel = s.policy.channel ∧
        ((exec limit c).perform s).2 = { s with policy, journal }) ∨
      c = .pullSource ∧
        ((exec limit c).perform s).2 = { s with source := (TokenSource.next s.source).2 } ∨
      ∃ source, c = .replace source ∧ ((exec limit c).perform s).2 = s.replaceSource source := by
  cases c with
  | discard kind =>
    left
    show ∃ policy journal, policy.channel = s.policy.channel ∧
      s.discard kind = { s with policy, journal }
    unfold discard
    split
    · exact ⟨s.policy, s.journal, rfl, rfl⟩
    · exact ⟨s.policy.discard kind, (s.note (.discarding kind)).journal, rfl, rfl⟩
  | reroute kind channel =>
    exact Or.inl
      ⟨s.policy.reroute kind channel, (s.note (.rerouting kind channel)).journal, rfl, rfl⟩
  | dropOffChannel drop =>
    exact Or.inl
      ⟨s.policy.dropOffChannel drop, (s.note (.droppingOffChannel drop)).journal, rfl, rfl⟩
  | pullSource => exact Or.inr (Or.inl ⟨rfl, perform_exec_pullSource limit s⟩)
  | replace source => exact Or.inr (Or.inr ⟨source, rfl, rfl⟩)
  | _ => cases other

/-! ## Reachable streams -/

/-- What a new stream can become by commands, whatever their outcome. -/
inductive Reachable : Stream σ → Prop
  | start (policy : Policy) (source : σ) : Reachable (.start policy source)
  | exec {s : Stream σ} (limit : Nat) (c : Command σ) :
    Reachable s → Reachable ((Stream.exec limit c).perform s).2

theorem Reachable.of_perform {s t : Stream σ} (h : Reachable s) {limit : Nat} {c : Command σ}
    {result : Except Interrupt (Answer σ)}
    (performed : (Stream.exec limit c).perform s = (result, t)) : Reachable t := by
  have left := Reachable.exec limit c h
  rwa [performed] at left

/-- What holds of new streams and is kept by the motions, by changes of the policy that leave the
tuned channel alone and by changes of the source holds of all reachable streams. -/
theorem Reachable.invariant {Inv : Stream σ → Prop}
    (new : ∀ policy source journal, Inv { Stream.start policy source with journal })
    (motion : ∀ {s t}, Motion s t → Inv s → Inv t)
    (policy : ∀ {s : Stream σ} {policy : Policy} (journal : Array Event),
      policy.channel = s.policy.channel → Inv s → Inv { s with policy, journal })
    (source : ∀ {s : Stream σ} (source : σ), Inv s → Inv { s with source })
    {s : Stream σ} (h : Reachable s) : Inv s := by
  induction h with
  | start p source => exact new p source #[]
  | @exec s limit c _ ih =>
    by_cases op : c.isOperation = true
    · exact (operates_exec limit op s).invariant motion ih
    · rcases other_exec limit (Bool.eq_false_iff.2 op) s with
        ⟨p, journal, channel, left⟩ | ⟨-, left⟩ | ⟨other, -, left⟩
      · rw [left]
        exact policy journal channel ih
      · rw [left]
        exact source _ ih
      · rw [left]
        exact new s.policy other _

end Stream

end Lookahead
