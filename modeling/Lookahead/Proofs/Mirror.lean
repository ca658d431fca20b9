import Lookahead.Proofs.Motion
import Lookahead.Source.Metered

/-!
# Streams over scripts with failures

A stream over a script with failing pulls mirrors one over the same script without them, as long as
the two differ by no more than the failures (`Mirrors`). An operation that answers from the second
stream gives the same answer from the first and leaves mirrored streams, or it is interrupted by one
of the failures (`Attempt`). In the second case it leaves a stream that mirrors some other one, from
which the operation answers as it would have in the first place: it can be tried again
(`retriable_exec`).

What makes this true of one operation after another is that the first, carried out again, answers as
before and does nothing more, whatever pulls the second has made (`retriable_bind`).
-/

namespace Lookahead

/-- Whether a command may be repeated after a failure. Draining loses the texts that it has consumed
by then, and the stream has no part in pulls behind its back. -/
def Command.isRepeatable {σ : Type} : Command σ → Bool
  | .drain | .pullSource | .replace _ => false
  | _ => true

namespace ScriptedSource

/-- The number of failing pulls to come. -/
def failures (s : ScriptedSource) : Nat := s.pending.countP fun r => !r.isOk

/-- The script without its failing pulls. -/
def flawless (s : ScriptedSource) : ScriptedSource :=
  { s with pending := s.pending.filter fun r => r.isOk }

/-- A pull gives what it gives without the failures, or it is one of them. -/
theorem next_cases {s : ScriptedSource} {last : Token} (tail : s.tail = .ok last) :
    (∃ t rest, TokenSource.next s = (.ok t, rest) ∧
        TokenSource.next s.flawless = (.ok t, rest.flawless) ∧ rest.failures = s.failures ∧
        rest.tail = .ok last) ∨
      ∃ e rest, TokenSource.next s = (.error e, rest) ∧ rest.flawless = s.flawless ∧
        rest.failures < s.failures ∧ rest.tail = .ok last := by
  rcases s with ⟨_ | ⟨e | t, pending⟩, tail', name⟩
  · cases tail
    exact Or.inl ⟨last, _, rfl, rfl, rfl, rfl⟩
  · refine Or.inr ⟨e, ⟨pending, tail', name⟩, rfl, rfl, ?_, tail⟩
    rw [failures, failures, List.countP_cons]
    exact Nat.lt_succ_self _
  · refine Or.inl ⟨t, ⟨pending, tail', name⟩, rfl, rfl, ?_, tail⟩
    rw [failures, failures, List.countP_cons]
    rfl

end ScriptedSource

/-- A script whose pulls are counted. -/
abbrev Script := Metered ScriptedSource

/-- Whether an event is a pull that failed. -/
def Event.isFailure : Event → Bool
  | failed _ => true
  | _ => false

namespace Stream

/-- The number of pulls that have failed so far. -/
def failedPulls {σ : Type} (s : Stream σ) : Nat := s.journal.toList.countP Event.isFailure

/-- The streams are the same but for pulls that failed or will fail for the first one. -/
structure Mirrors (s s' : Stream Script) : Prop where
  policy : s.policy = s'.policy
  buffer : s.buffer = s'.buffer
  endToken : s.endToken = s'.endToken
  cursor : s.cursor = s'.cursor
  lastMark : s.lastMark = s'.lastMark
  source : s.source.source.flawless = s'.source.source
  tail : ∃ last, s.source.source.tail = .ok last
  pulls : s.source.pulls = s'.source.pulls + s.failedPulls
  records : s.recordsSince 0 = s'.recordsSince 0

section

variable {σ : Type}

theorem recordsSince_note (s : Stream σ) (e : Event) :
    (s.note e).recordsSince 0 = s.recordsSince 0 ++ e.record?.toList := by
  simp only [recordsSince, note, Array.toList_push, List.drop_zero, List.filterMap_append]
  cases record : e.record? with
  | none => rw [List.filterMap_cons_none record, List.filterMap_nil, Option.toList_none]
  | some r => rw [List.filterMap_cons_some record, List.filterMap_nil, Option.toList_some]

theorem failedPulls_note (s : Stream σ) (e : Event) :
    (s.note e).failedPulls = s.failedPulls + if e.isFailure then 1 else 0 := by
  rw [failedPulls, note, Array.toList_push, List.countP_append, List.countP_singleton, failedPulls]

end

variable {s s' : Stream Script}

namespace Mirrors

theorem size (h : Mirrors s s') : s.size = s'.size := congrArg Array.size h.buffer

theorem isDry (h : Mirrors s s') : s.isDry = s'.isDry := congrArg Option.isSome h.endToken

theorem note (h : Mirrors s s') {e : Event} (sound : e.isFailure = false) :
    Mirrors (s.note e) (s'.note e) where
  policy := h.policy
  buffer := h.buffer
  endToken := h.endToken
  cursor := h.cursor
  lastMark := h.lastMark
  source := h.source
  tail := h.tail
  pulls := by
    rw [failedPulls_note, sound]
    exact h.pulls
  records := by rw [recordsSince_note, recordsSince_note, h.records]

theorem withPolicy (h : Mirrors s s') (policy : Policy) :
    Mirrors { s with policy } { s' with policy } :=
  { h with policy := rfl }

theorem withCursor (h : Mirrors s s') (cursor : Option Nat) :
    Mirrors { s with cursor } { s' with cursor } :=
  { h with cursor := rfl }

theorem withMark (h : Mirrors s s') (lastMark : Nat) :
    Mirrors { s with lastMark } { s' with lastMark } :=
  { h with lastMark := rfl }

theorem receive (h : Mirrors s s') (t : Token) : Mirrors (s.receive t) (s'.receive t) := by
  unfold Stream.receive
  rw [h.policy, h.size]
  split
  · exact { h.note (e := .ended t s'.size) rfl with endToken := rfl }
  · split
    · next channel _ =>
      have buffer : s.buffer.push ((t.moveTo channel).stamp s'.size) =
          s'.buffer.push ((t.moveTo channel).stamp s'.size) := by rw [h.buffer]
      exact { h.note (e := .received t (.keep channel)) rfl with buffer }
    · exact h.note rfl

/-- A pull that fails leaves the stream the mirror that it was. -/
theorem fail (h : Mirrors s s') {e : SourceError} {rest : ScriptedSource}
    (same : rest.flawless = s.source.source.flawless)
    (tail : ∃ last, rest.tail = .ok last) :
    Mirrors (Stream.note { s with source := ⟨rest, s.source.pulls + 1⟩ } (.failed e)) s' where
  policy := h.policy
  buffer := h.buffer
  endToken := h.endToken
  cursor := h.cursor
  lastMark := h.lastMark
  source := same.trans h.source
  tail := tail
  pulls := by
    rw [failedPulls_note]
    have before := h.pulls
    show s.source.pulls + 1 = s'.source.pulls + (s.failedPulls + 1)
    omega
  records := by
    rw [recordsSince_note]
    exact (List.append_nil _).trans h.records

/-- A pull of a mirrored stream pulls the mirror too, or it fails and leaves the mirror alone. -/
theorem pull_cases (h : Mirrors s s') :
    (∃ t t', (pull : StreamM _ Unit).perform s = (.ok (), t) ∧
        (pull : StreamM _ Unit).perform s' = (.ok (), t') ∧ Mirrors t t' ∧
        t.source.source.failures = s.source.source.failures) ∨
      ∃ e t, (pull : StreamM _ Unit).perform s = (.error (.failed e), t) ∧ Mirrors t s' ∧
        t.source.source.failures < s.source.source.failures := by
  obtain ⟨last, tail⟩ := h.tail
  rcases ScriptedSource.next_cases tail with
    ⟨token, rest, next, next', left, tail'⟩ | ⟨e, rest, next, same, fewer, tail'⟩
  · rw [h.source] at next'
    have pulled := perform_pull_ok (Metered.next_eq next)
    have pulled' := perform_pull_ok (Metered.next_eq next')
    have pulls : s.source.pulls + 1 = s'.source.pulls + 1 + s.failedPulls := by
      have before := h.pulls
      omega
    have taken : Mirrors { s with source := ⟨rest, s.source.pulls + 1⟩ }
        { s' with source := ⟨rest.flawless, s'.source.pulls + 1⟩ } :=
      { h with source := rfl, tail := ⟨last, tail'⟩, pulls }
    refine Or.inl ⟨_, _, pulled, pulled', taken.receive token, ?_⟩
    rw [receive_source]
    exact left
  · exact Or.inr ⟨e, _, perform_pull_error (Metered.next_eq next), h.fail same ⟨last, tail'⟩, fewer⟩

end Mirrors

/-! ## Attempts -/

/-- What comes of an operation that answers from the mirror `s'`: it answers from `s` as well, or a
pull fails. The failure leaves a mirror of a stream that is `related` to `s'`, and from which the
operation answers the same. -/
inductive Attempt {α : Type} (Related : Stream Script → Stream Script → Prop)
    (op : StreamM Script α) (s s' : Stream Script) (a : α) (t' : Stream Script) : Prop
  | answered {t : Stream Script} :
    op.perform s = (.ok a, t) → Mirrors t t' →
    t.source.source.failures ≤ s.source.source.failures → Attempt Related op s s' a t'
  | failed {e : SourceError} {u u' : Stream Script} :
    op.perform s = (.error (.failed e), u) → Mirrors u u' →
    u.source.source.failures < s.source.source.failures → Related s' u' →
    op.perform u' = (.ok a, t') → Attempt Related op s s' a t'

theorem Attempt.weaken {α : Type} {Related : Stream Script → Stream Script → Prop}
    {op : StreamM Script α} {s s' t' : Stream Script} {a : α} (h : Attempt Related op s s' a t') :
    Attempt (fun _ _ => True) op s s' a t' := by
  cases h with
  | answered ok mirrors left => exact .answered ok mirrors left
  | failed failed mirrors fewer _ ok => exact .failed failed mirrors fewer trivial ok

/-- Wherever the operation answers from a mirror, it can be tried until it answers. -/
def Retriable {α : Type} (Related : Stream Script → Stream Script → Prop)
    (op : StreamM Script α) : Prop :=
  ∀ ⦃s s' a t'⦄, Mirrors s s' → op.perform s' = (.ok a, t') → Attempt Related op s s' a t'

section

variable {α β : Type} {Related : Stream Script → Stream Script → Prop}

theorem retriable_pure (a : α) : Retriable Related (pure a : StreamM Script α) := by
  intro s s' b t' mirrors h
  cases h
  exact .answered rfl mirrors (Nat.le_refl _)

/-- Reading what mirrors have in common. -/
theorem retriable_read {read : Stream Script → α}
    (same : ∀ {s s'}, Mirrors s s' → read s = read s') :
    Retriable Related (get >>= fun s => pure (read s)) := by
  intro s s' a t' mirrors h
  cases h
  exact .answered (by rw [← same mirrors]; rfl) mirrors (Nat.le_refl _)

theorem retriable_modify {f : Stream Script → Stream Script}
    (step : ∀ {s s'}, Mirrors s s' → Mirrors (f s) (f s')) (source : ∀ s, (f s).source = s.source) :
    Retriable Related (modify f : StreamM Script PUnit) := by
  intro s s' a t' mirrors h
  cases h
  exact .answered rfl (step mirrors) (by rw [source])

/-- The second operation may fail where the first has answered. Both are tried again then, and it
takes that the first answers as before and stays where it is. -/
theorem retriable_bind {Related' : Stream Script → Stream Script → Prop} {op : StreamM Script α}
    {next : α → StreamM Script β}
    (first : Retriable Related op) (then_ : ∀ a, Retriable Related' (next a))
    (again : ∀ {s a t u}, op.perform s = (.ok a, t) → Related' t u →
      op.perform u = (.ok a, u) ∧ Related s u) :
    Retriable Related (op >>= next) := by
  intro s s' b t' mirrors h
  rcases StreamM.perform_bind_ok h with ⟨a, v', performed, rest⟩
  rcases first mirrors performed with ⟨ok, mirrors', left⟩ | ⟨failed, mirrors', fewer, related, ok⟩
  · rcases then_ a mirrors' rest with
      ⟨ok', mirrors'', left'⟩ | ⟨failed, mirrors'', fewer, related, ok'⟩
    · exact .answered ((StreamM.perform_bind_of_ok ok next).trans ok') mirrors''
        (Nat.le_trans left' left)
    · obtain ⟨redone, related'⟩ := again performed related
      exact .failed ((StreamM.perform_bind_of_ok ok next).trans failed) mirrors''
        (Nat.lt_of_lt_of_le fewer left) related'
        ((StreamM.perform_bind_of_ok redone next).trans ok')
  · exact .failed (StreamM.perform_bind_of_error failed next) mirrors' fewer related
      ((StreamM.perform_bind_of_ok ok next).trans rest)

/-- What never fails may follow anything. -/
theorem retriable_bind_sure {op : StreamM Script α} {next : α → StreamM Script β}
    (first : Retriable Related op) (then_ : ∀ a, Retriable (fun _ _ => False) (next a)) :
    Retriable Related (op >>= next) :=
  retriable_bind first then_ fun _ never => never.elim

theorem retriable_bind_pure {op : StreamM Script α} {f : α → β} (h : Retriable Related op) :
    Retriable Related (op >>= fun a => pure (f a)) :=
  retriable_bind_sure h fun a => retriable_pure (f a)

end

/-! ## Searches -/

variable {α : Type}

theorem retriable_pullUntil {ready : Stream Script → Bool}
    (same : ∀ {s s'}, Mirrors s s' → ready s = ready s') (limit : Nat) :
    Retriable Pulls (pullUntil ready limit) := by
  intro s s' a t' mirrors h
  have stops : (s.isDry || ready s) = (s'.isDry || ready s') := by rw [mirrors.isDry, same mirrors]
  induction limit generalizing s s' with
  | zero =>
    cases stops' : s'.isDry || ready s' with
    | true =>
      rw [perform_pullUntil_of_ready stops'] at h
      cases h
      exact .answered (perform_pullUntil_of_ready (stops.trans stops') 0) mirrors (Nat.le_refl _)
    | false =>
      rw [perform_pullUntil_zero stops'] at h
      cases h
  | succ limit ih =>
    cases stops' : s'.isDry || ready s' with
    | true =>
      rw [perform_pullUntil_of_ready stops'] at h
      cases h
      exact .answered (perform_pullUntil_of_ready (stops.trans stops') _) mirrors (Nat.le_refl _)
    | false =>
      have loop := perform_pullUntil_succ (stops.trans stops') limit
      rcases mirrors.pull_cases with
        ⟨v, v', pulled, pulled', mirrors', left⟩ | ⟨e, u, failed, mirrors', fewer⟩
      · have wet : s'.isDry = false := (Bool.or_eq_false_iff.1 stops').1
        rw [perform_pullUntil_succ stops', StreamM.perform_bind_of_ok pulled'] at h
        rw [StreamM.perform_bind_of_ok pulled] at loop
        have stops'' : (v.isDry || ready v) = (v'.isDry || ready v') := by
          rw [mirrors'.isDry, same mirrors']
        rcases ih mirrors' h stops'' with
          ⟨ok, mirrors'', left'⟩ | ⟨failed, mirrors'', fewer, pulls, ok⟩
        · exact .answered (loop.trans ok) mirrors'' (left ▸ left')
        · exact .failed (loop.trans failed) mirrors'' (left ▸ fewer) (.head ⟨wet, pulled'⟩ pulls)
            (pullUntil_succ_ok ok)
      · rw [StreamM.perform_bind_of_error failed] at loop
        exact .failed loop mirrors' fewer .refl h

theorem retriable_search {ready : Stream Script → Bool} {read : Stream Script → α}
    (ready_eq : ∀ {s s'}, Mirrors s s' → ready s = ready s')
    (read_eq : ∀ {s s'}, Mirrors s s' → read s = read s') (limit : Nat) :
    Retriable Pulls (search ready read limit) :=
  retriable_bind_sure (retriable_pullUntil ready_eq limit) fun _ => retriable_read read_eq

/-- A search that has answered answers the same after more pulls, and pulls no more. -/
theorem Steady.search_again {σ : Type} [TokenSource σ] {ready : Stream σ → Bool}
    {read : Stream σ → α} (steady : Steady ready read) {limit : Nat} {s t u : Stream σ} {a : α}
    (h : (search ready read limit).perform s = (.ok a, t)) (pulls : Pulls t u) :
    (search ready read limit).perform u = (.ok a, u) ∧ Pulls s u := by
  obtain ⟨loop, rfl⟩ := search_ok h
  obtain ⟨pulls', stops⟩ := pullUntil_ok loop
  obtain ⟨stops', same⟩ := steady.read_pulls pulls stops
  refine ⟨?_, pulls'.trans pulls⟩
  rw [perform_search, perform_pullUntil_of_ready stops', ← same]

theorem Mirrors.visibleFrom? (h : Mirrors s s') (i : Nat) :
    s.visibleFrom? i = s'.visibleFrom? i :=
  visibleFrom?_congr h.buffer (congrArg Policy.channel h.policy) i

theorem Mirrors.stepsBack? (h : Mirrors s s') (k i : Nat) :
    s.stepsBack? k i = s'.stepsBack? k i :=
  stepsBack?_congr h.buffer (congrArg Policy.channel h.policy) k i

theorem Mirrors.sees (h : Mirrors s s') (i : Nat) : Stream.sees i s = Stream.sees i s' := by
  rw [Stream.sees, Stream.sees, h.visibleFrom?]

theorem Mirrors.target (h : Mirrors s s') (i : Nat) : Stream.target i s = Stream.target i s' := by
  rw [Stream.target, Stream.target, h.visibleFrom?, h.size]

/-! ## Operations with the cursor -/

theorem retriable_nextVisible (limit i : Nat) :
    Retriable Pulls (nextVisible limit i : StreamM Script Nat) := by
  intro s s' j t' mirrors h
  rw [perform_nextVisible] at h
  have search := retriable_search (Mirrors.sees · i) (Mirrors.target · i) limit mirrors h
  rcases search with ⟨ok, mirrors', left⟩ | ⟨failed, mirrors', fewer, pulls, ok⟩
  · exact .answered ((perform_nextVisible limit i s).trans ok) mirrors' left
  · exact .failed ((perform_nextVisible limit i s).trans failed) mirrors' fewer pulls
      ((perform_nextVisible limit i _).trans ok)

theorem nextVisible_again {σ : Type} [TokenSource σ] {limit i j : Nat} {s t u : Stream σ}
    (h : (nextVisible limit i).perform s = (.ok j, t)) (pulls : Pulls t u) :
    (nextVisible limit i).perform u = (.ok j, u) ∧ Pulls s u := by
  rw [perform_nextVisible] at h ⊢
  exact (lasting_sees i).steady.search_again h pulls

theorem retriable_place (i : Nat) : Retriable Pulls (place i : StreamM Script Unit) :=
  retriable_modify (fun mirrors => mirrors.withCursor (some i)) fun _ => rfl

theorem retriable_seek (limit i : Nat) : Retriable Pulls (seek limit i : StreamM Script Unit) :=
  retriable_bind (retriable_nextVisible limit i) retriable_place nextVisible_again

theorem retriable_position (limit : Nat) :
    Retriable Pulls (position limit : StreamM Script Nat) := by
  intro s s' p t' mirrors h
  rcases placed : s'.cursor with _ | q
  · have settle : Retriable Pulls (nextVisible limit 0 >>= fun p => place p >>= fun _ => pure p) :=
      retriable_bind (retriable_nextVisible limit 0)
        (fun p => retriable_bind_pure (retriable_place p)) nextVisible_again
    rw [perform_position_of_none placed] at h
    have start := perform_position_of_none (mirrors.cursor.trans placed) limit
    rcases settle mirrors h with ⟨ok, mirrors', left⟩ | ⟨failed, mirrors', fewer, pulls, ok⟩
    · exact .answered (start.trans ok) mirrors' left
    · -- the cursor is not set before the search is over
      have unset := perform_position_of_none (pulls.cursor.trans placed) limit
      exact .failed (start.trans failed) mirrors' fewer pulls (unset.trans ok)
  · rw [perform_position_of_some placed] at h
    cases h
    exact .answered (perform_position_of_some (mirrors.cursor.trans placed) limit) mirrors
      (Nat.le_refl _)

/-- The cursor stays where it was positioned. -/
theorem position_again {σ : Type} [TokenSource σ] {limit p : Nat} {s t u : Stream σ}
    (h : (position limit).perform s = (.ok p, t)) (pulls : Pulls t u) :
    (position limit).perform u = (.ok p, u) :=
  perform_position_of_some (pulls.cursor.trans (position_ok h).1) limit

/-- What is done from a cursor that has been positioned can be tried again from there. -/
theorem retriable_from_position {next : Nat → StreamM Script α} (limit : Nat)
    (h : ∀ p, Retriable Pulls (next p)) :
    Retriable (fun _ _ => True) (position limit >>= next) := by
  have first : Retriable (fun _ _ => True) (position limit : StreamM Script Nat) :=
    fun s s' p t' mirrors performed => (retriable_position limit mirrors performed).weaken
  refine retriable_bind first h fun positioned pulls => ⟨position_again positioned pulls, trivial⟩

/-- The buffer never shrinks, so what is done below its size is done when it is tried again. -/
theorem retriable_below {op : StreamM Script α} (h : Retriable Pulls op) (i : Nat) (a : α) :
    Retriable Pulls (get >>= fun s => if i < s.size then op else pure a) := by
  intro s s' b t' mirrors performed
  have size := mirrors.size
  rw [StreamM.perform_bind, StreamM.perform_get] at performed
  dsimp only at performed
  by_cases below : i < s'.size
  · rw [if_pos below] at performed
    have start (u : Stream Script) (below : i < u.size) :
        (get >>= fun s => if i < s.size then op else pure a).perform u = op.perform u := by
      rw [StreamM.perform_bind, StreamM.perform_get]
      simp only [below, if_true]
    rcases h mirrors performed with ⟨ok, mirrors', left⟩ | ⟨failed, mirrors', fewer, pulls, ok⟩
    · exact .answered ((start s (size ▸ below)).trans ok) mirrors' left
    · have later := Nat.lt_of_lt_of_le below pulls.within.size_le
      exact .failed ((start s (size ▸ below)).trans failed) mirrors' fewer pulls
        ((start _ later).trans ok)
  · rw [if_neg below] at performed
    cases performed
    refine .answered ?_ mirrors (Nat.le_refl _)
    rw [StreamM.perform_bind, StreamM.perform_get]
    simp only [size, below, if_false, StreamM.perform_pure]

theorem retriable_consume (limit : Nat) :
    Retriable (fun _ _ => True) (consume limit : StreamM Script Unit) :=
  retriable_from_position limit fun p => retriable_below (retriable_seek limit (p + 1)) p ()

theorem retriable_mark (limit : Nat) :
    Retriable (fun _ _ => True) (mark limit : StreamM Script Nat) :=
  retriable_from_position limit fun p =>
    retriable_bind_pure (retriable_modify (fun mirrors => mirrors.withMark p) fun _ => rfl)

theorem retriable_rewindToMark (limit : Nat) :
    Retriable (fun _ _ => True) (rewindToMark limit : StreamM Script Unit) := by
  intro s s' a t' mirrors h
  have start (u : Stream Script) (same : u.lastMark = s'.lastMark) :
      (rewindToMark limit).perform u = (seek limit s'.lastMark).perform u := by
    rw [rewindToMark, StreamM.perform_bind, StreamM.perform_get, ← same]
  rw [start s' rfl] at h
  rcases retriable_seek limit s'.lastMark mirrors h with
    ⟨ok, mirrors', left⟩ | ⟨failed, mirrors', fewer, pulls, ok⟩
  · exact .answered ((start s mirrors.lastMark).trans ok) mirrors' left
  · exact .failed ((start s mirrors.lastMark).trans failed) mirrors' fewer trivial
      ((start _ pulls.lastMark).trans ok)

theorem retriable_stepsAhead (limit k i : Nat) :
    Retriable Pulls (stepsAhead limit k i : StreamM Script Nat) := by
  induction k generalizing i with
  | zero => exact retriable_pure i
  | succ k ih =>
    exact retriable_below (retriable_bind (retriable_nextVisible limit (i + 1)) ih
      nextVisible_again) i i

theorem retriable_lookahead (limit : Nat) (k : Int) :
    Retriable (fun _ _ => True) (lookahead limit k : StreamM Script (Option Token)) := by
  match k with
  | .ofNat 0 => exact retriable_pure none
  | .ofNat (k + 1) =>
    apply retriable_from_position limit
    intro p
    apply retriable_bind_sure (retriable_stepsAhead limit k p)
    intro i
    exact retriable_read fun mirrors => by rw [mirrors.buffer, mirrors.endToken]
  | .negSucc k =>
    apply retriable_from_position limit
    intro p
    apply retriable_read
    intro s s' mirrors
    rw [mirrors.stepsBack?, mirrors.buffer]

/-! ## Operations on slots by number -/

theorem retriable_range (limit first last : Nat) :
    Retriable Pulls (range limit first last : StreamM Script (List Token)) := by
  unfold range
  split
  · exact retriable_pure []
  · apply retriable_search
    · intro s s' mirrors
      rw [mirrors.size]
    · intro s s' mirrors
      rw [slots, slots, mirrors.buffer]

/-! ## Commands -/

theorem Mirrors.discard (h : Mirrors s s') (kind : Kind) :
    Mirrors (s.discard kind) (s'.discard kind) := by
  unfold Stream.discard
  rw [h.policy]
  split
  · exact h
  · exact (h.note rfl).withPolicy _

theorem Mirrors.reroute (h : Mirrors s s') (kind : Kind) (channel : Channel) :
    Mirrors (s.reroute kind channel) (s'.reroute kind channel) := by
  unfold Stream.reroute
  rw [h.policy]
  exact (h.note rfl).withPolicy _

theorem Mirrors.dropOffChannel (h : Mirrors s s') (drop : Bool) :
    Mirrors (s.dropOffChannel drop) (s'.dropOffChannel drop) := by
  unfold Stream.dropOffChannel
  rw [h.policy]
  exact (h.note rfl).withPolicy _

theorem Mirrors.sourceName (h : Mirrors s s') :
    TokenSource.name s.source = TokenSource.name s'.source := by
  show s.source.source.name = s'.source.source.name
  rw [← h.source]
  rfl

theorem Retriable.weaken {op : StreamM Script α} (h : Retriable Pulls op) :
    Retriable (fun _ _ => True) op :=
  fun _ _ _ _ mirrors performed => (h mirrors performed).weaken

theorem retriable_operation (limit : Nat) {c : Command Script} (op : c.isOperation = true)
    (repeatable : c.isRepeatable = true) : Retriable (fun _ _ => True) (exec limit c) := by
  apply exec_induction op (P := Retriable fun _ _ => True)
  case wrap => exact fun f h => retriable_bind_pure h
  case value => exact retriable_pure
  case policy => exact fun read _ => retriable_read fun mirrors => by rw [mirrors.policy]
  case name => exact fun _ => retriable_read fun mirrors => by rw [mirrors.sourceName]
  case consume => exact fun _ => retriable_consume limit
  case lookahead => exact fun k _ => retriable_lookahead limit k
  case get? =>
    intro i
    apply Retriable.weaken
    apply retriable_search
    · intro s s' mirrors
      rw [mirrors.size]
    · intro s s' mirrors
      rw [mirrors.buffer]
  case mark => exact fun _ => retriable_mark limit
  case seek => exact fun i => (retriable_seek limit i).weaken
  case rewindToMark => exact retriable_rewindToMark limit
  case fill => exact (retriable_pullUntil (fun _ => rfl) limit).weaken
  case tokens =>
    apply Retriable.weaken
    apply retriable_search
    · intro s s' _
      rfl
    · intro s s' mirrors
      rw [mirrors.buffer]
  case range => exact fun first last => (retriable_range limit first last).weaken
  case drain =>
    intro draining
    subst draining
    cases repeatable

/-- Every command that may be repeated answers as it does without the failures, or fails and can be
tried again. -/
theorem retriable_exec (limit : Nat) {c : Command Script} (repeatable : c.isRepeatable = true) :
    Retriable (fun _ _ => True) (exec limit c) := by
  by_cases op : c.isOperation = true
  · exact retriable_operation limit op repeatable
  · cases c with
    | discard kind =>
      apply retriable_bind_pure
      apply retriable_modify fun mirrors => mirrors.discard kind
      intro s
      unfold Stream.discard
      split <;> rfl
    | reroute kind channel =>
      exact retriable_bind_pure
        (retriable_modify (fun mirrors => mirrors.reroute kind channel) fun _ => rfl)
    | dropOffChannel drop =>
      exact retriable_bind_pure
        (retriable_modify (fun mirrors => mirrors.dropOffChannel drop) fun _ => rfl)
    | pullSource => cases repeatable
    | replace source => cases repeatable
    | _ => exact absurd rfl op

end Stream

end Lookahead
