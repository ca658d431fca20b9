import Lookahead.Proofs.Motion

/-!
# Two streams in lockstep

`Lockstep Pre Post Fail op op'` is a triple for two operations at once: carried out on streams that
`Pre` relates, either both answer, and `Post` relates answers and streams, or both are interrupted
alike, and `Fail` relates the streams they leave. Operations that are composed alike go in lockstep
if their parts do (`lockstep_bind`), and so do the loops around pulls (`lockstep_pullUntil`).
`KeepsUp` is the same for a first operation that does not use up its pulls, and a second one that is
allowed more of them.

A `Bisimulation` is a relation between streams that agree in all that operations look at, and that
single pulls and moves of the cursor keep. Every operation gives the same answers on both streams
then, or fails alike, and keeps the relation (`Bisimulation.exec`). Streams are `Alike` if only the
order of the entries in their policies and the past in their journals tell them apart. They stay so
through all commands, and no command tells them apart (`Alike.exec`).
-/

namespace Lookahead.Stream

/-! ## Triples for two operations -/

section

variable {σ τ α β γ δ : Type}

/-- What comes of two operations that end alike. -/
inductive Together (Post : α → β → Stream σ → Stream τ → Prop)
    (Fail : Stream σ → Stream τ → Prop) :
    Except Interrupt α × Stream σ → Except Interrupt β × Stream τ → Prop
  | answered {a : α} {b : β} {t : Stream σ} {t' : Stream τ} :
    Post a b t t' → Together Post Fail (.ok a, t) (.ok b, t')
  | interrupted {i : Interrupt} {t : Stream σ} {t' : Stream τ} :
    Fail t t' → Together Post Fail (.error i, t) (.error i, t')

/-- From streams that `Pre` relates the operations end alike. -/
def Lockstep (Pre : Stream σ → Stream τ → Prop) (Post : α → β → Stream σ → Stream τ → Prop)
    (Fail : Stream σ → Stream τ → Prop) (op : StreamM σ α) (op' : StreamM τ β) : Prop :=
  ∀ ⦃s s'⦄, Pre s s' → Together Post Fail (op.perform s) (op'.perform s')

variable {Pre Pre' Fail : Stream σ → Stream τ → Prop}
  {Mid : α → β → Stream σ → Stream τ → Prop} {Post : γ → δ → Stream σ → Stream τ → Prop}

theorem Together.imp {Post Post' : α → β → Stream σ → Stream τ → Prop}
    {Fail : Stream σ → Stream τ → Prop} {r : Except Interrupt α × Stream σ}
    {r' : Except Interrupt β × Stream τ} (h : Together Post Fail r r')
    (weaker : ∀ {a b t t'}, Post a b t t' → Post' a b t t') : Together Post' Fail r r' := by
  cases h with
  | answered post => exact .answered (weaker post)
  | interrupted fail => exact .interrupted fail

theorem lockstep_pure {a : α} {b : β} (post : ∀ {s s'}, Pre s s' → Mid a b s s') :
    Lockstep Pre Mid Fail (pure a) (pure b) :=
  fun _ _ pre => .answered (post pre)

theorem lockstep_bind {op : StreamM σ α} {op' : StreamM τ β} {next : α → StreamM σ γ}
    {next' : β → StreamM τ δ} (first : Lockstep Pre Mid Fail op op')
    (then_ : ∀ a b, Lockstep (Mid a b) Post Fail (next a) (next' b)) :
    Lockstep Pre Post Fail (op >>= next) (op' >>= next') := by
  intro s s' pre
  have ended := first pre
  rw [StreamM.perform_bind, StreamM.perform_bind]
  generalize op.perform s = r, op'.perform s' = r' at ended ⊢
  cases ended with
  | answered mid => exact then_ _ _ mid
  | interrupted fail => exact .interrupted fail

/-- What is done after the streams have been looked at. -/
theorem lockstep_get {next : Stream σ → StreamM σ γ} {next' : Stream τ → StreamM τ δ}
    (h : ∀ s s', Lockstep (fun u u' => u = s ∧ u' = s' ∧ Pre s s') Post Fail (next s) (next' s')) :
    Lockstep Pre Post Fail (get >>= next) (get >>= next') := by
  have looked : Lockstep Pre (fun a b s s' => s = a ∧ s' = b ∧ Pre a b) Fail
      (get : StreamM σ (Stream σ)) (get : StreamM τ (Stream τ)) :=
    fun s s' pre => .answered ⟨rfl, rfl, pre⟩
  exact lockstep_bind looked h

theorem lockstep_read {read : Stream σ → γ} {read' : Stream τ → δ}
    (post : ∀ {s s'}, Pre s s' → Post (read s) (read' s') s s') :
    Lockstep Pre Post Fail (get >>= fun s => pure (read s)) (get >>= fun s => pure (read' s)) :=
  fun _ _ pre => .answered (post pre)

theorem lockstep_modify {Post : PUnit → PUnit → Stream σ → Stream τ → Prop}
    {f : Stream σ → Stream σ} {g : Stream τ → Stream τ}
    (post : ∀ {s s'}, Pre s s' → Post ⟨⟩ ⟨⟩ (f s) (g s')) :
    Lockstep Pre Post Fail (modify f : StreamM σ PUnit) (modify g : StreamM τ PUnit) :=
  fun _ _ pre => .answered (post pre)

/-- Loops around pulls go in lockstep if the streams stop together and single pulls keep them
related. -/
theorem lockstep_pullUntil [TokenSource σ] [TokenSource τ] {R : Stream σ → Stream τ → Prop}
    {ready : Stream σ → Bool} {ready' : Stream τ → Bool}
    (dry : ∀ {s s'}, R s s' → s.isDry = s'.isDry)
    (agree : ∀ {s s'}, R s s' → ready s = ready' s')
    (step : ∀ {s s'}, R s s' → s.isDry = false →
      Together (fun _ _ => R) Fail ((pull : StreamM σ Unit).perform s)
        ((pull : StreamM τ Unit).perform s'))
    (out : ∀ {s s'}, R s s' → Fail s s') (limit : Nat) :
    Lockstep R (fun _ _ t t' => R t t' ∧ (t.isDry || ready t) = true) Fail
      (pullUntil ready limit) (pullUntil ready' limit) := by
  intro s s' related
  have stops : (s.isDry || ready s) = (s'.isDry || ready' s') := by rw [dry related, agree related]
  induction limit generalizing s s' with
  | zero =>
    cases stopped : s.isDry || ready s with
    | true =>
      rw [perform_pullUntil_of_ready stopped, perform_pullUntil_of_ready (stops ▸ stopped)]
      exact .answered ⟨related, stopped⟩
    | false =>
      rw [perform_pullUntil_zero stopped, perform_pullUntil_zero (stops ▸ stopped)]
      exact .interrupted (out related)
  | succ limit ih =>
    cases stopped : s.isDry || ready s with
    | true =>
      rw [perform_pullUntil_of_ready stopped, perform_pullUntil_of_ready (stops ▸ stopped)]
      exact .answered ⟨related, stopped⟩
    | false =>
      have wet : s.isDry = false := (Bool.or_eq_false_iff.1 stopped).1
      rw [perform_pullUntil_succ stopped, perform_pullUntil_succ (stops ▸ stopped),
        StreamM.perform_bind, StreamM.perform_bind]
      have pulled := step related wet
      generalize (pull : StreamM σ Unit).perform s = r, (pull : StreamM τ Unit).perform s' = r'
        at pulled ⊢
      cases pulled with
      | answered related => exact ih related (by rw [dry related, agree related])
      | interrupted fail => exact .interrupted fail

/-! ## An operation that is allowed more pulls -/

/-- From streams that `Pre` relates the second operation ends like the first one, which does not use
up its pulls. -/
def KeepsUp (Pre : Stream σ → Stream τ → Prop) (Post : α → β → Stream σ → Stream τ → Prop)
    (Fail : Stream σ → Stream τ → Prop) (op : StreamM σ α) (op' : StreamM τ β) : Prop :=
  ∀ ⦃s s'⦄, Pre s s' → InTime op s → Together Post Fail (op.perform s) (op'.perform s')

theorem Lockstep.keepsUp {op : StreamM σ α} {op' : StreamM τ β} (h : Lockstep Pre Mid Fail op op') :
    KeepsUp Pre Mid Fail op op' :=
  fun _ _ pre _ => h pre

theorem KeepsUp.weaken {op : StreamM σ α} {op' : StreamM τ β} (h : KeepsUp Pre Mid Fail op op')
    (weaker : ∀ {s s'}, Pre' s s' → Pre s s') : KeepsUp Pre' Mid Fail op op' :=
  fun _ _ pre => h (weaker pre)

theorem keepsUp_bind {op : StreamM σ α} {op' : StreamM τ β} {next : α → StreamM σ γ}
    {next' : β → StreamM τ δ} (first : KeepsUp Pre Mid Fail op op')
    (then_ : ∀ a b, KeepsUp (Mid a b) Post Fail (next a) (next' b)) :
    KeepsUp Pre Post Fail (op >>= next) (op' >>= next') := by
  intro s s' pre inTime
  have ended := first pre inTime.of_bind
  rw [InTime, StreamM.perform_bind] at inTime
  rw [StreamM.perform_bind, StreamM.perform_bind]
  generalize op.perform s = r, op'.perform s' = r' at ended inTime ⊢
  cases ended with
  | answered mid => exact then_ _ _ mid inTime
  | interrupted fail => exact .interrupted fail

theorem keepsUp_bind_pure {op : StreamM σ α} {op' : StreamM τ β} {f : α → γ} {g : β → δ}
    (first : KeepsUp Pre Mid Fail op op')
    (post : ∀ {a b s s'}, Mid a b s s' → Post (f a) (g b) s s') :
    KeepsUp Pre Post Fail (op >>= fun a => pure (f a)) (op' >>= fun b => pure (g b)) :=
  keepsUp_bind first fun _ _ => (lockstep_pure post).keepsUp

theorem keepsUp_get {next : Stream σ → StreamM σ γ} {next' : Stream τ → StreamM τ δ}
    (h : ∀ s s', KeepsUp (fun u u' => u = s ∧ u' = s' ∧ Pre s s') Post Fail (next s) (next' s')) :
    KeepsUp Pre Post Fail (get >>= next) (get >>= next') :=
  fun s s' pre inTime => h s s' ⟨rfl, rfl, pre⟩ inTime

theorem keepsUp_pullUntil [TokenSource σ] [TokenSource τ] {R : Stream σ → Stream τ → Prop}
    {ready : Stream σ → Bool} {ready' : Stream τ → Bool}
    (dry : ∀ {s s'}, R s s' → s.isDry = s'.isDry)
    (agree : ∀ {s s'}, R s s' → ready s = ready' s')
    (step : ∀ {s s'}, R s s' → s.isDry = false →
      Together (fun _ _ => R) Fail ((pull : StreamM σ Unit).perform s)
        ((pull : StreamM τ Unit).perform s'))
    (out : ∀ {s s'}, R s s' → Fail s s') {limit more : Nat} (le : limit ≤ more) :
    KeepsUp R (fun _ _ t t' => R t t' ∧ (t.isDry || ready t) = true) Fail
      (pullUntil ready limit) (pullUntil ready' more) := by
  intro s s' related inTime
  have ended := lockstep_pullUntil dry agree step out limit related
  have inTime' : InTime (pullUntil ready' limit) s' := by
    unfold InTime at inTime ⊢
    generalize (pullUntil ready limit).perform s = r, (pullUntil ready' limit).perform s' = r'
      at ended inTime ⊢
    cases ended with
    | answered _ =>
      intro out
      cases out
    | interrupted _ => exact inTime
  rw [perform_pullUntil_of_le le inTime']
  exact ended

end

/-! ## The same done to two streams -/

section

variable {σ α β : Type} {R : Stream σ → Stream σ → Prop}

/-- The answers are the same, and the streams are related. -/
abbrev Same (R : Stream σ → Stream σ → Prop) (a b : α) (t t' : Stream σ) : Prop :=
  a = b ∧ R t t'

theorem Together.same {r r' : Except Interrupt α × Stream σ} (h : Together (Same R) R r r') :
    r.1 = r'.1 ∧ R r.2 r'.2 := by
  cases h with
  | answered post => exact ⟨by rw [post.1], post.2⟩
  | interrupted fail => exact ⟨rfl, fail⟩

theorem same_pure (a : α) : Lockstep R (Same R) R (pure a) (pure a) :=
  lockstep_pure fun related => ⟨rfl, related⟩

/-- What is done alike goes in lockstep if its parts do. -/
theorem same_bind {op : StreamM σ α} {next : α → StreamM σ β}
    (first : Lockstep R (Same R) R op op)
    (then_ : ∀ a, Lockstep R (Same R) R (next a) (next a)) :
    Lockstep R (Same R) R (op >>= next) (op >>= next) := by
  apply lockstep_bind first
  rintro a b s s' ⟨rfl, related⟩
  exact then_ a related

theorem same_bind_pure {op : StreamM σ α} (f : α → β) (first : Lockstep R (Same R) R op op) :
    Lockstep R (Same R) R (op >>= fun a => pure (f a)) (op >>= fun a => pure (f a)) :=
  same_bind first fun a => same_pure (f a)

theorem same_read {read : Stream σ → α} (same : ∀ {s s'}, R s s' → read s = read s') :
    Lockstep R (Same R) R (get >>= fun s => pure (read s)) (get >>= fun s => pure (read s)) :=
  lockstep_read fun related => ⟨same related, related⟩

end

/-! ## Streams that cannot be told apart -/

variable {σ α : Type} [TokenSource σ]

/-- Streams that are related agree in all that an operation looks at, and stay related when they are
pulled and when cursor and marker are moved. -/
structure Bisimulation (R : Stream σ → Stream σ → Prop) : Prop where
  policy : ∀ {s s'}, R s s' → s.policy.Agrees s'.policy
  name : ∀ {s s'}, R s s' → TokenSource.name s.source = TokenSource.name s'.source
  buffer : ∀ {s s'}, R s s' → s.buffer = s'.buffer
  endToken : ∀ {s s'}, R s s' → s.endToken = s'.endToken
  cursor : ∀ {s s'}, R s s' → s.cursor = s'.cursor
  lastMark : ∀ {s s'}, R s s' → s.lastMark = s'.lastMark
  pull : ∀ {s s'}, R s s' → s.isDry = false →
    Together (fun _ _ => R) R ((pull : StreamM σ Unit).perform s)
      ((Stream.pull : StreamM σ Unit).perform s')
  setCursor : ∀ {s s'} (cursor : Option Nat), R s s' → R { s with cursor } { s' with cursor }
  setMark : ∀ {s s'} (lastMark : Nat), R s s' → R { s with lastMark } { s' with lastMark }

namespace Bisimulation

variable {R : Stream σ → Stream σ → Prop} (bisim : Bisimulation R)

include bisim

theorem size {s s' : Stream σ} (h : R s s') : s.size = s'.size :=
  congrArg Array.size (bisim.buffer h)

theorem visibleFrom? {s s' : Stream σ} (h : R s s') (i : Nat) :
    s.visibleFrom? i = s'.visibleFrom? i :=
  visibleFrom?_congr (bisim.buffer h) (bisim.policy h).channel i

theorem pullUntil {ready : Stream σ → Bool} (same : ∀ {s s'}, R s s' → ready s = ready s')
    (limit : Nat) : Lockstep R (Same R) R (pullUntil ready limit) (pullUntil ready limit) := by
  intro s s' related
  have ended := lockstep_pullUntil (fun h => congrArg Option.isSome (bisim.endToken h)) same
    bisim.pull (fun h => h) limit related
  generalize (Stream.pullUntil ready limit).perform s = r,
    (Stream.pullUntil ready limit).perform s' = r' at ended ⊢
  cases ended with
  | answered post => exact .answered ⟨rfl, post.1⟩
  | interrupted fail => exact .interrupted fail

theorem search {ready : Stream σ → Bool} {read : Stream σ → α}
    (ready_eq : ∀ {s s'}, R s s' → ready s = ready s')
    (read_eq : ∀ {s s'}, R s s' → read s = read s') (limit : Nat) :
    Lockstep R (Same R) R (search ready read limit) (search ready read limit) :=
  same_bind (bisim.pullUntil ready_eq limit) fun _ => same_read read_eq

/-! ### Operations with the cursor -/

theorem nextVisible (limit i : Nat) :
    Lockstep R (Same R) R (nextVisible limit i) (nextVisible limit i) := by
  intro s s' related
  rw [perform_nextVisible, perform_nextVisible]
  refine bisim.search (fun h => ?_) (fun h => ?_) limit related
  · rw [sees, sees, bisim.visibleFrom? h]
  · rw [target, target, bisim.visibleFrom? h, bisim.size h]

theorem place (i : Nat) :
    Lockstep R (Same R) R (place i : StreamM σ Unit) (place i : StreamM σ Unit) :=
  lockstep_modify fun related => ⟨rfl, bisim.setCursor (some i) related⟩

theorem seek (limit i : Nat) : Lockstep R (Same R) R (seek limit i) (seek limit i) :=
  same_bind (bisim.nextVisible limit i) bisim.place

theorem position (limit : Nat) : Lockstep R (Same R) R (position limit) (position limit) := by
  intro s s' related
  have same : s.cursor = s'.cursor := bisim.cursor related
  rcases placed : s.cursor with _ | p
  · rw [perform_position_of_none placed, perform_position_of_none (same ▸ placed)]
    have settle := same_bind (bisim.nextVisible limit 0) fun p =>
      same_bind_pure (fun _ => p) (bisim.place p)
    exact settle related
  · rw [perform_position_of_some placed, perform_position_of_some (same ▸ placed)]
    exact .answered ⟨rfl, related⟩

/-- What is done only below the size of the buffer. -/
theorem below {op op' : StreamM σ α} (h : Lockstep R (Same R) R op op)
    (h' : Lockstep R (Same R) R op' op') (i : Nat) :
    Lockstep R (Same R) R (get >>= fun s => if i < s.size then op else op')
      (get >>= fun s => if i < s.size then op else op') := by
  apply lockstep_get
  rintro s s' u u' ⟨rfl, rfl, related⟩
  rw [bisim.size related]
  split
  · exact h related
  · exact h' related

theorem consume (limit : Nat) : Lockstep R (Same R) R (consume limit) (consume limit) :=
  same_bind (bisim.position limit) fun p =>
    bisim.below (bisim.seek limit (p + 1)) (same_pure _) p

theorem mark (limit : Nat) : Lockstep R (Same R) R (mark limit) (mark limit) :=
  same_bind (bisim.position limit) fun p =>
    same_bind_pure (fun _ => p) (lockstep_modify fun related => ⟨rfl, bisim.setMark p related⟩)

theorem rewindToMark (limit : Nat) :
    Lockstep R (Same R) R (rewindToMark limit) (rewindToMark limit) := by
  apply lockstep_get
  rintro s s' u u' ⟨rfl, rfl, related⟩
  rw [bisim.lastMark related]
  exact bisim.seek limit _ related

theorem stepsAhead (limit k i : Nat) :
    Lockstep R (Same R) R (stepsAhead limit k i) (stepsAhead limit k i) := by
  induction k generalizing i with
  | zero => exact same_pure _
  | succ k ih =>
    exact bisim.below (same_bind (bisim.nextVisible limit (i + 1)) ih)
      (same_pure _) i

theorem lookahead (limit : Nat) (k : Int) :
    Lockstep R (Same R) R (lookahead limit k) (lookahead limit k) := by
  match k with
  | .ofNat 0 => exact same_pure _
  | .ofNat (k + 1) =>
    refine same_bind (bisim.position limit) fun p => same_bind (bisim.stepsAhead limit k p) ?_
    intro i
    apply same_read
    intro s s' related
    rw [bisim.buffer related, bisim.endToken related]
  | .negSucc k =>
    refine same_bind (bisim.position limit) fun p => same_read ?_
    intro s s' related
    rw [stepsBack?_congr (bisim.buffer related) (bisim.policy related).channel,
      bisim.buffer related]

theorem drainTexts (limit count : Nat) :
    Lockstep R (Same R) R (drainTexts limit count) (drainTexts limit count) := by
  induction count with
  | zero => exact fun s s' related => .interrupted related
  | succ count ih =>
    apply same_bind (bisim.lookahead limit 1)
    intro found
    cases found with
    | none => exact same_pure _
    | some token =>
      dsimp only
      split
      · exact same_pure _
      · exact same_bind (bisim.consume limit) fun _ => same_bind_pure _ ih

theorem drain (limit : Nat) : Lockstep R (Same R) R (drain limit) (drain limit) := by
  apply lockstep_get
  rintro s s' u u' ⟨rfl, rfl, related⟩
  rw [bisim.size related]
  exact bisim.drainTexts limit _ related

/-! ### Commands -/

theorem range (limit first last : Nat) :
    Lockstep R (Same R) R (range limit first last) (range limit first last) := by
  unfold Stream.range
  split
  · exact same_pure _
  · refine bisim.search (fun h => ?_) (fun h => ?_) limit
    · rw [bisim.size h]
    · rw [slots, slots, bisim.buffer h]

/-- Operations cannot tell related streams apart, and keep them related. -/
theorem exec (limit : Nat) {c : Command σ} (op : c.isOperation = true) :
    Lockstep R (Same R) R (exec limit c) (exec limit c) := by
  apply exec_induction op (P := fun op => Lockstep R (Same R) R op op)
  case wrap => exact same_bind_pure
  case value => exact same_pure
  case policy => exact fun read same => same_read fun related => same (bisim.policy related)
  case name => exact fun _ => same_read fun related => by rw [bisim.name related]
  case consume => exact fun _ => bisim.consume limit
  case lookahead => exact fun k _ => bisim.lookahead limit k
  case get? =>
    refine fun i => bisim.search (fun h => ?_) (fun h => ?_) limit
    · rw [bisim.size h]
    · rw [bisim.buffer h]
  case mark => exact fun _ => bisim.mark limit
  case seek => exact bisim.seek limit
  case rewindToMark => exact bisim.rewindToMark limit
  case fill => exact bisim.pullUntil (fun _ => rfl) limit
  case tokens => exact bisim.search (fun _ => rfl) (fun h => by rw [bisim.buffer h]) limit
  case range => exact bisim.range limit
  case drain => exact fun _ => bisim.drain limit

end Bisimulation

/-! ## Streams that are alike -/

/-- The streams agree in all that commands look at, and what is noted in their journals after `past`
and `past'` is the same. -/
structure Alike {σ : Type} (past past' : Array Event) (s s' : Stream σ) : Prop where
  policy : s.policy.Agrees s'.policy
  source : s.source = s'.source
  buffer : s.buffer = s'.buffer
  endToken : s.endToken = s'.endToken
  cursor : s.cursor = s'.cursor
  lastMark : s.lastMark = s'.lastMark
  journal : ∃ noted, s.journal = past ++ noted ∧ s'.journal = past' ++ noted

namespace Alike

variable {past past' : Array Event} {s s' t t' : Stream σ}

section

omit [TokenSource σ]

theorem size (h : Alike past past' s s') : s.size = s'.size := congrArg Array.size h.buffer

theorem setSource (h : Alike past past' s s') (source : σ) :
    Alike past past' { s with source } { s' with source } :=
  { h with source := rfl }

theorem note (h : Alike past past' s s') (e : Event) : Alike past past' (s.note e) (s'.note e) := by
  obtain ⟨noted, here, there⟩ := h.journal
  exact { h with
    journal := ⟨noted.push e, by rw [Stream.note, here, Array.append_push],
      by rw [Stream.note, there, Array.append_push]⟩ }

theorem receive (h : Alike past past' s s') (t : Token) :
    Alike past past' (s.receive t) (s'.receive t) := by
  unfold Stream.receive
  rw [h.size, h.policy.judge t, h.buffer]
  split
  · exact { h.note _ with endToken := rfl }
  · split
    · exact { h.note _ with buffer := rfl }
    · exact h.note _

theorem discard (h : Alike past past' s s') (kind : Kind) :
    Alike past past' (s.discard kind) (s'.discard kind) := by
  unfold Stream.discard
  rw [h.policy.discards kind]
  split
  · exact h
  · exact { h.note _ with policy := h.policy.discard kind }

theorem reroute (h : Alike past past' s s') (kind : Kind) (channel : Channel) :
    Alike past past' (s.reroute kind channel) (s'.reroute kind channel) :=
  { h.note _ with policy := h.policy.reroute kind channel }

theorem dropOffChannel (h : Alike past past' s s') (drop : Bool) :
    Alike past past' (s.dropOffChannel drop) (s'.dropOffChannel drop) :=
  { h.note _ with policy := h.policy.dropOffChannel drop }

theorem replaceSource (h : Alike past past' s s') (other : σ) :
    Alike past past' (s.replaceSource other) (s'.replaceSource other) := by
  obtain ⟨noted, here, there⟩ := (h.note (.replacing s.size)).journal
  rw [h.size] at there
  exact ⟨h.policy, rfl, rfl, rfl, rfl, rfl, noted, here, there⟩

/-- Between streams that are alike the same log records are made. -/
theorem recordsSince (h : Alike past past' s s') (k : Alike past past' t t') :
    t.recordsSince s.journal.size = t'.recordsSince s'.journal.size := by
  have since (past before after : Array Event) :
      (past ++ after).toList.drop (past ++ before).size = after.toList.drop before.size := by
    rw [Array.toList_append, Array.size_append, ← Array.length_toList, List.drop_append]
    simp
  obtain ⟨before, here, there⟩ := h.journal
  obtain ⟨after, here', there'⟩ := k.journal
  rw [Stream.recordsSince, Stream.recordsSince, here, here', there, there', since, since]

end

theorem bisimulation (past past' : Array Event) :
    Bisimulation (Alike (σ := σ) past past') where
  policy h := h.policy
  name h := by rw [h.source]
  buffer h := h.buffer
  endToken h := h.endToken
  cursor h := h.cursor
  lastMark h := h.lastMark
  pull := by
    intro s s' h _
    rcases next : TokenSource.next s.source with ⟨e | token, source⟩
    · rw [perform_pull_error next, perform_pull_error (h.source ▸ next)]
      exact .interrupted ((h.setSource source).note _)
    · rw [perform_pull_ok next, perform_pull_ok (h.source ▸ next)]
      exact .answered ((h.setSource source).receive token)
  setCursor _ h := { h with cursor := rfl }
  setMark _ h := { h with lastMark := rfl }

/-- Whatever is done to streams that are alike has the same outcome, and they stay alike. -/
theorem exec (past past' : Array Event) (limit : Nat) (c : Command σ) :
    Lockstep (Alike past past') (Same (Alike past past')) (Alike past past') (exec limit c)
      (exec limit c) := by
  by_cases op : c.isOperation = true
  · exact (bisimulation past past').exec limit op
  · cases c with
    | discard kind =>
      apply same_bind_pure
      exact lockstep_modify fun h => ⟨rfl, h.discard kind⟩
    | reroute kind channel =>
      apply same_bind_pure
      exact lockstep_modify fun h => ⟨rfl, h.reroute kind channel⟩
    | dropOffChannel drop =>
      apply same_bind_pure
      exact lockstep_modify fun h => ⟨rfl, h.dropOffChannel drop⟩
    | pullSource =>
      apply same_bind_pure
      intro s s' h
      rcases next : TokenSource.next s.source with ⟨e | token, source⟩
      · rw [perform_pullSource_error next, perform_pullSource_error (h.source ▸ next)]
        exact .interrupted (h.setSource source)
      · rw [perform_pullSource_ok next, perform_pullSource_ok (h.source ▸ next)]
        exact .answered ⟨rfl, h.setSource source⟩
    | replace other =>
      intro s s' h
      exact .answered ⟨congrArg Answer.source h.source, h.replaceSource other⟩
    | _ => exact absurd rfl op

end Alike

end Lookahead.Stream
