import Lookahead.Proofs.Advance
import Lookahead.Proofs.History

/-!
# Operations that come to an end

`Stops e n s` says that a stream is pulled at most `n` times more: it is dry then, or the last of
these pulls fails with `e`. No loop has a counter of its own that would bound it. A dropped token
does not lengthen the buffer, and the slot or the number of steps that is asked for may be out of
reach. What goes down with every pull is this distance, so an operation comes to one and the same
outcome however many more pulls it is allowed, and the pulls it has taken are those that are missing
from the distance afterwards (`Concludes`, `concludes_exec`). Draining is counted down by the
distance of the cursor from the final size of the buffer as well.
-/

namespace Lookahead

/-- A source that gives `n` tokens and then `last`, the end-of-stream token or a failure. -/
inductive TokenSource.StopsAfter {σ : Type} [TokenSource σ] : σ → Nat → Pulled → Prop
  | ended {source rest : σ} {token : Token} :
    next source = (.ok token, rest) → token.isEnd = true → StopsAfter source 0 (.ok token)
  | failed {source rest : σ} {e : SourceError} :
    next source = (.error e, rest) → StopsAfter source 0 (.error e)
  | more {source rest : σ} {token : Token} {n : Nat} {last : Pulled} :
    next source = (.ok token, rest) → token.isEnd = false → StopsAfter rest n last →
    StopsAfter source (n + 1) last

namespace Stream

variable {σ : Type} [TokenSource σ]

/-- A stream that is pulled `n` times more, and not after that: it is dry then, or the last pull
fails if an error is given. -/
inductive Stops : Option SourceError → Nat → Stream σ → Prop
  | dry {s : Stream σ} : s.isDry = true → Stops none 0 s
  | failing {s : Stream σ} {e : SourceError} {source : σ} :
    s.isDry = false → TokenSource.next s.source = (.error e, source) → Stops (some e) 1 s
  | pull {e : Option SourceError} {s t : Stream σ} {n : Nat} :
    PullStep s t → Stops e n t → Stops e (n + 1) s

theorem Stops.setCursor {e : Option SourceError} {n : Nat} {s : Stream σ} (h : Stops e n s)
    (cursor : Option Nat) : Stops e n { s with cursor } := by
  induction h with
  | dry dry => exact .dry dry
  | failing wet next => exact .failing wet next
  | pull step _ ih => exact .pull (step.setCursor cursor) ih

theorem Stops.setMark {e : Option SourceError} {n : Nat} {s : Stream σ} (h : Stops e n s)
    (lastMark : Nat) : Stops e n { s with lastMark } := by
  induction h with
  | dry dry => exact .dry dry
  | failing wet next => exact .failing wet next
  | pull step _ ih => exact .pull (step.setMark lastMark) ih

/-- A stream whose source is going to fail is not dry. -/
theorem Stops.wet {e : SourceError} {n : Nat} {s : Stream σ} (h : Stops (some e) n s) :
    s.isDry = false := by
  cases h with
  | failing wet _ => exact wet
  | pull step _ => exact step.1

/-- A stream that has not ended stops where its source does. -/
theorem stops_of_wet {source : σ} {n : Nat} {last : Pulled}
    (stops : TokenSource.StopsAfter source n last) {s : Stream σ} (here : s.source = source)
    (wet : s.isDry = false) : ∃ e, Stops e (n + 1) s ∧ (e = none ↔ ∃ token, last = .ok token) := by
  induction stops generalizing s with
  | @ended source rest token next isEnd =>
    subst here
    refine ⟨none, .pull ⟨wet, perform_pull_ok next⟩ (.dry ?_), by simp⟩
    rw [isDry, (receive_of_isEnd _ isEnd).2, Option.isSome_some]
  | @failed source rest e next =>
    subst here
    exact ⟨some e, .failing wet next, by simp⟩
  | @more source rest token n last next noEnd _ ih =>
    subst here
    have wet' : (receive { s with source := rest } token).isDry = false := by
      rw [isDry, receive_endToken _ noEnd]
      exact wet
    obtain ⟨e, stops, ended⟩ := ih (receive_source _ _) wet'
    exact ⟨e, .pull ⟨wet, perform_pull_ok next⟩ stops, ended⟩

/-! ## One outcome -/

/-- The stream `t` is what `s` has become by operations whose pulls have all succeeded; `m` of the
`n` pulls are left. -/
structure Nearer (e : Option SourceError) (n : Nat) (s : Stream σ) (m : Nat) (t : Stream σ) :
    Prop where
  operates : Operates s t
  stops : Stops e m t
  source : ∃ k, k + m = n ∧ t.source = TokenSource.after s.source k
  size : t.size + m ≤ s.size + n

/-- What an operation comes to: it has answered, or its last pull has failed. -/
inductive Concluded {α : Type} (e : Option SourceError) (n : Nat) (s : Stream σ) :
    Except Interrupt α × Stream σ → Prop
  | answered {a : α} {m : Nat} {t : Stream σ} : Nearer e n s m t → Concluded e n s (.ok a, t)
  | failed {error : SourceError} {t : Stream σ} :
    e = some error → t.source = TokenSource.after s.source n →
    Concluded e n s (.error (.failed error), t)

/-- From stream `s` the operation comes to one outcome, whatever number of pulls it is allowed from
`n` on. -/
def Concludes {α : Type} (e : Option SourceError) (n : Nat) (op : Nat → StreamM σ α)
    (s : Stream σ) : Prop :=
  ∃ r, (∀ limit, n ≤ limit → (op limit).perform s = r) ∧ Concluded e n s r

section

variable {α β : Type} {e : Option SourceError} {n : Nat} {s : Stream σ}

theorem Nearer.refl (h : Stops e n s) : Nearer e n s n s :=
  ⟨.refl, h, ⟨0, Nat.zero_add n, rfl⟩, Nat.le_refl _⟩

theorem Nearer.le {m : Nat} {t : Stream σ} (h : Nearer e n s m t) : m ≤ n := by
  obtain ⟨k, left, -⟩ := h.source
  omega

theorem Nearer.trans {m l : Nat} {t u : Stream σ} (h : Nearer e n s m t) (k : Nearer e m t l u) :
    Nearer e n s l u := by
  obtain ⟨i, left, source⟩ := h.source
  obtain ⟨j, left', source'⟩ := k.source
  have size := h.size
  have size' := k.size
  refine ⟨h.operates.trans k.operates, k.stops, ⟨i + j, by omega, ?_⟩, by omega⟩
  rw [source', source, TokenSource.after_after]

theorem Nearer.pull {t : Stream σ} (step : PullStep s t) (h : Stops e n t) :
    Nearer e (n + 1) s n t where
  operates := .single (.pulled step)
  stops := h
  source := ⟨1, Nat.add_comm 1 n, step.source⟩
  size := by
    have grown := step.size_le
    omega

theorem Nearer.concluded {m : Nat} {t : Stream σ} (h : Nearer e n s m t)
    {r : Except Interrupt α × Stream σ} (ended : Concluded e m t r) : Concluded e n s r := by
  cases ended with
  | answered h' => exact .answered (h.trans h')
  | failed error source =>
    obtain ⟨k, left, before⟩ := h.source
    refine .failed error ?_
    rw [source, before, TokenSource.after_after, left]

theorem Concludes.congr {op op' : Nat → StreamM σ α} (h : Concludes e n op s)
    (same : ∀ limit, n ≤ limit → (op' limit).perform s = (op limit).perform s) :
    Concludes e n op' s := by
  obtain ⟨r, performed, ended⟩ := h
  exact ⟨r, fun limit le => (same limit le).trans (performed limit le), ended⟩

theorem concludes_of_perform (h : Stops e n s) {op : Nat → StreamM σ α} {a : α}
    (performed : ∀ limit, (op limit).perform s = (.ok a, s)) : Concludes e n op s :=
  ⟨_, fun limit _ => performed limit, .answered (.refl h)⟩

theorem concludes_bind {op : Nat → StreamM σ α} {next : Nat → α → StreamM σ β}
    (first : Concludes e n op s)
    (then_ : ∀ {limit m : Nat} {a : α} {t : Stream σ}, (op limit).perform s = (.ok a, t) →
      Nearer e n s m t → Concludes e m (next · a) t) :
    Concludes e n (fun limit => op limit >>= next limit) s := by
  obtain ⟨r, performed, ended⟩ := first
  cases ended with
  | @answered a m t nearer =>
    obtain ⟨r', performed', ended'⟩ := then_ (performed n (Nat.le_refl n)) nearer
    refine ⟨r', fun limit le => ?_, nearer.concluded ended'⟩
    rw [StreamM.perform_bind_of_ok (performed limit le)]
    exact performed' limit (Nat.le_trans nearer.le le)
  | failed error source =>
    exact ⟨_, fun limit le => StreamM.perform_bind_of_error (performed limit le) _,
      .failed error source⟩

theorem concludes_bind_pure {op : Nat → StreamM σ α} {f : α → β} (h : Concludes e n op s) :
    Concludes e n (fun limit => op limit >>= fun a => pure (f a)) s :=
  concludes_bind h fun _ nearer => concludes_of_perform nearer.stops fun _ => rfl

/-! ## Searches -/

theorem concludes_pullUntil (ready : Stream σ → Bool) (h : Stops e n s) :
    Concludes e n (pullUntil ready) s := by
  induction h with
  | dry dry =>
    exact concludes_of_perform (.dry dry) (perform_pullUntil_of_ready (by rw [dry, Bool.true_or]))
  | @failing s e source wet next =>
    cases waiting : ready s with
    | true =>
      exact concludes_of_perform (.failing wet next)
        (perform_pullUntil_of_ready (by rw [waiting, Bool.or_true]))
    | false =>
      refine ⟨(.error (.failed e), note { s with source } (.failed e)), fun limit le => ?_,
        .failed rfl (congrArg Prod.snd next).symm⟩
      obtain ⟨limit, rfl⟩ := Nat.exists_eq_add_of_le' le
      rw [perform_pullUntil_succ (by rw [wet, waiting, Bool.or_false])]
      exact StreamM.perform_bind_of_error (perform_pull_error next) _
  | @pull e s t n step h ih =>
    cases waiting : ready s with
    | true =>
      exact concludes_of_perform (.pull step h)
        (perform_pullUntil_of_ready (by rw [waiting, Bool.or_true]))
    | false =>
      obtain ⟨r, performed, ended⟩ := ih
      refine ⟨r, fun limit le => ?_, (Nearer.pull step h).concluded ended⟩
      obtain ⟨limit, rfl⟩ := Nat.exists_eq_add_of_le' (Nat.le_trans (Nat.le_add_left 1 n) le)
      rw [perform_pullUntil_step step waiting]
      exact performed limit (by omega)

theorem concludes_search (ready : Stream σ → Bool) (read : Stream σ → α) (h : Stops e n s) :
    Concludes e n (search ready read) s :=
  concludes_bind (concludes_pullUntil ready h) fun _ nearer =>
    concludes_of_perform nearer.stops fun _ => rfl

/-! ## Operations with the cursor -/

theorem concludes_nextVisible (h : Stops e n s) (i : Nat) : Concludes e n (nextVisible · i) s :=
  (concludes_search (sees i) (target i) h).congr fun limit _ => perform_nextVisible limit i s

theorem concludes_place (h : Stops e n s) {i : Nat} (settled : s.Settled i) :
    Concludes e n (fun _ => place i) s :=
  ⟨_, fun _ _ => rfl, .answered ⟨.single (.placed settled), h.setCursor (some i),
    ⟨0, Nat.zero_add n, rfl⟩, Nat.le_refl _⟩⟩

theorem concludes_seek (h : Stops e n s) (i : Nat) : Concludes e n (seek · i) s :=
  concludes_bind (concludes_nextVisible h i) fun found nearer =>
    concludes_place nearer.stops (nextVisible_ok found).2.2

theorem concludes_position (h : Stops e n s) : Concludes e n position s := by
  rcases placed : s.cursor with _ | p
  · have settle : Concludes e n
        (fun limit => nextVisible limit 0 >>= fun p => place p >>= fun _ => pure p) s :=
      concludes_bind (concludes_nextVisible h 0) fun found nearer =>
        concludes_bind_pure (concludes_place nearer.stops (nextVisible_ok found).2.2)
    exact settle.congr fun limit _ => perform_position_of_none placed limit
  · exact concludes_of_perform h (perform_position_of_some placed)

theorem concludes_consume (h : Stops e n s) : Concludes e n consume s := by
  refine concludes_bind (concludes_position h) fun {_ m p t} _ nearer => ?_
  by_cases below : p < t.size
  · refine (concludes_seek nearer.stops (p + 1)).congr fun limit _ => ?_
    rw [StreamM.perform_bind, StreamM.perform_get]
    simp only [below, if_true]
  · refine concludes_of_perform (a := ()) nearer.stops fun limit => ?_
    rw [StreamM.perform_bind, StreamM.perform_get]
    simp only [below, if_false, StreamM.perform_pure]

theorem concludes_mark (h : Stops e n s) : Concludes e n mark s := by
  refine concludes_bind (concludes_position h) fun {_ m p t} positioned nearer => ?_
  exact ⟨(.ok p, { t with lastMark := p }), fun _ _ => rfl,
    .answered ⟨.single (.marked (position_ok positioned).1),
    nearer.stops.setMark p, ⟨0, Nat.zero_add m, rfl⟩, Nat.le_refl _⟩⟩

theorem concludes_rewindToMark (h : Stops e n s) : Concludes e n rewindToMark s := by
  refine (concludes_seek h s.lastMark).congr fun limit _ => ?_
  rw [rewindToMark, StreamM.perform_bind, StreamM.perform_get]

theorem concludes_stepsAhead (h : Stops e n s) (k i : Nat) :
    Concludes e n (stepsAhead · k i) s := by
  induction k generalizing i n s with
  | zero => exact concludes_of_perform h fun _ => rfl
  | succ k ih =>
    by_cases below : i < s.size
    · have next : Concludes e n
          (fun limit => nextVisible limit (i + 1) >>= stepsAhead limit k) s :=
        concludes_bind (concludes_nextVisible h (i + 1)) fun _ nearer => ih nearer.stops _
      exact next.congr fun limit _ => perform_stepsAhead_of_lt below limit k
    · exact concludes_of_perform h fun limit => perform_stepsAhead_of_not_lt below limit (k + 1)

theorem concludes_lookahead (h : Stops e n s) (k : Int) : Concludes e n (lookahead · k) s := by
  match k with
  | .ofNat 0 => exact concludes_of_perform h fun _ => rfl
  | .ofNat (k + 1) =>
    refine concludes_bind (concludes_position h) fun {_ m p t} _ nearer => ?_
    exact concludes_bind (concludes_stepsAhead nearer.stops k p) fun _ nearer =>
      concludes_of_perform nearer.stops fun _ => rfl
  | .negSucc k =>
    exact concludes_bind (concludes_position h) fun _ nearer =>
      concludes_of_perform nearer.stops fun _ => rfl

/-! ## Draining -/

theorem index_le_of_position {limit p : Nat} {t : Stream σ}
    (positioned : (position limit).perform s = (.ok p, t)) : s.index ≤ p := by
  obtain ⟨placed, rfl | ⟨unset, -⟩⟩ := position_ok positioned
  · exact Nat.le_of_eq (index_of_some placed)
  · rw [index_of_none unset]
    exact Nat.zero_le p

/-- Consuming a token takes the cursor further. -/
theorem lt_index_of_consume {limit p : Nat} {t : Stream σ} (placed : s.cursor = some p)
    (below : p < s.size) {a : Unit} (h : (consume limit).perform s = (.ok a, t)) : p < t.index := by
  rw [perform_consume_of_lt placed below] at h
  rcases StreamM.perform_bind_ok h with ⟨j, u, found, h⟩
  cases h
  obtain ⟨pulls, rfl, -⟩ := nextVisible_ok found
  have grown := pulls.within.size_le
  exact le_target (by omega)

/-- Every token consumed takes the cursor closer to the final size of the buffer, so the count need
not exceed that size. -/
theorem concludes_drainTexts {fuel : Nat} {count : Nat → Nat} (sound : s.Sound) (h : Stops e n s)
    (enough : s.size + n < fuel + s.index) (counted : ∀ limit, fuel ≤ count limit) :
    Concludes e n (fun limit => drainTexts limit (count limit)) s := by
  induction fuel generalizing n s count with
  | zero =>
    have inside := sound.index_le_size
    omega
  | succ fuel ih =>
    have step (limit : Nat) : count limit = count limit - 1 + 1 :=
      (Nat.sub_add_cancel (Nat.le_trans (Nat.le_add_left 1 fuel) (counted limit))).symm
    have looks := concludes_lookahead h 1
    refine (concludes_bind looks fun {limit m found t} looked nearer => ?_).congr
      fun limit _ => by rw [step limit, drainTexts]
    have sound' : t.Sound := nearer.operates.invariant Motion.sound sound
    obtain ⟨p, v, positioned, looked'⟩ := StreamM.perform_bind_ok
      ((perform_lookahead limit 0 s).symm.trans looked)
    cases looked'
    have start := index_le_of_position positioned
    have placed := (position_ok positioned).1
    have stop : Concludes e m (fun _ => (pure [] : StreamM σ (List String))) t :=
      concludes_of_perform nearer.stops fun _ => rfl
    rcases (settled_of_position sound.cursor positioned).found with
      ⟨token, same, below, -, -⟩ | ⟨token, same, -, ended⟩
    · rw [same]
      dsimp only
      cases ends : token.isEnd with
      | true => exact stop
      | false =>
        refine concludes_bind (concludes_consume nearer.stops) fun {_ l a u} consumed nearer' => ?_
        have further := lt_index_of_consume placed below consumed
        have closer := (nearer.trans nearer').size
        exact concludes_bind_pure (ih (nearer'.operates.invariant Motion.sound sound')
          nearer'.stops (by omega) fun limit => Nat.le_sub_of_add_le (counted limit))
    · rw [same]
      dsimp only
      rw [sound'.ended token ended]
      exact stop

theorem concludes_drain (sound : s.Sound) (h : Stops e n s) : Concludes e n drain s := by
  have counted (limit : Nat) : s.size + n + 1 ≤ max (s.size + n + 1) (s.size + limit + 1) :=
    Nat.le_max_left _ _
  refine (concludes_drainTexts sound h (by omega) counted).congr fun limit le => ?_
  rw [drain, StreamM.perform_bind, StreamM.perform_get,
    Nat.max_eq_right (by omega : s.size + n + 1 ≤ s.size + limit + 1)]

/-! ## Operations on slots by number -/

theorem concludes_range (h : Stops e n s) (first last : Nat) :
    Concludes e n (range · first last) s := by
  unfold range
  split
  · exact concludes_of_perform h fun _ => rfl
  · exact concludes_search _ (fun s => s.slots first last) h

/-! ## Commands -/

/-- Every operation comes to an outcome within the pulls that are left. -/
theorem concludes_exec {c : Command σ} (op : c.isOperation = true) (sound : s.Sound)
    (h : Stops e n s) : Concludes e n (exec · c) s := by
  revert h sound
  apply exec_induction_limits op
    (P := fun op => s.Sound → Stops e n s → Concludes e n op s)
  case wrap => exact fun f concludes sound h => concludes_bind_pure (concludes sound h)
  case value => exact fun a _ h => concludes_of_perform h fun _ => rfl
  case policy => exact fun read _ _ h => concludes_of_perform h fun _ => rfl
  case name => exact fun _ _ h => concludes_of_perform h fun _ => rfl
  case consume => exact fun _ _ h => concludes_consume h
  case lookahead => exact fun k _ _ h => concludes_lookahead h k
  case get? => exact fun i _ h => concludes_search _ _ h
  case mark => exact fun _ _ h => concludes_mark h
  case seek => exact fun i _ h => concludes_seek h i
  case rewindToMark => exact fun _ h => concludes_rewindToMark h
  case fill => exact fun _ h => concludes_pullUntil _ h
  case tokens => exact fun _ h => concludes_search _ _ h
  case range => exact fun first last _ h => concludes_range h first last
  case drain => exact fun _ sound h => concludes_drain sound h

end

end Stream

end Lookahead
