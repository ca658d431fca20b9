import Lookahead.Proofs.Motion
import Lookahead.Proofs.Cursor

/-!
# Pulls made beforehand

`Commutes op s` says that an operation which answers from stream `s` gives the same answer from
every stream that `s` becomes by pulling, and leaves what it would have left, after some more pulls.
The operations that ask for tokens or move the cursor are of this kind (`commutes_exec`). They are
built by binding (`commutes_bind`) from searches, which are steady, from the cursor and the marker
being set, and from readings that pulls do not change.
-/

namespace Lookahead

/-- Whether a command asks for tokens or the policy or moves the cursor, and does nothing else. The
name of a source may change as it is pulled. -/
def Command.readsTokens {σ : Type} : Command σ → Bool
  | .sourceName => false
  | c => c.isOperation

/-- Whether a command reads the buffer by slots, without a look at the cursor. -/
def Command.isAbsolute {σ : Type} : Command σ → Bool
  | .get _ | .display _ | .fill | .tokens | .range _ _ | .rangeInSet _ _ _ | .rangeOfKinds _ _ _
  | .rangeOfKind _ _ _ | .text | .textRange _ _ | .textBetween _ _ => true
  | _ => false

theorem isOperation_of_readsTokens {σ : Type} {c : Command σ} (h : c.readsTokens = true) :
    c.isOperation = true := by
  cases c with
  | sourceName => rfl
  | _ => exact h

namespace Stream

open Relation

variable {σ : Type}

/-! ## Slots by number in a growing buffer -/

theorem Within.slots_eq {s t : Stream σ} (h : s.Within t) (first : Nat) {last : Nat}
    (hi : last < s.size) : t.slots first last = s.slots first last := by
  obtain ⟨rest, hrest⟩ := h.isPrefix
  have hi' : last + 1 ≤ s.buffer.toList.length := by
    rw [Array.length_toList]
    exact hi
  have taken : t.buffer.toList.take (last + 1) = s.buffer.toList.take (last + 1) := by
    rw [← hrest, List.take_append_of_le_length hi']
  simp only [slots, Array.toList_extract, List.extract_eq_take_drop, ← List.drop_take, taken]

theorem lasting_get (i : Nat) :
    Lasting (σ := σ) (fun s => i < s.size) (fun s => s.buffer[i]?) where
  ready_grown grown filled := by
    simp only [decide_eq_true_eq] at filled ⊢
    exact Nat.lt_of_lt_of_le filled grown.size_le
  read_grown grown filled := grown.getElem?_eq (by simpa using filled)
  read_same buffer _ := by rw [buffer]

theorem lasting_range (first last : Nat) :
    Lasting (σ := σ) (fun s => last < s.size) (fun s => s.slots first last) where
  ready_grown := (lasting_get last).ready_grown
  read_grown grown filled := grown.slots_eq first (by simpa using filled)
  read_same buffer _ := by rw [slots, slots, buffer]

theorem receive_setCursor (s : Stream σ) (t : Token) (cursor : Option Nat) :
    receive { s with cursor } t = { receive s t with cursor } := by
  unfold receive
  split
  · rfl
  · dsimp only [note]
    split <;> rfl

theorem receive_setMark (s : Stream σ) (t : Token) (lastMark : Nat) :
    receive { s with lastMark } t = { receive s t with lastMark } := by
  unfold receive
  split
  · rfl
  · dsimp only [note]
    split <;> rfl

variable [TokenSource σ]

/-! ## Pulls do not look at the cursor -/

theorem PullStep.setCursor {s t : Stream σ} (h : PullStep s t) (cursor : Option Nat) :
    PullStep { s with cursor } { t with cursor } := by
  obtain ⟨token, source, next, rfl⟩ := h.exists_token
  refine ⟨h.1, ?_⟩
  rw [← receive_setCursor]
  exact perform_pull_ok next

theorem PullStep.setMark {s t : Stream σ} (h : PullStep s t) (lastMark : Nat) :
    PullStep { s with lastMark } { t with lastMark } := by
  obtain ⟨token, source, next, rfl⟩ := h.exists_token
  refine ⟨h.1, ?_⟩
  rw [← receive_setMark]
  exact perform_pull_ok next

theorem Pulls.map {f : Stream σ → Stream σ} (step : ∀ {s t}, PullStep s t → PullStep (f s) (f t))
    {s t : Stream σ} (h : Pulls s t) : Pulls (f s) (f t) := by
  induction h with
  | refl => exact .refl
  | tail _ last ih => exact ih.tail (step last)

/-! ## Operations that commute with pulls -/

/-- Pulls made before the operation do not change its answer, nor what it leaves but for more
pulls. -/
def Commutes {α : Type} (op : StreamM σ α) (s : Stream σ) : Prop :=
  ∀ ⦃v a t⦄, Pulls s v → op.perform s = (.ok a, t) →
    ∃ w, op.perform v = (.ok a, w) ∧ Pulls t w

section

variable {α β : Type} {s : Stream σ}

theorem commutes_pure (a : α) : Commutes (pure a : StreamM σ α) s := by
  intro v b t pulls h
  cases h
  exact ⟨v, rfl, pulls⟩

theorem commutes_bind {op : StreamM σ α} {next : α → StreamM σ β} (first : Commutes op s)
    (then_ : ∀ a t, op.perform s = (.ok a, t) → Commutes (next a) t) :
    Commutes (op >>= next) s := by
  intro v b u pulls h
  rcases StreamM.perform_bind_ok h with ⟨a, t, performed, rest⟩
  obtain ⟨w, performed', later⟩ := first pulls performed
  obtain ⟨x, rest', later'⟩ := then_ a t performed later rest
  exact ⟨x, (StreamM.perform_bind_of_ok performed' next).trans rest', later'⟩

theorem commutes_bind_pure {op : StreamM σ α} {f : α → β} (h : Commutes op s) :
    Commutes (op >>= fun a => pure (f a)) s :=
  commutes_bind h fun _ _ _ => commutes_pure _

/-- Reading off what pulls do not change. -/
theorem commutes_read {read : Stream σ → α} (same : ∀ {w}, Pulls s w → read w = read s) :
    Commutes (get >>= fun s => pure (read s)) s := by
  intro v a t pulls h
  cases h
  exact ⟨v, by rw [← same pulls]; rfl, pulls⟩

theorem commutes_modify {f : Stream σ → Stream σ}
    (step : ∀ {s t}, PullStep s t → PullStep (f s) (f t)) :
    Commutes (modify f : StreamM σ PUnit) s := by
  intro v a t pulls h
  cases h
  exact ⟨f v, rfl, pulls.map step⟩

theorem commutes_search {ready : Stream σ → Bool} {read : Stream σ → α}
    (steady : Steady ready read) (limit : Nat) : Commutes (search ready read limit) s :=
  fun _ _ _ pulls h => steady.search_of_pulls h pulls

end

/-! ## Operations with the cursor -/

theorem commutes_nextVisible (limit i : Nat) (s : Stream σ) : Commutes (nextVisible limit i) s := by
  intro v j t pulls h
  rw [perform_nextVisible] at h
  rw [perform_nextVisible]
  exact commutes_search (lasting_sees i).steady limit pulls h

theorem commutes_seek (limit i : Nat) (s : Stream σ) : Commutes (seek limit i) s :=
  commutes_bind (commutes_nextVisible limit i s) fun j _ _ =>
    commutes_modify fun step => step.setCursor (some j)

theorem commutes_position (limit : Nat) (s : Stream σ) : Commutes (position limit) s := by
  intro v p t pulls h
  rcases placed : s.cursor with _ | q
  · rw [perform_position_of_none placed] at h
    rw [perform_position_of_none (pulls.cursor.trans placed)]
    have settle : Commutes (nextVisible limit 0 >>= fun p => place p >>= fun _ => pure p) s :=
      commutes_bind (commutes_nextVisible limit 0 s) fun p _ _ =>
        commutes_bind_pure (commutes_modify fun step => step.setCursor (some p))
    exact settle pulls h
  · rw [perform_position_of_some placed] at h
    cases h
    exact ⟨v, perform_position_of_some (pulls.cursor.trans placed) limit, pulls⟩

theorem commutes_stepsAhead (limit k : Nat) {i : Nat} {s : Stream σ} (settled : s.Settled i) :
    Commutes (stepsAhead limit k i) s := by
  induction k generalizing i s with
  | zero => exact commutes_pure i
  | succ k ih =>
    intro v j t pulls h
    by_cases hi : i < s.size
    · rw [perform_stepsAhead_of_lt hi] at h
      rw [perform_stepsAhead_of_lt (Nat.lt_of_lt_of_le hi pulls.within.size_le)]
      exact commutes_bind (commutes_nextVisible limit (i + 1) s)
        (fun m u found => ih (nextVisible_ok found).2.2) pulls h
    · have same := pulls.eq_of_isDry (settled.isDry hi).2
      rw [same]
      exact ⟨t, h, .refl⟩

theorem commutes_lookahead (limit : Nat) (k : Int) {s : Stream σ} (sound : s.CursorSettled) :
    Commutes (lookahead limit k) s := by
  match k with
  | .ofNat 0 => exact commutes_pure none
  | .ofNat (k + 1) =>
    apply commutes_bind (commutes_position limit s)
    intro p t positioned
    have settled := settled_of_position sound positioned
    apply commutes_bind (commutes_stepsAhead limit k settled)
    intro i u stepped
    exact commutes_read fun pulls => pulls.extends.read_eq (stepsAhead_ok settled stepped).2.1
  | .negSucc k =>
    apply commutes_bind (commutes_position limit s)
    intro p t positioned
    have settled := settled_of_position sound positioned
    exact commutes_read fun pulls => pulls.within.readBack_eq k settled.le_size

theorem commutes_consume (limit : Nat) {s : Stream σ} (sound : s.CursorSettled) :
    Commutes (consume limit) s := by
  apply commutes_bind (commutes_position limit s)
  intro p t positioned
  have settled := settled_of_position sound positioned
  intro v a u pulls h
  rw [StreamM.perform_bind, StreamM.perform_get] at h ⊢
  by_cases hp : p < t.size
  · simp only [hp, if_true] at h
    simp only [Nat.lt_of_lt_of_le hp pulls.within.size_le, if_true]
    exact commutes_seek limit (p + 1) t pulls h
  · rw [pulls.eq_of_isDry (settled.isDry hp).2]
    exact ⟨u, h, .refl⟩

theorem commutes_mark (limit : Nat) (s : Stream σ) : Commutes (mark limit) s :=
  commutes_bind (commutes_position limit s) fun p _ _ =>
    commutes_bind (commutes_modify fun step => step.setMark p) fun _ _ _ => commutes_pure p

theorem commutes_rewindToMark (limit : Nat) (s : Stream σ) : Commutes (rewindToMark limit) s := by
  intro v a t pulls h
  rw [rewindToMark, StreamM.perform_bind, StreamM.perform_get] at h ⊢
  dsimp only at h ⊢
  rw [pulls.lastMark]
  exact commutes_seek limit s.lastMark s pulls h

theorem commutes_drainTexts (limit count : Nat) {s : Stream σ} (sound : s.Sound) :
    Commutes (drainTexts limit count) s := by
  induction count generalizing s with
  | zero =>
    intro v a t pulls h
    cases h
  | succ count ih =>
    apply commutes_bind (commutes_lookahead limit 1 sound.cursor)
    intro found t looked
    have kept := (operates_lookahead limit 1 s).sound_of_perform looked sound
    cases found with
    | none => exact commutes_pure []
    | some token =>
      dsimp only
      split
      · exact commutes_pure []
      · apply commutes_bind (commutes_consume limit kept.cursor)
        intro a u consumed
        have kept' := (operates_consume limit t).sound_of_perform consumed kept
        exact commutes_bind_pure (ih kept')

theorem drainTexts_succ_ok {limit count : Nat} {s t : Stream σ} {texts : List String}
    (h : (drainTexts limit count).perform s = (.ok texts, t)) :
    (drainTexts limit (count + 1)).perform s = (.ok texts, t) := by
  induction count generalizing s t texts with
  | zero => cases h
  | succ count ih =>
    rcases StreamM.perform_bind_ok h with ⟨found, u, looked, h⟩
    rw [drainTexts, StreamM.perform_bind_of_ok looked]
    cases found with
    | none => exact h
    | some token =>
      dsimp only at h ⊢
      split
      · next ends =>
        rw [if_pos ends] at h
        exact h
      · next going =>
        rw [if_neg going] at h
        rcases StreamM.perform_bind_ok h with ⟨a, v, consumed, h⟩
        rcases StreamM.perform_bind_ok h with ⟨rest, w, drained, h⟩
        rw [StreamM.perform_bind_of_ok consumed, StreamM.perform_bind_of_ok (ih drained)]
        exact h

theorem drainTexts_ok_of_le {limit count count' : Nat} (le : count ≤ count') {s t : Stream σ}
    {texts : List String} (h : (drainTexts limit count).perform s = (.ok texts, t)) :
    (drainTexts limit count').perform s = (.ok texts, t) := by
  induction le with
  | refl => exact h
  | step _ ih => exact drainTexts_succ_ok ih

theorem commutes_drain (limit : Nat) {s : Stream σ} (sound : s.Sound) :
    Commutes (drain limit) s := by
  intro v texts t pulls h
  rw [drain, StreamM.perform_bind, StreamM.perform_get] at h ⊢
  obtain ⟨w, drained, later⟩ := commutes_drainTexts limit _ sound pulls h
  have more : s.size + limit + 1 ≤ v.size + limit + 1 := by
    have := pulls.within.size_le
    omega
  exact ⟨w, drainTexts_ok_of_le more drained, later⟩

/-! ## Operations on slots by number -/

theorem steady_all {α : Type} (read : Stream σ → α) : Steady (fun _ => false) read where
  ready_step _ ready := ready
  read_step _ ready := by cases ready

theorem commutes_range (limit first last : Nat) (s : Stream σ) :
    Commutes (range limit first last) s := by
  unfold range
  split
  · exact commutes_pure []
  · exact commutes_search (lasting_range first last).steady limit

/-! ## Commands -/

theorem commutes_exec (limit : Nat) {c : Command σ} (reads : c.readsTokens = true) {s : Stream σ}
    (sound : s.Sound) : Commutes (exec limit c) s := by
  revert s
  apply exec_induction (isOperation_of_readsTokens reads)
    (P := fun op => ∀ {s : Stream σ}, s.Sound → Commutes op s)
  case wrap => exact fun f h s sound => commutes_bind_pure (h sound)
  case value => exact fun a s _ => commutes_pure a
  case policy => exact fun read _ s _ => commutes_read fun pulls => by rw [pulls.policy]
  case name =>
    intro named
    subst named
    cases reads
  case consume => exact fun _ s sound => commutes_consume limit sound.cursor
  case lookahead => exact fun k _ s sound => commutes_lookahead limit k sound.cursor
  case get? => exact fun i s _ => commutes_search (lasting_get i).steady limit
  case mark => exact fun _ s _ => commutes_mark limit s
  case seek => exact fun i s _ => commutes_seek limit i s
  case rewindToMark => exact fun _ => commutes_rewindToMark limit _
  case fill => exact fun _ v a t pulls h => (steady_all Stream.size).pullUntil_of_pulls h pulls
  case tokens => exact fun _ => commutes_search (steady_all _) limit
  case range => exact fun first last s _ => commutes_range limit first last s
  case drain => exact fun _ s sound => commutes_drain limit sound

end Stream

end Lookahead
