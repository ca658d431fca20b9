import Lookahead.Proofs.Backtracking
import Lookahead.Proofs.Replacement

/-!
# What commands leave alone

Most commands touch neither the cursor nor the last marker, although they may pull (`isStill`).
Looking ahead or back, asking for the end and marking do to the cursor at most what they need: they
put it on the foremost visible slot if it is not set yet (`Placed`). What was foremost when the
cursor was put there is foremost however far is pulled afterwards (`Foremost.extends`). The policy
changes by its own commands only, each of which changes one entry of it. `framed_exec` says this of
every command and every outcome.
-/

namespace Lookahead

namespace Command

variable {σ : Type}

/-- Whether a command has nothing to do with the cursor and the last marker. -/
def isStill : Command σ → Bool
  | .lookahead k | .peekKind k => k == 0
  | .consume | .mark | .rewind _ | .rewindToMark | .seek _ | .isAtEnd | .drain | .replace _ => false
  | _ => true

/-- Whether a command uses the cursor but does not move it. -/
def onlyPlaces : Command σ → Bool
  | .lookahead _ | .peekKind _ | .isAtEnd | .mark => true
  | _ => false

end Command

namespace Stream

variable {σ : Type}

/-! ## The foremost visible slot -/

/-- Slot `p` is the first visible one, or the size of the buffer if the source has ended without
one. -/
structure Foremost (s : Stream σ) (p : Nat) : Prop where
  settled : s.isVisible p = true ∨ p = s.size ∧ s.endToken.isSome = true
  hidden : ∀ i < p, s.isVisible i = false

/-- What is foremost stays so. -/
theorem Foremost.extends {s t : Stream σ} {p : Nat} (h : s.Foremost p) (extended : s.Extends t) :
    t.Foremost p := by
  have settled : s.Settled p := h.settled
  refine ⟨extended.settled settled, fun i hi => ?_⟩
  rw [extended.within.isVisible_eq (Nat.lt_of_lt_of_le hi settled.le_size)]
  exact h.hidden i hi

/-- The cursor is where it was, or it was unset and is on the foremost visible slot. -/
def Placed (s t : Stream σ) : Prop :=
  t.cursor = s.cursor ∨ s.cursor = none ∧ ∃ p, t.cursor = some p ∧ t.Foremost p

theorem Placed.trans_kept {s t u : Stream σ} (h : s.Placed t) (cursor : u.cursor = t.cursor)
    (extended : t.Extends u) : s.Placed u := by
  rcases h with same | ⟨unset, p, placed, foremost⟩
  · exact Or.inl (cursor.trans same)
  · exact Or.inr ⟨unset, p, cursor.trans placed, foremost.extends extended⟩

variable [TokenSource σ]

/-- A search from the first slot on comes back with the foremost visible slot. -/
theorem foremost_of_nextVisible {limit p : Nat} {s t : Stream σ}
    (h : (nextVisible limit 0).perform s = (.ok p, t)) : t.Foremost p := by
  rw [perform_nextVisible] at h
  obtain ⟨loop, rfl⟩ := search_ok h
  obtain ⟨-, stops⟩ := pullUntil_ok loop
  rcases first_target stops with ⟨-, visible, hidden⟩ | ⟨atEnd, dry, hidden⟩
  · exact ⟨Or.inl visible, fun i hi => hidden i (Nat.zero_le i) hi⟩
  · exact ⟨Or.inr ⟨atEnd, dry⟩, fun i _ => hidden i (Nat.zero_le i)⟩

/-! ## Operations that only place the cursor -/

theorem placed_position (limit : Nat) (s : Stream σ) : s.Placed ((position limit).perform s).2 := by
  rcases positioned : (position limit).perform s with ⟨i | p, t⟩
  · rcases placed : s.cursor with _ | q
    · rw [perform_position_of_none placed] at positioned
      rcases StreamM.perform_bind_error positioned with failed | ⟨q, u, -, failed⟩
      · have kept : ((nextVisible limit 0).perform s).2.cursor = s.cursor :=
          keeps_nextVisible (fun cursor _ => cursor) limit 0 s
        rw [failed] at kept
        exact Or.inl kept
      · cases failed
    · rw [perform_position_of_some placed] at positioned
      cases positioned
  · obtain ⟨-, rfl | ⟨unset, u, search, rfl⟩⟩ := position_ok positioned
    · exact Or.inl rfl
    · have extended : u.Extends { u with cursor := some p } := .of_same rfl rfl rfl
      exact Or.inr ⟨unset, p, rfl, (foremost_of_nextVisible search).extends extended⟩

/-- What is done from the cursor on and leaves it alone does no more than to place it. -/
theorem placed_from_position {α : Type} {limit : Nat} {next : Nat → StreamM σ α}
    (kept : ∀ p, Keeps Stream.cursor (next p))
    (operates : ∀ p t, Operates t ((next p).perform t).2) (s : Stream σ) :
    s.Placed ((position limit >>= next).perform s).2 := by
  have first := placed_position limit s
  rcases positioned : (position limit).perform s with ⟨i | p, t⟩
  · rw [positioned] at first
    rw [StreamM.perform_bind_of_error positioned]
    exact first
  · rw [positioned] at first
    rw [StreamM.perform_bind_of_ok positioned]
    exact first.trans_kept (kept p t) (operates p t).extends

theorem placed_lookahead (limit : Nat) (k : Int) (s : Stream σ) :
    s.Placed ((lookahead limit k).perform s).2 := by
  match k with
  | .ofNat 0 => exact Or.inl rfl
  | .ofNat (k + 1) =>
    apply placed_from_position
    · exact fun p => keeps_bind (keeps_stepsAhead (fun cursor _ => cursor) limit k p)
        fun _ => keeps_read _
    · exact fun p t => operates_bind (operates_stepsAhead limit k p t) fun _ _ _ => .refl
  | .negSucc k => exact placed_from_position (fun _ => keeps_read _) (fun _ _ => .refl) s

theorem placed_mark (limit : Nat) (s : Stream σ) : s.Placed ((mark limit).perform s).2 := by
  have first := placed_position limit s
  rcases positioned : (position limit).perform s with ⟨i | p, t⟩
  · rw [positioned] at first
    rw [mark, StreamM.perform_bind_of_error positioned]
    exact first
  · rw [positioned] at first
    rw [mark, StreamM.perform_bind_of_ok positioned]
    exact first.trans_kept rfl (.of_same rfl rfl rfl)

theorem placed_exec (limit : Nat) {c : Command σ} (places : c.onlyPlaces = true) (s : Stream σ) :
    s.Placed ((exec limit c).perform s).2 := by
  have wrap {α β : Type} {op : StreamM σ α} (f : α → β)
      (h : ∀ s : Stream σ, s.Placed (op.perform s).2) (s : Stream σ) :
      s.Placed ((op >>= fun a => pure (f a)).perform s).2 := by
    have left : ((op >>= fun a => pure (f a)).perform s).2 = (op.perform s).2 := by
      rw [StreamM.perform_bind]
      rcases op.perform s with ⟨_ | _, t⟩ <;> rfl
    rw [left]
    exact h s
  cases c with
  | lookahead k => exact wrap _ (placed_lookahead limit k) s
  | peekKind k => exact wrap _ (wrap _ (placed_lookahead limit k)) s
  | isAtEnd => exact wrap _ (wrap _ (placed_lookahead limit 1)) s
  | mark => exact wrap _ (placed_mark limit) s
  | _ => cases places

/-! ## Commands that leave the cursor alone -/

theorem cursor_exec (limit : Nat) {c : Command σ} (still : c.isStill = true) :
    Keeps Stream.cursor (exec limit c) := by
  have search {α : Type} (ready : Stream σ → Bool) (read : Stream σ → α) :
      Keeps Stream.cursor (search ready read limit) :=
    keeps_search (fun cursor _ => cursor) ready read limit
  have fill : Keeps Stream.cursor (fill limit : StreamM σ Unit) :=
    keeps_pullUntil (fun cursor _ => cursor) _ limit
  have tokens : Keeps Stream.cursor (tokens limit : StreamM σ (List Token)) := search _ _
  have range (first last : Nat) :
      Keeps Stream.cursor (range limit first last : StreamM σ (List Token)) := by
    unfold Stream.range
    split
    · exact keeps_pure []
    · exact search _ fun s => s.slots first last
  have wrap {α β : Type} {op : StreamM σ α} (f : α → β) (h : Keeps Stream.cursor op) :=
    keeps_bind_pure f h
  cases c with
  | peekKind k =>
    obtain rfl : k = 0 := beq_iff_eq.1 still
    exact fun _ => rfl
  | lookahead k =>
    obtain rfl : k = 0 := beq_iff_eq.1 still
    exact fun _ => rfl
  | get i => exact wrap _ (search _ fun s => s.buffer[i]?)
  | display i => exact wrap _ (search _ fun s => s.buffer[i]?)
  | release marker => exact fun _ => rfl
  | sourceName => exact fun _ => rfl
  | fill => exact wrap _ fill
  | channel => exact fun _ => rfl
  | routeOf kind => exact fun _ => rfl
  | dropsOffChannel => exact fun _ => rfl
  | isDiscarded kind => exact fun _ => rfl
  | tokens => exact wrap _ tokens
  | range first last => exact wrap _ (range first last)
  | rangeInSet first last kinds => exact wrap _ (wrap _ (range first last))
  | rangeOfKinds first last kinds => exact wrap _ (wrap _ (range first last))
  | rangeOfKind first last kind => exact wrap _ (wrap _ (range first last))
  | text => exact wrap _ (wrap _ tokens)
  | textRange first last => exact wrap _ (wrap _ (range first last))
  | textBetween first last =>
    refine wrap _ ?_
    unfold textBetween
    split
    · exact wrap _ (range _ _)
    · exact keeps_pure ""
  | discard kind =>
    intro s
    show (s.discard kind).cursor = s.cursor
    unfold discard
    split <;> rfl
  | reroute kind channel => exact fun _ => rfl
  | dropOffChannel drop => exact fun _ => rfl
  | pullSource =>
    intro s
    rw [perform_exec_pullSource]
  | _ => cases still

/-! ## The marker -/

/-- A mark that succeeds answers with the cursor, and sets the marker to it. -/
theorem mark_answered {limit : Nat} {s t : Stream σ} {a : Answer σ}
    (h : (exec limit .mark).perform s = (.ok a, t)) :
    ∃ m, a = .slot m ∧ t.lastMark = m ∧ t.cursor = some m := by
  obtain ⟨m, u, marked, answered⟩ := StreamM.perform_bind_ok h
  obtain ⟨p, v, positioned, marked⟩ := StreamM.perform_bind_ok marked
  cases marked
  cases answered
  exact ⟨m, rfl, rfl, (position_ok positioned).1⟩

/-- The marker is set by a mark that succeeds and by the installation of another source only. -/
theorem lastMark_cases {limit : Nat} {c : Command σ} {s t : Stream σ}
    {result : Except Interrupt (Answer σ)} (h : (exec limit c).perform s = (result, t)) :
    t.lastMark = s.lastMark ∨
      c = .mark ∧ (∃ m, result = .ok (.slot m) ∧ t.lastMark = m ∧ t.cursor = some m) ∨
      ∃ source, c = .replace source := by
  cases keeps : c.keepsSource with
  | false =>
    cases c with
    | replace source => exact Or.inr (Or.inr ⟨source, rfl⟩)
    | _ => cases keeps
  | true =>
    by_cases marked : c = .mark ∧ ∃ a, result = .ok a
    · obtain ⟨rfl, a, rfl⟩ := marked
      obtain ⟨m, rfl, set⟩ := mark_answered h
      exact Or.inr (Or.inl ⟨rfl, m, rfl, set⟩)
    · have unmarked : c = .mark → ∀ a, ((exec limit c).perform s).1 ≠ .ok a := by
        intro marking a answered
        rw [h] at answered
        exact marked ⟨marking, a, answered⟩
      have kept := lastMark_exec limit keeps s unmarked
      rw [h] at kept
      exact Or.inl kept

end Stream

/-! ## The policy -/

/-- What a command that led from policy `p` to policy `q` has changed: the entry that it names, and
never the tuned channel. -/
structure Resets {σ : Type} (c : Command σ) (p q : Policy) : Prop where
  channel : q.channel = p.channel
  dropsOffChannel : q.dropsOffChannel = p.dropsOffChannel ∨ c = .dropOffChannel q.dropsOffChannel
  overrides : q.overrides = p.overrides ∨
    ∃ kind channel, c = .reroute kind channel ∧ q.overrides.find? kind = some channel ∧
      ∀ k, k ≠ kind → q.overrides.find? k = p.overrides.find? k
  discards : q.discards = p.discards ∨
    ∃ kind, c = .discard kind ∧ q.discards.contains kind = true ∧
      ∀ k, k ≠ kind → q.discards.contains k = p.discards.contains k

theorem resets_setting {σ : Type} (c : Command σ) (p : Policy) :
    Resets c p (c.setting?.toList.foldl Setting.apply p) := by
  cases c with
  | discard kind =>
    refine ⟨rfl, Or.inl rfl, Or.inl rfl, Or.inr ⟨kind, rfl, ?_, fun k other => ?_⟩⟩
    · exact (Discards.contains_insert p.discards kind kind).trans (by simp)
    · exact (Discards.contains_insert p.discards kind k).trans (by simp [other])
  | reroute kind channel =>
    refine ⟨rfl, Or.inl rfl, Or.inr ⟨kind, channel, rfl, ?_, fun k other => ?_⟩, Or.inl rfl⟩
    · exact (Overrides.find?_insert p.overrides kind kind channel).trans (if_pos rfl)
    · exact (Overrides.find?_insert p.overrides kind k channel).trans (if_neg other)
  | dropOffChannel drop => exact ⟨rfl, Or.inr rfl, Or.inl rfl, Or.inl rfl⟩
  | _ => exact ⟨rfl, Or.inl rfl, Or.inl rfl, Or.inl rfl⟩

namespace Stream

variable {σ : Type} [TokenSource σ]

/-! ## The frame of a command -/

/-- What a command that led from `s` to `t` with this result has left alone. -/
structure Framed (c : Command σ) (s : Stream σ) (result : Except Interrupt (Answer σ))
    (t : Stream σ) : Prop where
  still : c.isStill = true → t.cursor = s.cursor ∧ t.lastMark = s.lastMark
  placed : c.onlyPlaces = true → s.Placed t
  lastMark : t.lastMark = s.lastMark ∨
    c = .mark ∧ (∃ m, result = .ok (.slot m) ∧ t.lastMark = m ∧ t.cursor = some m) ∨
    ∃ source, c = .replace source
  policy : Resets c s.policy t.policy
  buffer : s.buffer.toList <+: t.buffer.toList ∨ ∃ source, c = .replace source

/-- Whatever comes of a command, it leaves alone what is not its own. Most commands leave cursor and
marker, those that look or mark put a cursor that is unset on the foremost visible slot at most, and
the marker is set by a mark that succeeds. The tuned channel is never changed, and an entry of the
policy by the command that names it only. Whatever was buffered stays in its slot, unless another
source is installed. -/
theorem framed_exec (limit : Nat) (c : Command σ) (s : Stream σ) :
    Framed c s ((exec limit c).perform s).1 ((exec limit c).perform s).2 where
  still := by
    intro still
    refine ⟨cursor_exec limit still s, ?_⟩
    rcases lastMark_cases (Eq.refl ((exec limit c).perform s)) with same | ⟨rfl, -⟩ | ⟨_, rfl⟩
    · exact same
    · cases still
    · cases still
  placed places := placed_exec limit places s
  lastMark := lastMark_cases rfl
  policy := policy_exec limit c s ▸ resets_setting c s.policy
  buffer := by
    cases keeps : c.keepsSource with
    | true => exact Or.inl (extends_exec limit keeps s).within.isPrefix
    | false =>
      cases c with
      | replace source => exact Or.inr ⟨source, rfl⟩
      | _ => cases keeps

end Stream

end Lookahead
