import Mathlib.Data.List.Forall2
import Lookahead.Proofs.Abreast
import Lookahead.Proofs.Retry

/-!
# What a parser sees

Which tokens are visible is all that a parser can tell of a policy: it makes no difference whether
the others are discarded, dropped for their channel, or kept on another one. A parser is a list of
`Move`s, which are relative to the cursor or go back to markers it was given. Whatever it does, it
gets the same answers from streams whose policies show the same tokens, but for the numbers of slots
(`follow_alike`).
-/

namespace Lookahead

open List (Forall₂)

/-- What a parser does. It calls the markers by number, in the order in which it was given them. -/
inductive Move
  | consume
  | peekKind (k : Int)
  | lookahead (k : Int)
  | isAtEnd
  | mark
  | release (n : Nat)
  | rewind (n : Nat)
  | rewindToMark
  | drain

/-- The command that makes a move, given the markers so far. Before there are any, it is the first
slot that is gone back to. -/
def Move.command {σ : Type} (markers : List Nat) : Move → Command σ
  | consume => .consume
  | peekKind k => .peekKind k
  | lookahead k => .lookahead k
  | isAtEnd => .isAtEnd
  | mark => .mark
  | release n => .release (markers.getD n 0)
  | rewind n => .rewind (markers.getD n 0)
  | rewindToMark => .rewindToMark
  | drain => .drain

theorem Move.isOperation_command {σ : Type} (markers : List Nat) (m : Move) :
    (m.command markers : Command σ).isOperation = true := by
  cases m <;> rfl

/-- The marker that is given with an answer. -/
def Answer.markers {σ : Type} : Answer σ → List Nat
  | .slot i => [i]
  | _ => []

/-- The same answer, but for the numbers of slots. -/
def Answer.bare {σ : Type} : Answer σ → Answer σ
  | .slot _ => .slot 0
  | .token? t => .token? (t.map Token.bare)
  | .tokens ts => .tokens (ts.map Token.bare)
  | a => a

/-- The markers that are given with an outcome. -/
def Outcome.markers {σ : Type} (o : Outcome σ (Answer σ)) : List Nat :=
  match o.result with
  | .ok a => a.markers
  | .error _ => []

/-- The outcomes are the same but for the numbers of slots, and after the same pulls. -/
structure Outcome.Alike {σ : Type} (o o' : Outcome (Metered σ) (Answer (Metered σ))) : Prop where
  result : o.result.map Answer.bare = o'.result.map Answer.bare
  pulls : o.after.source.pulls = o'.after.source.pulls
  source : o.after.source.source = o'.after.source.source

namespace Stream

variable {σ : Type} [TokenSource σ]

/-- The outcomes of moves that are made one after the other. -/
def follow (limit : Nat) (markers : List Nat) : List Move → Stream σ → List (Outcome σ (Answer σ))
  | [], _ => []
  | m :: rest, s =>
    let first := once (exec limit (m.command markers)) s
    first :: follow limit (markers ++ first.markers) rest first.after

/-! ## One move -/

omit [TokenSource σ] in
/-- Markers that are called by the same number correspond. -/
theorem sameRank_getD {s s' : Stream σ} {markers markers' : List Nat}
    (h : Forall₂ (SameRank s s') markers markers') (n : Nat) :
    SameRank s s' (markers.getD n 0) (markers'.getD n 0) := by
  induction h generalizing n with
  | nil => exact sameRank_zero s s'
  | cons first _ ih =>
    cases n with
    | zero => exact first
    | succ n => exact ih n

/-- The answers of a move are the same but for the numbers of slots. -/
def AnswersAlike (a a' : Answer σ) (t t' : Stream σ) : Prop :=
  a.bare = a'.bare ∧ Abreast t t' ∧ Forall₂ (SameRank t t') a.markers a'.markers

/-- A move that is made on streams abreast, with markers that correspond. The second stream is
allowed as many pulls more as the first one has tokens buffered. -/
theorem keepsUp_move {limit more : Nat} (le : limit ≤ more) (m : Move)
    (markers markers' : List Nat) :
    KeepsUp
      (fun s s' => Abreast s s' ∧ Forall₂ (SameRank s s') markers markers' ∧ limit + s.size ≤ more)
      AnswersAlike Abreast (exec limit (m.command markers) : StreamM σ (Answer σ))
      (exec more (m.command markers')) := by
  cases m with
  | consume =>
    exact KeepsUp.weaken (keepsUp_bind_pure (keepsUp_consume le) fun h => ⟨rfl, h, .nil⟩) And.left
  | peekKind k =>
    exact KeepsUp.weaken
      (keepsUp_bind_pure (keepsUp_peekKind le k) fun h => ⟨by rw [h.1], h.2, .nil⟩) And.left
  | lookahead k =>
    exact KeepsUp.weaken
      (keepsUp_bind_pure (keepsUp_lookahead le k)
        fun h => ⟨congrArg Answer.token? h.1, h.2, .nil⟩) And.left
  | isAtEnd =>
    exact KeepsUp.weaken
      (keepsUp_bind_pure (keepsUp_isAtEnd le) fun h => ⟨by rw [h.1], h.2, .nil⟩) And.left
  | mark =>
    exact KeepsUp.weaken
      (keepsUp_bind_pure (keepsUp_mark le) fun h => ⟨rfl, h.1, .cons h.2 .nil⟩) And.left
  | release n => exact (lockstep_pure fun h => ⟨rfl, h.1, .nil⟩).keepsUp
  | rewind n =>
    exact KeepsUp.weaken
      (keepsUp_bind_pure (keepsUp_seek le _ _) fun h => ⟨rfl, h, .nil⟩)
      fun h => ⟨h.1, sameRank_getD h.2.1 n⟩
  | rewindToMark =>
    exact KeepsUp.weaken
      (keepsUp_bind_pure (keepsUp_rewindToMark le) fun h => ⟨rfl, h, .nil⟩) And.left
  | drain =>
    exact KeepsUp.weaken
      (keepsUp_bind_pure (keepsUp_drain le) fun h => ⟨by rw [h.1], h.2, .nil⟩)
      fun h => ⟨h.1, h.2.2⟩

/-- What has become of the streams and the markers after a move. -/
structure Followed (markers markers' : List Nat) (o o' : Outcome σ (Answer σ)) : Prop where
  result : o.result.map Answer.bare = o'.result.map Answer.bare
  abreast : Abreast o.after o'.after
  markers : Forall₂ (SameRank o.after o'.after) (markers ++ o.markers) (markers' ++ o'.markers)

/-- One move takes streams that are abreast to streams that are, and markers that correspond stay
so. -/
theorem followed_once {limit more : Nat} {s s' : Stream σ} {markers markers' : List Nat}
    (abreast : Abreast s s') (given : Forall₂ (SameRank s s') markers markers')
    (enough : limit + s.size ≤ more) (m : Move)
    (inTime : InTime (exec limit (m.command markers)) s) :
    Followed markers markers' (once (exec limit (m.command markers)) s)
      (once (exec more (m.command markers')) s') := by
  have le : limit ≤ more := Nat.le_trans (Nat.le_add_right _ _) enough
  have ended := keepsUp_move le m markers markers' ⟨abreast, given, enough⟩ inTime
  have grown := (operates_exec limit (m.isOperation_command markers) s).extends.within
  have grown' := (operates_exec more (m.isOperation_command markers') s').extends.within
  unfold once
  generalize (exec limit (m.command markers)).perform s = r,
    (exec more (m.command markers')).perform s' = r' at ended grown grown' ⊢
  cases ended with
  | answered alike =>
    obtain ⟨same, abreast', new⟩ := alike
    have old := given.imp fun _ _ h => SameRank.within h grown grown'
    exact ⟨congrArg Except.ok same, abreast', List.rel_append old new⟩
  | interrupted abreast' =>
    have old := given.imp fun _ _ h => SameRank.within h grown grown'
    exact ⟨rfl, abreast', List.rel_append old .nil⟩

/-! ## Runs -/

theorem follow_of_abreast (limit : Nat) (moves : List Move) (markers : List Nat)
    (s : Stream (Metered σ))
    (inTime : ∀ o ∈ follow limit markers moves s, o.result ≠ .error .outOfPulls) :
    ∃ enough, ∀ more, enough ≤ more → ∀ (s' : Stream (Metered σ)) (markers' : List Nat),
      Abreast s s' → Forall₂ (SameRank s s') markers markers' →
      Forall₂ Outcome.Alike (follow limit markers moves s) (follow more markers' moves s') := by
  induction moves generalizing markers s with
  | nil => exact ⟨0, fun _ _ _ _ _ _ => .nil⟩
  | cons m rest ih =>
    have first : InTime (exec limit (m.command markers)) s := inTime _ List.mem_cons_self
    obtain ⟨enough, later⟩ := ih _ _ fun o ho => inTime o (List.mem_cons_of_mem _ ho)
    refine ⟨max enough (limit + s.size), fun more le s' markers' abreast given => ?_⟩
    have followed := followed_once abreast given (by omega : limit + s.size ≤ more) m first
    have source := followed.abreast.source
    refine .cons ⟨followed.result, by rw [source], by rw [source]⟩ ?_
    exact later more (by omega) _ _ followed.abreast followed.markers

/-- If two policies are tuned to one channel and show the same tokens, streams over one source give
the same answers to a parser, fail with the same errors and make the same pulls, move by move,
whatever they do with the tokens that are not shown. Only the numbers of slots may differ. Where the
first stream needs no more pulls than it is allowed, the second one needs no more than a certain
number. -/
theorem follow_alike {p q : Policy} (channel : p.channel = q.channel)
    (shows : ∀ kind channel, p.shows kind channel = q.shows kind channel) (source : Metered σ)
    (limit : Nat) (moves : List Move)
    (inTime : ∀ o ∈ follow limit [] moves (start p source), o.result ≠ .error .outOfPulls) :
    ∃ enough, ∀ more, enough ≤ more →
      Forall₂ Outcome.Alike (follow limit [] moves (start p source))
        (follow more [] moves (start q source)) := by
  obtain ⟨enough, later⟩ := follow_of_abreast limit moves [] (start p source) inTime
  have abreast : Abreast (start p source) (start q source) :=
    { channel, shows, tokens := rfl, endToken := rfl, source := rfl, cursor := .none
      lastMark := sameRank_zero _ _ }
  exact ⟨enough, fun more le => later more le _ _ abreast .nil⟩

/-- Blanks are discarded, or they are kept on the hidden channel: the words are the same, but in
other slots. -/
theorem follow_alike_discarded :
    let blank := Token.plain 5 " " .unplaced
    let source : Metered ListedSource := .fresh (.ofList
      [blank, .plain 7 "a" .unplaced, blank, .plain 8 "b" .unplaced, .endOfStream .unplaced])
    let p := Policy.standard.discard 5
    let q := Policy.standard.reroute 5 .hidden
    let moves : List Move :=
      [.consume, .mark, .lookahead (-1), .consume, .isAtEnd, .rewind 0, .drain]
    p.channel = q.channel ∧ (∀ kind channel, p.shows kind channel = q.shows kind channel) ∧
      (∀ o ∈ follow 5 [] moves (start p source), o.result ≠ .error .outOfPulls) ∧
      ∃ enough, ∀ more, enough ≤ more →
        Forall₂ Outcome.Alike (follow 5 [] moves (start p source))
          (follow more [] moves (start q source)) := by
  intro blank source p q moves
  have shows (kind : Kind) (channel : Channel) : p.shows kind channel = q.shows kind channel := by
    have discarded : p.discards.contains kind = (kind == 5 || Discards.empty.contains kind) :=
      Discards.contains_insert .empty 5 kind
    have rerouted : q.overrides.find? kind = if kind = 5 then some .hidden else none :=
      Overrides.find?_insert .empty 5 kind .hidden
    rw [Policy.shows, Policy.shows, discarded, rerouted]
    by_cases blank : kind = 5
    · rw [if_pos blank, beq_iff_eq.2 blank]
      rfl
    · rw [if_neg blank, beq_eq_false_iff_ne.2 blank]
      rfl
  have inTime : ∀ o ∈ follow 5 [] moves (start p source), o.result ≠ .error .outOfPulls := by
    have computed : (follow 5 [] moves (start p source)).all (fun o => o.result.isOk) = true := by
      decide +kernel
    intro o ho out
    have ok := List.all_eq_true.1 computed o ho
    rw [out] at ok
    cases ok
  have channel : p.channel = q.channel := rfl
  exact ⟨channel, shows, inTime, follow_alike channel shows source 5 moves inTime⟩

end Stream

end Lookahead
