import Lookahead.Proofs.Lockstep
import Lookahead.Proofs.Rank

/-!
# Streams that show the same

Two streams over the same source are `Abreast` if their policies show the same tokens and they have
taken the same pulls, so that their visible tokens are the same but for the slots they are in. Slots
correspond if they have the same rank (`SameRank`).

Pulls keep streams abreast (`abreast_pull`), and searches find slots that correspond
(`keepsUp_nextVisible`). So do all operations relative to the cursor.

Draining counts the buffered tokens to know when to give up, so the stream that keeps fewer of them
may have to be allowed more pulls than the other one uses up.
-/

namespace Lookahead

/-- Whether a policy lets tokens of a kind that come on a channel be seen. -/
def Policy.shows (p : Policy) (kind : Kind) (channel : Channel) : Bool :=
  !p.discards.contains kind && (p.overrides.find? kind).getD channel == p.channel

/-- The tokens that are shown are those that are kept on the tuned channel. -/
theorem Policy.shows_iff (p : Policy) (t : Token) :
    p.shows t.kind t.channel = true ↔ p.judge t = .keep p.channel := by
  rw [shows, ← route, Bool.and_eq_true, Bool.not_eq_true', beq_iff_eq, judge]
  by_cases discarded : p.discards.contains t.kind = true
  · simp [discarded]
  · by_cases here : p.route t = p.channel
    · simp [discarded, here]
    · cases p.dropsOffChannel <;> simp [discarded, here]

/-- The same token, held in no buffer. -/
def Token.bare (t : Token) : Token := { t with index := none }

namespace Token

variable {t t' : Token}

theorem kind_eq_of_bare (h : t.bare = t'.bare) : t.kind = t'.kind := by
  have same : t.bare.kind = t'.bare.kind := congrArg kind h
  exact same

theorem text_eq_of_bare (h : t.bare = t'.bare) : t.text = t'.text := by
  have same : t.bare.text = t'.bare.text := congrArg text h
  exact same

theorem isEnd_eq_of_bare (h : t.bare = t'.bare) : t.isEnd = t'.isEnd := by
  rw [isEnd, isEnd, kind_eq_of_bare h]

end Token

namespace Stream

variable {σ : Type}

/-! ## Slots that correspond -/

/-- The slots are filled or next to be filled, and as many visible tokens come before them. -/
structure SameRank (s s' : Stream σ) (i i' : Nat) : Prop where
  le_size : i ≤ s.size
  le_size' : i' ≤ s'.size
  rank : s.rank i = s'.rank i'

/-- Slots of the same rank, as searches come back with. -/
structure Match (s s' : Stream σ) (i i' : Nat) : Prop where
  rank : s.rank i = s'.rank i'
  settled : s.Settled i
  settled' : s'.Settled i'

theorem sameRank_zero (s s' : Stream σ) : SameRank s s' 0 0 :=
  ⟨Nat.zero_le _, Nat.zero_le _, by rw [rank_zero, rank_zero]⟩

theorem SameRank.within {s s' t t' : Stream σ} {i i' : Nat} (h : SameRank s s' i i')
    (grown : s.Within t) (grown' : s'.Within t') : SameRank t t' i i' where
  le_size := Nat.le_trans h.le_size grown.size_le
  le_size' := Nat.le_trans h.le_size' grown'.size_le
  rank := by rw [grown.rank_eq h.le_size, grown'.rank_eq h.le_size', h.rank]

theorem Match.sameRank {s s' : Stream σ} {i i' : Nat} (h : Match s s' i i') : SameRank s s' i i' :=
  ⟨h.settled.le_size, h.settled'.le_size, h.rank⟩

/-- The slots after those that hold the same visible token correspond as well. -/
theorem Match.succ {s s' : Stream σ} {i i' : Nat} (h : Match s s' i i') (below : i < s.size)
    (below' : i' < s'.size) : SameRank s s' (i + 1) (i' + 1) where
  le_size := below
  le_size' := below'
  rank := by
    rw [rank_succ_of_isVisible (h.settled.isVisible below),
      rank_succ_of_isVisible (h.settled'.isVisible below'), h.rank]

/-! ## Streams that show the same -/

/-- Two streams whose policies show the same tokens, and that show the same tokens so far. -/
structure ShowSame (s s' : Stream σ) : Prop where
  channel : s.policy.channel = s'.policy.channel
  shows : ∀ kind channel, s.policy.shows kind channel = s'.policy.shows kind channel
  tokens : s.visibleTokens.map Token.bare = s'.visibleTokens.map Token.bare
  endToken : s.endToken.map Token.bare = s'.endToken.map Token.bare

/-- Two streams over one source that show the same tokens, and whose cursors and markers are on
slots that correspond. -/
structure Abreast (s s' : Stream σ) : Prop extends ShowSame s s' where
  source : s.source = s'.source
  cursor : Option.Rel (Match s s') s.cursor s'.cursor
  lastMark : SameRank s s' s.lastMark s'.lastMark

namespace ShowSame

variable {s s' : Stream σ}

theorem isDry (h : ShowSame s s') : s.isDry = s'.isDry := by
  have same := congrArg Option.isSome h.endToken
  rwa [Option.isSome_map, Option.isSome_map] at same

theorem length (h : ShowSame s s') : s.visibleTokens.length = s'.visibleTokens.length := by
  have same := congrArg List.length h.tokens
  rwa [List.length_map, List.length_map] at same

theorem getElem? (h : ShowSame s s') (r : Nat) :
    s.visibleTokens[r]?.map Token.bare = s'.visibleTokens[r]?.map Token.bare := by
  rw [← List.getElem?_map, ← List.getElem?_map, h.tokens]

theorem sees (h : ShowSame s s') {i i' : Nat} (same : SameRank s s' i i') :
    sees i s = sees i' s' := by
  rw [Bool.eq_iff_iff, sees_iff, sees_iff, same.rank, h.length]

theorem lt_size_iff (h : ShowSame s s') {i i' : Nat} (same : Match s s' i i') :
    i < s.size ↔ i' < s'.size := by
  rw [same.settled.lt_size_iff, same.settled'.lt_size_iff, same.rank, h.length]

/-- In slots that correspond there are tokens that are the same but for the slot. -/
theorem read (h : ShowSame s s') {i i' : Nat} (same : Match s s' i i') :
    (s.buffer[i]? <|> s.endToken).map Token.bare =
      (s'.buffer[i']? <|> s'.endToken).map Token.bare := by
  have held : s.buffer[i]?.map Token.bare = s'.buffer[i']?.map Token.bare := by
    rw [same.settled.getElem?_eq, same.settled'.getElem?_eq, same.rank, h.getElem?]
  have ended := h.endToken
  generalize s.buffer[i]? = here, s'.buffer[i']? = here' at held ⊢
  cases here with
  | none =>
    cases here' with
    | none => exact ended
    | some _ => cases held
  | some _ =>
    cases here' with
    | none => cases held
    | some _ => exact held

/-- Steps back lead to tokens that are the same but for the slot. -/
theorem readBack (h : ShowSame s s') {i i' : Nat} (same : Match s s' i i') (k : Nat) :
    ((s.stepsBack? (k + 1) i).bind fun j => s.buffer[j]?).map Token.bare =
      ((s'.stepsBack? (k + 1) i').bind fun j => s'.buffer[j]?).map Token.bare := by
  rw [stepsBack?_rank, stepsBack?_rank, same.rank]
  split
  · exact h.getElem? _
  · rfl

end ShowSame

/-! ## What is pulled -/

theorem hears_receive (s : Stream σ) (t : Token) : (s.receive t).hears = s.hears := by
  funext token
  rw [hears, hears, receive_policy]

/-- A token that is pulled is seen last from then on if the policy shows it, whatever else the
policy does with it. -/
theorem receive_visibleTokens {s : Stream σ} {t : Token} (noEnd : t.isEnd = false) :
    (s.receive t).visibleTokens.map Token.bare =
      s.visibleTokens.map Token.bare ++
        if s.policy.shows t.kind t.channel then [(t.moveTo s.policy.channel).bare] else [] := by
  have shown := s.policy.shows_iff t
  rw [visibleTokens, hears_receive]
  cases verdict : s.policy.judge t with
  | keep channel =>
    rw [verdict, Verdict.keep.injEq] at shown
    have heard : s.hears ((t.moveTo channel).stamp s.size) = (channel == s.policy.channel) := rfl
    rw [receive_of_keep s noEnd verdict, Array.toList_push, List.filter_append, List.map_append,
      List.filter_cons, List.filter_nil, heard]
    by_cases here : channel = s.policy.channel
    · rw [if_pos (shown.2 here), if_pos (beq_iff_eq.2 here), here]
      rfl
    · rw [if_neg (mt shown.1 here), if_neg (mt beq_iff_eq.1 here)]
      rfl
  | dropKind =>
    rw [verdict] at shown
    rw [receive_of_drop s noEnd (by simp [verdict]), if_neg (mt shown.1 Verdict.noConfusion),
      List.append_nil, visibleTokens]
  | dropOffChannel channel =>
    rw [verdict] at shown
    rw [receive_of_drop s noEnd (by simp [verdict]), if_neg (mt shown.1 Verdict.noConfusion),
      List.append_nil, visibleTokens]

theorem ShowSame.receive {s s' : Stream σ} (h : ShowSame s s') (t : Token) :
    ShowSame (s.receive t) (s'.receive t) := by
  refine ⟨by simpa using h.channel, by simpa using h.shows, ?_, ?_⟩
  · cases ends : t.isEnd with
    | true =>
      have stays (u : Stream σ) : (u.receive t).visibleTokens = u.visibleTokens := by
        rw [visibleTokens, visibleTokens, hears_receive, (u.receive_of_isEnd ends).1]
      rw [stays, stays, h.tokens]
    | false =>
      rw [receive_visibleTokens ends, receive_visibleTokens ends, h.tokens, h.shows, h.channel]
  · cases ends : t.isEnd with
    | true =>
      rw [(s.receive_of_isEnd ends).2, (s'.receive_of_isEnd ends).2]
      rfl
    | false => rw [s.receive_endToken ends, s'.receive_endToken ends, h.endToken]

variable [TokenSource σ]

theorem Match.operates {s s' t t' : Stream σ} {i i' : Nat} (h : Match s s' i i')
    (operates : Operates s t) (operates' : Operates s' t') : Match t t' i i' where
  rank := (h.sameRank.within operates.extends.within operates'.extends.within).rank
  settled := operates.extends.settled h.settled
  settled' := operates'.extends.settled h.settled'

theorem match_cursor {s s' t t' : Stream σ} {c c' : Option Nat}
    (h : Option.Rel (Match s s') c c') (operates : Operates s t) (operates' : Operates s' t') :
    Option.Rel (Match t t') c c' := by
  cases h with
  | none => exact .none
  | some same => exact .some (same.operates operates operates')

/-- One pull keeps streams abreast, whether it succeeds or fails. -/
theorem abreast_pull {s s' : Stream σ} (h : Abreast s s') (wet : s.isDry = false) :
    Together (fun _ _ t t' => Abreast t t' ∧ s.Within t ∧ s'.Within t') Abreast
      ((pull : StreamM σ Unit).perform s) ((pull : StreamM σ Unit).perform s') := by
  have wet' : s'.isDry = false := h.isDry ▸ wet
  rcases next : TokenSource.next s.source with ⟨e | token, source⟩
  · have next' : TokenSource.next s'.source = (.error e, source) := h.source ▸ next
    have failed : Operates s (note { s with source } (.failed e)) := .single (.failed wet next)
    have failed' : Operates s' (note { s' with source } (.failed e)) :=
      .single (.failed wet' next')
    rw [perform_pull_error next, perform_pull_error next']
    exact .interrupted {
      toShowSame := ⟨h.channel, h.shows, h.tokens, h.endToken⟩
      source := rfl
      cursor := match_cursor h.cursor failed failed'
      lastMark := h.lastMark.within failed.extends.within failed'.extends.within }
  · have next' : TokenSource.next s'.source = (.ok token, source) := h.source ▸ next
    have pulled : Operates s (receive { s with source } token) :=
      .single (.pulled ⟨wet, perform_pull_ok next⟩)
    have pulled' : Operates s' (receive { s' with source } token) :=
      .single (.pulled ⟨wet', perform_pull_ok next'⟩)
    have before : ShowSame { s with source } { s' with source } :=
      ⟨h.channel, h.shows, h.tokens, h.endToken⟩
    rw [perform_pull_ok next, perform_pull_ok next']
    refine .answered ⟨?_, pulled.extends.within, pulled'.extends.within⟩
    exact {
      toShowSame := before.receive token
      source := by rw [receive_source, receive_source]
      cursor := by
        rw [receive_cursor, receive_cursor]
        exact match_cursor h.cursor pulled pulled'
      lastMark := by
        rw [receive_lastMark, receive_lastMark]
        exact h.lastMark.within pulled.extends.within pulled'.extends.within }

/-! ## Moving cursor and marker -/

theorem Abreast.placed {s s' : Stream σ} (h : Abreast s s') {p p' : Nat} (same : Match s s' p p') :
    Abreast { s with cursor := some p } { s' with cursor := some p' } := by
  have placed : Operates s { s with cursor := some p } := .single (.placed same.settled)
  have placed' : Operates s' { s' with cursor := some p' } := .single (.placed same.settled')
  exact {
    toShowSame := ⟨h.channel, h.shows, h.tokens, h.endToken⟩
    source := h.source
    cursor := .some (same.operates placed placed')
    lastMark := h.lastMark.within placed.extends.within placed'.extends.within }

theorem Abreast.marked {s s' : Stream σ} (h : Abreast s s') {p p' : Nat}
    (here : s.cursor = some p) (here' : s'.cursor = some p') (same : Match s s' p p') :
    Abreast { s with lastMark := p } { s' with lastMark := p' } := by
  have marked : Operates s { s with lastMark := p } := .single (.marked here)
  have marked' : Operates s' { s' with lastMark := p' } := .single (.marked here')
  exact {
    toShowSame := ⟨h.channel, h.shows, h.tokens, h.endToken⟩
    source := h.source
    cursor := match_cursor h.cursor marked marked'
    lastMark := same.sameRank.within marked.extends.within marked'.extends.within }

/-! ## Searches -/

/-- What searches come back with: slots that correspond. -/
abbrev Found (i i' : Nat) (s s' : Stream σ) : Prop := Abreast s s' ∧ Match s s' i i'

/-- What is in tokens that are the same but for the slots they are in. -/
abbrev FoundToken (t t' : Option Token) (s s' : Stream σ) : Prop :=
  t.map Token.bare = t'.map Token.bare ∧ Abreast s s'

variable {limit more : Nat} (le : limit ≤ more)

include le

/-- Searches from slots that correspond find slots that correspond. -/
theorem keepsUp_nextVisible (i i' : Nat) :
    KeepsUp (fun s s' => Abreast s s' ∧ SameRank s s' i i') Found Abreast
      (nextVisible limit i : StreamM σ Nat) (nextVisible more i') := by
  have step {s s' : Stream σ} (h : Abreast s s' ∧ SameRank s s' i i') (wet : s.isDry = false) :
      Together (fun _ _ t t' => Abreast t t' ∧ SameRank t t' i i') Abreast
        ((pull : StreamM σ Unit).perform s) ((pull : StreamM σ Unit).perform s') :=
    (abreast_pull h.1 wet).imp fun pulled => ⟨pulled.1, h.2.within pulled.2.1 pulled.2.2⟩
  have loop := keepsUp_pullUntil (fun h => h.1.isDry) (fun h => h.1.sees h.2) step (fun h => h.1) le
  have searched : KeepsUp (fun s s' => Abreast s s' ∧ SameRank s s' i i') Found Abreast
      (search (sees i) (target i) limit : StreamM σ Nat) (search (sees i') (target i') more) := by
    apply keepsUp_bind loop
    intro _ _
    apply Lockstep.keepsUp
    apply lockstep_read
    intro t t' h
    obtain ⟨⟨abreast, same⟩, stops⟩ := h
    have stops' : (t'.isDry || sees i' t') = true := by
      rw [← abreast.isDry, ← abreast.sees same, stops]
    refine ⟨abreast, ?_, settled_target stops, settled_target stops'⟩
    rw [rank_target same.le_size, rank_target same.le_size', same.rank]
  intro s s' h inTime
  rw [InTime, perform_nextVisible] at inTime
  rw [perform_nextVisible, perform_nextVisible]
  exact searched h inTime

theorem keepsUp_seek (i i' : Nat) :
    KeepsUp (fun s s' => Abreast s s' ∧ SameRank s s' i i') (fun _ _ => Abreast) Abreast
      (seek limit i : StreamM σ Unit) (seek more i') := by
  apply keepsUp_bind (keepsUp_nextVisible le i i')
  intro p p'
  apply Lockstep.keepsUp
  apply lockstep_modify
  intro s s' h
  obtain ⟨abreast, same⟩ := h
  exact abreast.placed same

/-! ## Operations with the cursor -/

/-- After positioning, both cursors are set, and to slots that correspond. -/
theorem keepsUp_position :
    KeepsUp Abreast (fun p p' s s' => Found p p' s s' ∧ s.cursor = some p ∧ s'.cursor = some p')
      Abreast (position limit : StreamM σ Nat) (position more) := by
  intro s s' h inTime
  have cursor := h.cursor
  rcases placed : s.cursor with _ | p
  · rcases placed' : s'.cursor with _ | p'
    · rw [InTime, perform_position_of_none placed] at inTime
      rw [perform_position_of_none placed, perform_position_of_none placed']
      have settle : KeepsUp (fun s s' => Abreast s s' ∧ SameRank s s' 0 0)
          (fun p p' s s' => Found p p' s s' ∧ s.cursor = some p ∧ s'.cursor = some p') Abreast
          (nextVisible limit 0 >>= fun p => place p >>= fun _ => pure p : StreamM σ Nat)
          (nextVisible more 0 >>= fun p => place p >>= fun _ => pure p) := by
        apply keepsUp_bind (keepsUp_nextVisible le 0 0)
        intro p p' s s' h _
        obtain ⟨abreast, same⟩ := h
        have moved : Operates s { s with cursor := some p } := .single (.placed same.settled)
        have moved' : Operates s' { s' with cursor := some p' } := .single (.placed same.settled')
        exact .answered ⟨⟨abreast.placed same, same.operates moved moved'⟩, rfl, rfl⟩
      exact settle ⟨h, sameRank_zero s s'⟩ inTime
    · rw [placed, placed'] at cursor
      cases cursor
  · rcases placed' : s'.cursor with _ | p'
    · rw [placed, placed'] at cursor
      cases cursor
    · rw [perform_position_of_some placed, perform_position_of_some placed']
      rw [placed, placed'] at cursor
      cases cursor with
      | some same => exact .answered ⟨⟨h, same⟩, placed, placed'⟩

theorem keepsUp_consume :
    KeepsUp Abreast (fun _ _ => Abreast) Abreast (consume limit : StreamM σ Unit)
      (consume more) := by
  apply keepsUp_bind (keepsUp_position le)
  intro p p'
  apply keepsUp_get
  intro s s' u u' h inTime
  obtain ⟨rfl, rfl, ⟨abreast, same⟩, -, -⟩ := h
  have both := abreast.lt_size_iff same
  by_cases below : p < u.size
  · rw [InTime, if_pos below] at inTime
    rw [if_pos below, if_pos (both.1 below)]
    exact keepsUp_seek le (p + 1) (p' + 1) ⟨abreast, same.succ below (both.1 below)⟩ inTime
  · rw [if_neg below, if_neg (mt both.2 below)]
    exact .answered abreast

theorem keepsUp_mark :
    KeepsUp Abreast (fun p p' s s' => Abreast s s' ∧ SameRank s s' p p') Abreast
      (mark limit : StreamM σ Nat) (mark more) := by
  apply keepsUp_bind (keepsUp_position le)
  intro p p' s s' h _
  obtain ⟨⟨abreast, same⟩, placed, placed'⟩ := h
  have marked : s.Within { s with lastMark := p } := ⟨rfl, List.prefix_refl _⟩
  have marked' : s'.Within { s' with lastMark := p' } := ⟨rfl, List.prefix_refl _⟩
  exact .answered ⟨abreast.marked placed placed' same, same.sameRank.within marked marked'⟩

theorem keepsUp_rewindToMark :
    KeepsUp Abreast (fun _ _ => Abreast) Abreast (rewindToMark limit : StreamM σ Unit)
      (rewindToMark more) := by
  apply keepsUp_get
  intro s s' u u' h
  obtain ⟨rfl, rfl, abreast⟩ := h
  exact keepsUp_seek le u.lastMark u'.lastMark ⟨abreast, abreast.lastMark⟩

/-- Steps ahead from slots that correspond lead to slots that correspond. -/
theorem keepsUp_stepsAhead (k i i' : Nat) :
    KeepsUp (Found i i') Found Abreast (stepsAhead limit k i : StreamM σ Nat)
      (stepsAhead more k i') := by
  induction k generalizing i i' with
  | zero => exact (lockstep_pure fun found => found).keepsUp
  | succ k ih =>
    intro s s' h inTime
    obtain ⟨abreast, same⟩ := h
    have both := abreast.lt_size_iff same
    by_cases below : i < s.size
    · rw [InTime, perform_stepsAhead_of_lt below] at inTime
      rw [perform_stepsAhead_of_lt below, perform_stepsAhead_of_lt (both.1 below)]
      have further := keepsUp_bind (keepsUp_nextVisible (σ := σ) le (i + 1) (i' + 1)) ih
      exact further ⟨abreast, same.succ below (both.1 below)⟩ inTime
    · rw [perform_stepsAhead_of_not_lt below, perform_stepsAhead_of_not_lt (mt both.2 below)]
      exact .answered ⟨abreast, same⟩

theorem keepsUp_lookahead (k : Int) :
    KeepsUp Abreast FoundToken Abreast (lookahead limit k : StreamM σ (Option Token))
      (lookahead more k) := by
  match k with
  | .ofNat 0 => exact (lockstep_pure fun abreast => ⟨rfl, abreast⟩).keepsUp
  | .ofNat (k + 1) =>
    apply keepsUp_bind (keepsUp_position le)
    intro p p'
    apply keepsUp_bind (KeepsUp.weaken (keepsUp_stepsAhead le k p p') And.left)
    intro i i'
    apply Lockstep.keepsUp
    apply lockstep_read
    intro s s' h
    obtain ⟨abreast, same⟩ := h
    exact ⟨abreast.read same, abreast⟩
  | .negSucc k =>
    apply keepsUp_bind (keepsUp_position le)
    intro p p'
    apply Lockstep.keepsUp
    apply lockstep_read
    intro s s' h
    obtain ⟨⟨abreast, same⟩, -⟩ := h
    exact ⟨abreast.readBack same k, abreast⟩

theorem keepsUp_peekKind (k : Int) :
    KeepsUp Abreast (Same Abreast) Abreast (peekKind limit k : StreamM σ Kind)
      (peekKind more k) := by
  apply keepsUp_bind_pure (keepsUp_lookahead le k)
  intro found found' s s' h
  obtain ⟨same, abreast⟩ := h
  have read (t : Option Token) :
      t.elim .absent Token.kind = (t.map Token.bare).elim .absent Token.kind := by
    cases t <;> rfl
  exact ⟨by rw [read, same, ← read], abreast⟩

theorem keepsUp_isAtEnd :
    KeepsUp Abreast (Same Abreast) Abreast (isAtEnd limit : StreamM σ Bool) (isAtEnd more) := by
  apply keepsUp_bind_pure (keepsUp_lookahead le 1)
  intro found found' s s' h
  obtain ⟨same, abreast⟩ := h
  have read (t : Option Token) :
      t.elim true Token.isEnd = (t.map Token.bare).elim true Token.isEnd := by
    cases t <;> rfl
  exact ⟨by rw [read, same, ← read], abreast⟩

/-- Draining finds the same texts. The second stream may be given a higher count to give up at. -/
theorem keepsUp_drainTexts {count count' : Nat} (enough : count ≤ count') :
    KeepsUp Abreast (Same Abreast) Abreast
      (drainTexts limit count : StreamM σ (List String)) (drainTexts more count') := by
  induction count generalizing count' with
  | zero =>
    intro s s' _ inTime
    exact absurd rfl inTime
  | succ count ih =>
    obtain ⟨count', rfl⟩ : ∃ n, count' = n + 1 := Nat.exists_eq_succ_of_ne_zero (by omega)
    apply keepsUp_bind (keepsUp_lookahead le 1)
    intro found found' s s' h inTime
    obtain ⟨same, abreast⟩ := h
    cases found with
    | none =>
      cases found' with
      | none => exact .answered ⟨rfl, abreast⟩
      | some _ => cases same
    | some token =>
      cases found' with
      | none => cases same
      | some token' =>
        have bare : token.bare = token'.bare := Option.some.inj same
        have ends : token.isEnd = token'.isEnd := Token.isEnd_eq_of_bare bare
        dsimp only at inTime ⊢
        cases going : token.isEnd with
        | true =>
          rw [if_pos rfl, if_pos (ends ▸ going)]
          exact .answered ⟨rfl, abreast⟩
        | false =>
          rw [going, if_neg Bool.false_ne_true] at inTime
          rw [← ends, going, if_neg Bool.false_ne_true, if_neg Bool.false_ne_true]
          have text : token.text = token'.text := Token.text_eq_of_bare bare
          have later := ih (Nat.le_of_succ_le_succ enough)
          have rest : KeepsUp Abreast (Same Abreast) Abreast
              (consume limit >>= fun _ => drainTexts limit count >>= fun texts =>
                pure (token.text :: texts) : StreamM σ (List String))
              (consume more >>= fun _ => drainTexts more count' >>= fun texts =>
                pure (token'.text :: texts)) := by
            apply keepsUp_bind (keepsUp_consume le)
            intro _ _
            apply keepsUp_bind_pure later
            intro texts texts' s s' h
            exact ⟨by rw [text, h.1], h.2⟩
          exact rest abreast inTime

/-- Draining is allowed as many pulls more as there are tokens buffered in the first stream. -/
theorem keepsUp_drain :
    KeepsUp (fun s s' => Abreast s s' ∧ limit + s.size ≤ more) (Same Abreast) Abreast
      (drain limit : StreamM σ (List String)) (drain more) := by
  apply keepsUp_get
  intro s s' u u' h
  obtain ⟨rfl, rfl, abreast, enough⟩ := h
  have higher : u.size + limit + 1 ≤ u'.size + more + 1 := by omega
  exact keepsUp_drainTexts le higher abreast

end Stream

end Lookahead
