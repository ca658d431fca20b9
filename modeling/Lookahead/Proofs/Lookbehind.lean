import Lookahead.Proofs.Consumption
import Lookahead.Proofs.Rank

/-!
# Looking behind

The cursor divides the visible tokens into those before it and those from it on. How many there are
before it (`passed`) tells all that looking ahead and behind comes to: `lookahead` with `k > 0`
gives the visible token of rank `passed + k - 1`, or the end-of-stream token if there is none, and
with `-k` the one of rank `passed - k`, or nothing. Looking keeps that number, and consuming a token
raises it by one until the end is reached.

`Shows s i a` says that `a` is what there is to see at rank `i`, whatever pulls that takes. It does
not depend on the pulls that were made before (`Shows.unique`), so what was ahead of the cursor
is behind it once it has been consumed (`lookbehind_of_consumes`).
-/

namespace Lookahead.Stream

open Relation

variable {σ : Type}

/-! ## Visible tokens by rank -/

/-- The number of visible tokens before the cursor. -/
def passed (s : Stream σ) : Nat := s.rank s.index

theorem passed_eq {s : Stream σ} {p : Nat} (placed : s.cursor = some p) :
    s.passed = s.rank p := by
  rw [passed, index_of_some placed]

/-- Whether there is a visible token of rank `i`. -/
def reaches (i : Nat) (s : Stream σ) : Bool := i < s.visibleTokens.length

/-- The visible token of rank `i`, or the end-of-stream token. -/
def tokenAt (i : Nat) (s : Stream σ) : Option Token := s.visibleTokens[i]? <|> s.endToken

theorem reaches_of_lt {i : Nat} {s : Stream σ} (h : i < s.visibleTokens.length) :
    (s.isDry || reaches i s) = true := by
  rw [reaches, decide_eq_true h, Bool.or_true]

variable [TokenSource σ]

/-! ## What there is to see -/

/-- Stream `s` becomes `t` by pulls, but for the cursor. -/
abbrev Drawn (s t : Stream σ) : Prop := Pulls s.unplaced t.unplaced

theorem Pulls.drawn {s t : Stream σ} (pulls : Pulls s t) : Drawn s t :=
  pulls.map fun step => step.setCursor none

theorem steady_tokenAt (i : Nat) : Steady (σ := σ) (reaches i) (tokenAt i) where
  ready_step := by
    intro s t step ready
    have most := step.within.visibleTokens_prefix.length_le
    have below : i < s.visibleTokens.length := of_decide_eq_true ready
    exact decide_eq_true (by omega)
  read_step := by
    intro s t step ready
    have below : i < s.visibleTokens.length := of_decide_eq_true ready
    obtain ⟨rest, grown⟩ := step.within.visibleTokens_prefix
    rw [tokenAt, tokenAt, ← grown, List.getElem?_append_left below,
      List.getElem?_eq_getElem below]
    rfl

/-- From `s` on, whatever pulls it takes, there is `a` to see at rank `i`. -/
def Shows (s : Stream σ) (i : Nat) (a : Option Token) : Prop :=
  ∃ t, Drawn s t ∧ (t.isDry || reaches i t) = true ∧ a = tokenAt i t

namespace Shows

variable {s t : Stream σ} {i : Nat} {a b : Option Token}

theorem of_drawn (drawn : Drawn s t) (h : Shows t i a) : Shows s i a := by
  obtain ⟨u, drawn', there, same⟩ := h
  exact ⟨u, drawn.trans drawn', there, same⟩

/-- There is one thing to see at a rank. -/
theorem unique (h : Shows s i a) (h' : Shows s i b) : a = b := by
  obtain ⟨t, drawn, there, rfl⟩ := h
  obtain ⟨t', drawn', there', rfl⟩ := h'
  rcases Pulls.total drawn drawn' with later | later
  · exact ((steady_tokenAt i).read_pulls later there).2.symm
  · exact ((steady_tokenAt i).read_pulls later there').2

end Shows

/-- What is in a settled slot is what there is to see at its rank. -/
theorem Settled.shows {s t : Stream σ} {i : Nat} (settled : t.Settled i) (drawn : Drawn s t) :
    Shows s (t.rank i) (t.buffer[i]? <|> t.endToken) := by
  refine ⟨t, drawn, ?_, by rw [settled.getElem?_eq, tokenAt]⟩
  rcases settled with visible | ⟨-, dry⟩
  · exact reaches_of_lt (rank_lt_of_isVisible visible)
  · rw [dry, Bool.true_or]

/-- Beyond the visible tokens of a dry stream there is the end-of-stream token to see. -/
theorem shows_endToken {s : Stream σ} {i : Nat} (dry : s.isDry = true)
    (beyond : s.visibleTokens.length ≤ i) : Shows s i s.endToken := by
  refine ⟨s, .refl, by rw [dry, Bool.true_or], ?_⟩
  rw [tokenAt, List.getElem?_eq_none beyond]
  rfl

/-! ## The cursor's rank -/

section

variable {s t : Stream σ} {limit : Nat}

/-- Positioning the cursor leaves as many tokens before it as there were: none if it was unset. -/
theorem position_passed {p : Nat} (h : (position limit).perform s = (.ok p, t)) :
    Drawn s t ∧ t.passed = s.passed ∧ t.rank p = s.passed := by
  obtain ⟨placed, rfl | ⟨unset, u, search, rfl⟩⟩ := position_ok h
  · exact ⟨.refl, rfl, (passed_eq placed).symm⟩
  · obtain ⟨pulls, rfl, -⟩ := nextVisible_ok search
    have zero : s.passed = 0 := by rw [passed, index_of_none unset, rank_zero]
    have first : u.rank (target 0 u) = 0 := by rw [rank_target (Nat.zero_le _), rank_zero]
    refine ⟨pulls.drawn, ?_, first.trans zero.symm⟩
    rw [passed_eq placed, zero]
    exact first

/-- Looking at tokens makes pulls only, and leaves as many tokens before the cursor as there
were. -/
theorem lookahead_passed {k : Int} {a : Option Token} (sound : s.CursorSettled)
    (h : (lookahead limit k).perform s = (.ok a, t)) : Drawn s t ∧ t.passed = s.passed := by
  match k with
  | .ofNat 0 =>
    cases h
    exact ⟨.refl, rfl⟩
  | .ofNat (k + 1) =>
    rcases StreamM.perform_bind_ok h with ⟨p, u, positioned, h⟩
    rcases StreamM.perform_bind_ok h with ⟨i, v, stepped, h⟩
    cases h
    obtain ⟨drawn, passed, -⟩ := position_passed positioned
    have settled := settled_of_position sound positioned
    have placed := (position_ok positioned).1
    obtain ⟨pulls, -, -⟩ := stepsAhead_ok settled stepped
    refine ⟨drawn.trans pulls.drawn, ?_⟩
    rw [passed_eq (pulls.cursor.trans placed), pulls.within.rank_eq settled.le_size,
      ← passed_eq placed, passed]
  | .negSucc k =>
    rcases StreamM.perform_bind_ok h with ⟨p, u, positioned, h⟩
    cases h
    obtain ⟨drawn, passed, -⟩ := position_passed positioned
    exact ⟨drawn, passed⟩

/-- Consuming a token takes the cursor past it, unless the end is reached. -/
theorem consume_passed {a : Unit} (sound : s.CursorSettled)
    (h : (consume limit).perform s = (.ok a, t)) :
    Drawn s t ∧ (t.passed = s.passed + 1 ∨
      t.isDry = true ∧ t.passed = s.passed ∧ t.visibleTokens.length = s.passed) := by
  rcases StreamM.perform_bind_ok h with ⟨p, u, positioned, -⟩
  obtain ⟨drawn, passed, rank⟩ := position_passed positioned
  have placed := (position_ok positioned).1
  have settled := settled_of_position sound positioned
  rw [perform_position_consume, StreamM.perform_bind_of_ok positioned] at h
  by_cases below : p < u.size
  · rw [perform_consume_of_lt placed below] at h
    rcases StreamM.perform_bind_ok h with ⟨j, v, search, h⟩
    cases h
    obtain ⟨pulls, rfl, -⟩ := nextVisible_ok search
    have inside : p + 1 ≤ v.size := Nat.lt_of_lt_of_le below pulls.within.size_le
    refine ⟨drawn.trans pulls.drawn, Or.inl ?_⟩
    calc v.rank (target (p + 1) v) = v.rank (p + 1) := rank_target inside
      _ = u.rank (p + 1) := pulls.within.rank_eq below
      _ = u.rank p + 1 := rank_succ_of_isVisible (settled.isVisible below)
      _ = s.passed + 1 := by rw [rank]
  · rw [perform_consume_of_not_lt placed below] at h
    cases h
    obtain ⟨rfl, dry⟩ := settled.isDry below
    exact ⟨drawn, Or.inr ⟨dry, passed, by rw [← rank, rank_size]⟩⟩

/-- A dry stream has no more tokens to see after further pulls. -/
theorem Drawn.visibleTokens_eq (drawn : Drawn s t) (dry : s.isDry = true) :
    t.isDry = true ∧ t.visibleTokens = s.visibleTokens := by
  have same : t.unplaced = s.unplaced := drawn.eq_of_isDry dry
  have visible : t.unplaced.visibleTokens = s.unplaced.visibleTokens := by rw [same]
  have dry' : t.unplaced.isDry = s.unplaced.isDry := by rw [same]
  exact ⟨dry'.trans dry, visible⟩

/-- Consuming `n` tokens takes the cursor past them, unless the end is reached before. -/
theorem consumes_passed {n : Nat} (sound : s.Sound)
    (h : (consumes limit n).perform s = (.ok (), t)) :
    t.Sound ∧ Drawn s t ∧ (t.passed = s.passed + n ∨
      t.isDry = true ∧ t.visibleTokens.length = t.passed ∧ t.passed < s.passed + n) := by
  induction n generalizing s with
  | zero =>
    cases h
    exact ⟨sound, .refl, Or.inl rfl⟩
  | succ n ih =>
    rcases StreamM.perform_bind_ok h with ⟨_, u, consumed, h⟩
    obtain ⟨drawn, stood⟩ := consume_passed sound.cursor consumed
    have kept := (operates_consume limit s).sound_of_perform consumed sound
    obtain ⟨sound', drawn', stood'⟩ := ih kept h
    refine ⟨sound', drawn.trans drawn', ?_⟩
    rcases stood with further | ⟨dry, same, length⟩
    · rcases stood' with further' | ⟨dry, length, less⟩
      · exact Or.inl (by omega)
      · exact Or.inr ⟨dry, length, by omega⟩
    · obtain ⟨dry', visible⟩ := drawn'.visibleTokens_eq dry
      have most : t.passed ≤ t.visibleTokens.length := t.rank_le_length _
      rw [visible] at most stood' ⊢
      refine Or.inr ⟨dry', ?_⟩
      rcases stood' with further' | ⟨-, length', -⟩
      · exact ⟨by omega, by omega⟩
      · exact ⟨length', by omega⟩

/-! ## Looking ahead and behind by ranks -/

theorem lookahead_one_shows {a : Option Token} (sound : s.CursorSettled)
    (h : (lookahead limit (0 + 1 : Nat)).perform s = (.ok a, t)) : Shows s s.passed a := by
  rw [perform_lookahead] at h
  rcases StreamM.perform_bind_ok h with ⟨p, u, positioned, h⟩
  cases h
  obtain ⟨drawn, -, rank⟩ := position_passed positioned
  rw [← rank]
  exact (settled_of_position sound positioned).shows drawn

/-- Looking `k + 1` tokens ahead finds what there is to see `k` ranks above the cursor. -/
theorem lookahead_shows {k : Nat} {a : Option Token} (sound : s.Sound)
    (h : (lookahead limit (k + 1 : Nat)).perform s = (.ok a, t)) : Shows s (s.passed + k) a := by
  -- it comes to the same as to consume `k` tokens and to look at the next one
  have ended := together_consumes_lookahead limit k 0 s
  rw [Nat.add_zero, h] at ended
  rcases consumed : (consumes limit k >>= fun _ => lookahead limit (0 + 1 : Nat)).perform s with
    ⟨i | b, v⟩
  · rw [consumed] at ended
    cases ended
  · rw [consumed] at ended
    obtain ⟨same, -⟩ := ended.same
    cases same
    rcases StreamM.perform_bind_ok consumed with ⟨_, u, consumed, looked⟩
    obtain ⟨sound', drawn, stood⟩ := consumes_passed sound consumed
    have next := lookahead_one_shows sound'.cursor looked
    rcases stood with further | ⟨dry, length, less⟩
    · rw [← further]
      exact next.of_drawn drawn
    · rw [next.unique (shows_endToken dry (Nat.le_of_eq length))]
      exact (shows_endToken dry (by omega)).of_drawn drawn

/-- Looking `k + 1` tokens behind finds what there is to see so many ranks below the cursor, which
is never the end-of-stream token, or nothing if there are not so many. -/
theorem lookbehind_shows {k : Nat} {a : Option Token} (sound : s.Sound)
    (h : (lookahead limit (.negSucc k)).perform s = (.ok a, t)) :
    (k < s.passed ∧ Shows s (s.passed - (k + 1)) a ∧ ∃ e, a = some e ∧ e.isEnd = false) ∨
      s.passed ≤ k ∧ a = none := by
  have after := (operates_lookahead limit (.negSucc k) s).sound_of_perform h sound
  rcases StreamM.perform_bind_ok h with ⟨p, u, positioned, h⟩
  cases h
  obtain ⟨drawn, -, rank⟩ := position_passed positioned
  rw [stepsBack?_rank, rank]
  by_cases back : k < s.passed
  · have most : t.rank p ≤ t.visibleTokens.length := t.rank_le_length p
    have below : s.passed - (k + 1) < t.visibleTokens.length := by omega
    have held := List.getElem?_eq_getElem below
    rw [if_pos back, held]
    refine Or.inl ⟨back, ⟨t, drawn, reaches_of_lt below, by rw [tokenAt, held]; rfl⟩, _, rfl, ?_⟩
    have member : t.visibleTokens[s.passed - (k + 1)] ∈ t.visibleTokens := List.getElem_mem below
    exact after.buffered _ (Array.mem_toList_iff.1 (List.mem_filter.1 member).1)
  · rw [if_neg back]
    exact Or.inr ⟨Nat.le_of_not_lt back, rfl⟩

/-! ## Looking before and after consuming -/

/-- What a stream becomes when one looks ahead or behind with success, any number of times. -/
abbrev Peeks : Stream σ → Stream σ → Prop :=
  ReflTransGen fun s t => ∃ limit k a, (lookahead limit k).perform s = (.ok a, t)

/-- Looking at distance `k` gives `a`, at once or after one has looked elsewhere. -/
def Gives (s : Stream σ) (k : Int) (a : Option Token) : Prop :=
  ∃ limit t u, Peeks s t ∧ (lookahead limit k).perform t = (.ok a, u)

theorem Peeks.passed (peeks : Peeks s t) (sound : s.Sound) :
    t.Sound ∧ Drawn s t ∧ t.passed = s.passed := by
  induction peeks with
  | refl => exact ⟨sound, .refl, rfl⟩
  | @tail u v _ looked ih =>
    obtain ⟨sound', drawn, passed⟩ := ih
    obtain ⟨limit, k, a, looked⟩ := looked
    obtain ⟨drawn', passed'⟩ := lookahead_passed sound'.cursor looked
    have after := (operates_lookahead limit k u).sound_of_perform looked sound'
    exact ⟨after, drawn.trans drawn', passed'.trans passed⟩

namespace Gives

variable {k : Nat} {a : Option Token}

theorem shows (h : Gives s (k + 1 : Nat) a) (sound : s.Sound) : Shows s (s.passed + k) a := by
  obtain ⟨limit, t, u, peeks, looked⟩ := h
  obtain ⟨sound', drawn, passed⟩ := peeks.passed sound
  have found := lookahead_shows sound' looked
  rw [passed] at found
  exact found.of_drawn drawn

theorem behind (h : Gives s (.negSucc k) a) (sound : s.Sound) :
    k < s.passed ∧ Shows s (s.passed - (k + 1)) a ∨ s.passed ≤ k ∧ a = none := by
  obtain ⟨limit, t, u, peeks, looked⟩ := h
  obtain ⟨sound', drawn, passed⟩ := peeks.passed sound
  rcases lookbehind_shows sound' looked with ⟨back, found, -⟩ | nothing
  · rw [passed] at back found
    exact Or.inl ⟨back, found.of_drawn drawn⟩
  · rw [passed] at nothing
    exact Or.inr nothing

end Gives

/-- Consuming `n` tokens takes the cursor past all of them if the last is not the end-of-stream
token. -/
theorem passed_of_consumes {n : Nat} {u v : Stream σ} (sound : s.Sound) (peeks : Peeks s u)
    (consumed : (consumes limit n).perform u = (.ok (), v))
    (going : n = 0 ∨ ∃ e : Token, Gives s n (some e) ∧ e.isEnd = false) :
    v.Sound ∧ Drawn s v ∧ v.passed = s.passed + n := by
  obtain ⟨sound', drawn, passed⟩ := peeks.passed sound
  cases n with
  | zero =>
    cases consumed
    exact ⟨sound', drawn, passed⟩
  | succ n =>
    obtain ⟨sound'', drawn', stood⟩ := consumes_passed sound' consumed
    refine ⟨sound'', drawn.trans drawn', ?_⟩
    rw [passed] at stood
    rcases stood with further | ⟨dry, length, less⟩
    · exact further
    · obtain ⟨e, given, noEnd⟩ := going.resolve_left (Nat.succ_ne_zero n)
      have ended : Shows s (s.passed + n) v.endToken :=
        (shows_endToken dry (by omega)).of_drawn (drawn.trans drawn')
      have isEnd := sound''.ended e ((given.shows sound).unique ended).symm
      rw [noEnd] at isEnd
      cases isEnd

end

/-- Looking ahead, consuming and looking behind agree. To consume tokens and then look ahead has the
result and makes the pulls of looking so much further ahead at once. After `n` tokens have been
consumed, the last of them not being the end-of-stream token, looking behind gives what looking
ahead gave before, and beyond that what looking behind gave before. It never gives the end-of-stream
token, and gives nothing exactly if there are not so many visible tokens before the cursor. -/
theorem lookbehind_of_consumes {s : Stream (Metered σ)} (h : Reachable s) :
    (∀ (limit n : Nat) (k : Int), 0 < k →
      let stepwise := (consumes limit n >>= fun _ => lookahead limit k).perform s
      let atOnce := (lookahead limit (n + k)).perform s
      stepwise.1 = atOnce.1 ∧ stepwise.2.source.pulls = atOnce.2.source.pulls ∧
        stepwise.2.unplaced = atOnce.2.unplaced) ∧
    (∀ (limit n : Nat) (u v : Stream (Metered σ)), Peeks s u →
      (consumes limit n).perform u = (.ok (), v) →
      (n = 0 ∨ ∃ e : Token, Gives s n (some e) ∧ e.isEnd = false) →
      ∀ (j : Int) (a : Option Token), 0 < j → Gives v (-j) a →
        (j ≤ n → ∀ b, Gives s (n - j + 1) b → a = b) ∧
        (n < j → ∀ b, Gives s (-(j - n)) b → a = b)) ∧
    ∀ (limit : Nat) (j : Int) (a : Option Token) (t : Stream (Metered σ)), 0 < j →
      (lookahead limit (-j)).perform s = (.ok a, t) →
      (∀ e, a = some e → e.isEnd = false) ∧ (a = none ↔ s.passed < j) := by
  have sound := h.sound
  refine ⟨?_, ?_, ?_⟩
  · intro limit n k positive stepwise atOnce
    obtain ⟨k, rfl⟩ := Int.eq_succ_of_zero_lt positive
    obtain ⟨result, same⟩ := (together_consumes_lookahead limit n k s).same
    exact ⟨result, congrArg Metered.pulls same.source, same⟩
  · intro limit n u v peeks consumed going j a positive given
    obtain ⟨j, rfl⟩ := Int.eq_succ_of_zero_lt positive
    obtain ⟨sound', drawn, passed⟩ := passed_of_consumes sound peeks consumed going
    have found := Gives.behind (k := j) given sound'
    rw [passed] at found
    constructor
    · intro le b before
      have distance : (n : Int) - (j + 1) + 1 = ((n - (j + 1)) + 1 : Nat) := by omega
      rw [distance] at before
      have seen := before.shows sound
      rcases found with ⟨-, found⟩ | ⟨less, -⟩
      · have same : s.passed + n - (j + 1) = s.passed + (n - (j + 1)) := by omega
        rw [same] at found
        exact (found.of_drawn drawn).unique seen
      · omega
    · intro lt b before
      have distance : -((j : Int) + 1 - n) = .negSucc (j - n) := by omega
      rw [distance] at before
      rcases found with ⟨back, found⟩ | ⟨less, rfl⟩
      · rcases before.behind sound with ⟨back', seen⟩ | ⟨less', -⟩
        · have same : s.passed + n - (j + 1) = s.passed - (j - n + 1) := by omega
          rw [same] at found
          exact (found.of_drawn drawn).unique seen
        · omega
      · rcases before.behind sound with ⟨back', -⟩ | ⟨-, rfl⟩
        · omega
        · rfl
  · intro limit j a t positive looked
    obtain ⟨j, rfl⟩ := Int.eq_succ_of_zero_lt positive
    rcases lookbehind_shows (k := j) sound looked with ⟨back, -, e, rfl, noEnd⟩ | ⟨less, rfl⟩
    · refine ⟨fun e' same => ?_, ?_⟩
      · cases same
        exact noEnd
      · exact iff_of_false nofun (by omega)
    · exact ⟨nofun, iff_of_true rfl (by omega)⟩

/-- Two words behind a blank on the hidden channel, both consumed: the second of them is what was
two tokens ahead before. -/
theorem lookbehind_of_consumes_two :
    let blank := Token.onChannel 5 .hidden " " .unplaced
    let word := fun text => Token.plain 7 text .unplaced
    let source := ListedSource.ofList [blank, word "a", word "b", .endOfStream .unplaced]
    let s := start .standard (Metered.fresh source)
    let v := ((consumes 4 2).perform s).2
    let second := some ((word "b").stamp 2)
    Reachable s ∧ (consumes 4 2).perform s = (.ok (), v) ∧ Gives s 2 second ∧
      Gives v (-1) second ∧ ∀ b, Gives s (2 - 1 + 1) b → second = b := by
  intro blank word source s v second
  have reachable : Reachable s := .start .standard (Metered.fresh source)
  have consumed : ((consumes 4 2).perform s).1 = .ok () := by decide +kernel
  have consumed : (consumes 4 2).perform s = (.ok (), v) := by rw [← consumed]
  have ahead : ((lookahead 4 2).perform s).1 = .ok second := by decide +kernel
  have behind : ((lookahead 4 (-1)).perform v).1 = .ok second := by decide +kernel
  have ahead : Gives s 2 second := ⟨4, s, _, .refl, by rw [← ahead]⟩
  have behind : Gives v (-1) second := ⟨4, v, _, .refl, by rw [← behind]⟩
  refine ⟨reachable, consumed, ahead, behind, ?_⟩
  exact ((lookbehind_of_consumes reachable).2.1 4 2 s v .refl consumed
    (Or.inr ⟨_, ahead, rfl⟩) 1 second (by decide) behind).1 (by decide)

end Lookahead.Stream
