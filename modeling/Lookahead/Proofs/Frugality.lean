import Lookahead.Proofs.Failure
import Lookahead.Proofs.Permanence
import Lookahead.Proofs.Replacement

/-!
# The last pull

A stream never reads further than it has to. Every loop stops as soon as its test holds, and that is
when the token that was waited for has been put in the buffer, so the last pull gave that token
unless it failed or gave the end-of-stream token (`fetched_pullUntil`). This is kept when one search
follows another: if the second one takes no pull, both have come to the same slot (`Fetched.trans`).
What each command waits for is said by `Awaits`, and `last_pull_of_exec` says that it is what its
last pull gave.
-/

namespace Lookahead

/-- Whether a command is carried out without a pull, if so many tokens are buffered. -/
def Command.needsNoPull {σ : Type} (size : Nat) : Command σ → Bool
  | .get i | .display i => i < size
  | .lookahead k | .peekKind k => k == 0
  | .range first last | .rangeInSet first last _ | .rangeOfKinds first last _
  | .rangeOfKind first last _ | .textRange first last => last < first || last < size
  | .textBetween first last =>
    match first.index, last.index with
    | some i, some j => j < i || j < size
    | _, _ => true
  | .release _ | .sourceName | .channel | .routeOf _ | .dropsOffChannel | .isDiscarded _
  | .discard _ | .reroute _ _ | .dropOffChannel _ => true
  | _ => false

/-- A token that is kept is kept on the channel that its kind is rerouted to. -/
theorem Policy.eq_route_of_keep {p : Policy} {t : Token} {channel : Channel}
    (h : p.judge t = .keep channel) : channel = p.route t := by
  unfold Policy.judge at h
  split at h
  · cases h
  · split at h
    · cases h
    · cases h
      rfl

namespace Stream

open TokenSource

variable {σ : Type} [TokenSource σ]

/-! ## The last pull of a run -/

/-- The pulls that have led from `s` to `t` are one at least, and the last of them gave `r`. -/
def LastPull (s t : Stream σ) (r : Pulled) : Prop :=
  ∃ n, t.source = after s.source (n + 1) ∧ (next (after s.source n)).1 = r

theorem LastPull.of_next {s t u : Stream σ} {r : Pulled} {source : σ}
    (reached : ∃ n, u.source = after s.source n) (given : next u.source = (r, source))
    (left : t.source = source) : LastPull s t r := by
  obtain ⟨n, reached⟩ := reached
  refine ⟨n, ?_, ?_⟩
  · rw [after_succ, ← reached, given, left]
  · rw [← reached, given]

theorem LastPull.trans {s t u : Stream σ} {r : Pulled}
    (reached : ∃ n, u.source = after s.source n) (h : LastPull u t r) : LastPull s t r := by
  obtain ⟨m, reached⟩ := reached
  obtain ⟨n, left, given⟩ := h
  exact ⟨m + n, by rw [left, reached, after_after, Nat.add_assoc],
    by rw [← given, reached, after_after]⟩

theorem LastPull.reached {s t : Stream σ} {r : Pulled} (h : LastPull s t r) :
    ∃ n, t.source = after s.source n := by
  obtain ⟨n, left, -⟩ := h
  exact ⟨n + 1, left⟩

/-- What has been fetched on the way from `s` to `t`: nothing at all, or all there is, or at last
the token that is in a slot with property `P`. -/
inductive Fetched (P : Nat → Prop) (s t : Stream σ) : Prop
  | nothing : t.source = s.source → t.policy = s.policy → t.buffer = s.buffer →
    t.endToken = s.endToken → Fetched P s t
  | all {token : Token} : LastPull s t (.ok token) → token.isEnd = true →
    t.endToken = some (token.stamp t.size) → s.size ≤ t.size → Fetched P s t
  | token {token : Token} {i : Nat} : LastPull s t (.ok token) →
    token.isEnd = false → t.isDry = false → s.size ≤ i → t.size = i + 1 →
    t.buffer[i]? = some ((token.moveTo (t.policy.route token)).stamp i) → P i → Fetched P s t

namespace Fetched

variable {s t u : Stream σ} {P Q : Nat → Prop}

theorem imp (h : Fetched P s t) (weaker : ∀ i, t.isDry = false → t.size = i + 1 → P i → Q i) :
    Fetched Q s t := by
  cases h with
  | nothing source policy buffer endToken => exact .nothing source policy buffer endToken
  | all last ends stored grown => exact .all last ends stored grown
  | token last goesOn wet new size held awaited =>
    exact .token last goesOn wet new size held (weaker _ wet size awaited)

/-- Where the cursor and the marker are makes no difference. -/
theorem congr (h : Fetched P s t) (source : u.source = t.source) (policy : u.policy = t.policy)
    (buffer : u.buffer = t.buffer) (endToken : u.endToken = t.endToken) : Fetched P s u := by
  have same : u.size = t.size := congrArg Array.size buffer
  have last {r : Pulled} (last : LastPull s t r) : LastPull s u r := by
    obtain ⟨n, left, given⟩ := last
    exact ⟨n, source.trans left, given⟩
  cases h with
  | nothing source' policy' buffer' endToken' =>
    exact .nothing (source.trans source') (policy.trans policy') (buffer.trans buffer')
      (endToken.trans endToken')
  | all pulled ends stored grown =>
    exact .all (last pulled) ends (by rw [endToken, stored, same]) (by rwa [same])
  | token pulled goesOn wet new size held awaited =>
    refine .token (last pulled) goesOn ?_ new (same.trans size) ?_ awaited
    · rwa [Stream.isDry, endToken]
    · rw [buffer, policy, held]

theorem reached (h : Fetched P s t) : ∃ n, t.source = after s.source n := by
  cases h with
  | nothing source _ _ _ => exact ⟨0, source⟩
  | all last _ _ _ => exact last.reached
  | token last _ _ _ _ _ _ => exact last.reached

theorem size_le (h : Fetched P s t) : s.size ≤ t.size := by
  cases h with
  | nothing _ _ buffer _ => exact Nat.le_of_eq (congrArg Array.size buffer.symm)
  | all _ _ _ grown => exact grown
  | token _ _ _ new size _ _ => omega

/-- One fetch after another. If nothing is fetched by the second, what the first has fetched is what
both were after. -/
theorem trans (first : Fetched P s u) (second : Fetched Q u t)
    (stays : ∀ i, t.isDry = false → t.size = i + 1 → P i → Q i) : Fetched Q s t := by
  cases second with
  | nothing source policy buffer endToken =>
    exact (first.congr source policy buffer endToken).imp stays
  | all last ends stored grown =>
    exact .all (last.trans first.reached) ends stored (Nat.le_trans first.size_le grown)
  | token last goesOn wet new size held awaited =>
    exact .token (last.trans first.reached) goesOn wet (Nat.le_trans first.size_le new) size held
      awaited

end Fetched

/-- A loop that has stopped has made no step, or its last step was from a stream that was not
ready. -/
theorem pullUntil_last {ready : Stream σ → Bool} {limit : Nat} {s t : Stream σ}
    (h : (pullUntil ready limit).perform s = (.ok (), t)) :
    t = s ∨ ∃ u, Pulls s u ∧ ready u = false ∧ PullStep u t := by
  induction limit generalizing s with
  | zero =>
    cases stops : s.isDry || ready s with
    | true =>
      rw [perform_pullUntil_of_ready stops] at h
      cases h
      exact Or.inl rfl
    | false =>
      rw [perform_pullUntil_zero stops] at h
      cases h
  | succ limit ih =>
    cases stops : s.isDry || ready s with
    | true =>
      rw [perform_pullUntil_of_ready stops] at h
      cases h
      exact Or.inl rfl
    | false =>
      obtain ⟨wet, waiting⟩ := Bool.or_eq_false_iff.1 stops
      rw [perform_pullUntil_succ stops] at h
      rcases StreamM.perform_bind_ok h with ⟨⟨⟩, v, pulled, h⟩
      have step : PullStep s v := ⟨wet, pulled⟩
      rcases ih h with rfl | ⟨u, pulls, waiting', last⟩
      · exact Or.inr ⟨s, .refl, waiting, step⟩
      · exact Or.inr ⟨u, .head step pulls, waiting', last⟩

/-- What a pull comes to: it gives the end-of-stream token, or a token that is dropped, or one that
fills the next slot. -/
theorem PullStep.given {u t : Stream σ} (step : PullStep u t) :
    ∃ token, next u.source = (.ok token, t.source) ∧
      (token.isEnd = true ∧ t.buffer = u.buffer ∧ t.endToken = some (token.stamp u.size) ∨
        token.isEnd = false ∧ t.isDry = false ∧ (t.buffer = u.buffer ∨
          t.buffer = u.buffer.push ((token.moveTo (t.policy.route token)).stamp u.size))) := by
  obtain ⟨token, source, given, rfl⟩ := step.exists_token
  refine ⟨token, by rw [receive_source, given], ?_⟩
  cases ends : token.isEnd with
  | true => exact Or.inl ⟨rfl, receive_of_isEnd { u with source } ends⟩
  | false =>
    refine Or.inr ⟨rfl, ?_, ?_⟩
    · rw [isDry, receive_endToken _ ends]
      exact step.1
    · rw [receive_policy]
      cases verdict : u.policy.judge token with
      | keep channel =>
        obtain rfl : channel = u.policy.route token := Policy.eq_route_of_keep verdict
        exact Or.inr (receive_of_keep { u with source } ends verdict)
      | dropKind => exact Or.inl (receive_of_drop { u with source } ends (by simp [verdict]))
      | dropOffChannel _ =>
        exact Or.inl (receive_of_drop { u with source } ends (by simp [verdict]))

/-- The last pull of a loop fills the slot that makes the stream ready, unless it gives the
end-of-stream token. -/
theorem fetched_pullUntil {P : Nat → Prop} {ready : Stream σ → Bool} {limit : Nat}
    {s t : Stream σ}
    (same : ∀ {s t : Stream σ}, t.buffer = s.buffer → t.policy.channel = s.policy.channel →
      ready t = ready s)
    (h : (pullUntil ready limit).perform s = (.ok (), t))
    (fills : ∀ {u : Stream σ}, u.Within t → t.size = u.size + 1 → ready u = false →
      ready t = true → P u.size) : Fetched P s t := by
  have stops : (t.isDry || ready t) = true := (pullUntil_ok h).2
  rcases pullUntil_last h with rfl | ⟨u, pulls, waiting, step⟩
  · exact .nothing rfl rfl rfl rfl
  · have grown : s.size ≤ u.size := pulls.within.size_le
    obtain ⟨token, given, outcome⟩ := step.given
    have last : LastPull s t (.ok token) := .of_next pulls.operates.source given rfl
    rcases outcome with ⟨ends, buffer, stored⟩ | ⟨goesOn, wet, buffer | pushed⟩
    · have size : t.size = u.size := congrArg Array.size buffer
      exact .all last ends (by rw [stored, size]) (by rwa [size])
    · -- a token that is dropped makes no stream ready
      rw [wet, same buffer step.within.channel, waiting] at stops
      cases stops
    · have size : t.size = u.size + 1 := by rw [Stream.size, pushed, Array.size_push, Stream.size]
      have there : ready t = true := by rwa [wet] at stops
      have held : t.buffer[u.size]? =
          some ((token.moveTo (t.policy.route token)).stamp u.size) := by
        rw [pushed]
        exact Array.getElem?_push_size
      exact .token last goesOn wet grown size held (fills step.within size waiting there)

/-! ## Slots by number -/

theorem fetched_reach {limit i : Nat} {s t : Stream σ}
    (h : (reach limit i).perform s = (.ok (), t)) : Fetched (· = i) s t := by
  refine fetched_pullUntil (fun buffer _ => by rw [size, buffer, ← size]) h ?_
  intro u _ size waiting there
  simp only [decide_eq_true_eq, decide_eq_false_iff_not] at waiting there
  omega

theorem fetched_get {limit i : Nat} {s t : Stream σ} {found : Option Token}
    (h : (get? limit i).perform s = (.ok found, t)) : Fetched (· = i) s t := by
  rcases StreamM.perform_bind_ok h with ⟨⟨⟩, u, reached, h⟩
  cases h
  exact fetched_reach reached

theorem fetched_range {limit first last : Nat} {s t : Stream σ} {tokens : List Token}
    (h : (range limit first last).perform s = (.ok tokens, t)) :
    Fetched (fun i => first ≤ last ∧ i = last) s t := by
  unfold range at h
  split at h
  · cases h
    exact .nothing rfl rfl rfl rfl
  · next upright =>
    rcases StreamM.perform_bind_ok h with ⟨⟨⟩, u, reached, h⟩
    cases h
    exact (fetched_reach reached).imp fun i _ _ there => ⟨Nat.le_of_not_lt upright, there⟩

theorem fetched_fill {limit : Nat} {s t : Stream σ} (h : (fill limit).perform s = (.ok (), t)) :
    Fetched (fun _ => False) s t :=
  fetched_pullUntil (fun _ _ => rfl) h fun _ _ _ never => by cases never

theorem fetched_tokens {limit : Nat} {s t : Stream σ} {tokens : List Token}
    (h : (Stream.tokens limit).perform s = (.ok tokens, t)) : Fetched (fun _ => False) s t := by
  rcases StreamM.perform_bind_ok h with ⟨⟨⟩, u, filled, h⟩
  cases h
  exact fetched_fill filled

/-! ## Searches for visible slots -/

omit [TokenSource σ] in
/-- What makes a visible slot seen for the first time is the token buffered last. -/
theorem target_of_unseen {s t : Stream σ} {i : Nat} (grown : s.Within t)
    (size : t.size = s.size + 1) (unseen : sees i s = false) (seen : sees i t = true) :
    target i t = s.size := by
  obtain ⟨j, found⟩ := Option.isSome_iff_exists.1 seen
  obtain ⟨le, visible, -⟩ := visibleFrom?_eq_some.1 found
  have below : j < t.size := lt_size_of_isVisible visible
  have above : s.size ≤ j := by
    by_contra old
    have before : s.isVisible j = true := by
      rw [← grown.isVisible_eq (by omega)]
      exact visible
    rw [sees, visibleFrom?_isSome.2 ⟨j, le, before⟩] at unseen
    cases unseen
  rw [target, found, Option.getD_some]
  omega

theorem fetched_nextVisible {limit i j : Nat} {s t : Stream σ}
    (h : (nextVisible limit i).perform s = (.ok j, t)) : Fetched (· = j) s t := by
  rw [perform_nextVisible] at h
  obtain ⟨loop, rfl⟩ := search_ok h
  refine fetched_pullUntil (fun buffer channel => ?_) loop ?_
  · rw [sees, sees, visibleFrom?_congr buffer channel]
  · intro u grown size unseen seen
    exact (target_of_unseen grown size unseen seen).symm

omit [TokenSource σ] in
/-- If one search ends at the token buffered last and a later one takes no pull, both have come to
the same slot. -/
theorem eq_of_settled {t : Stream σ} {i j : Nat} (settled : t.Settled j) (le : i ≤ j)
    (wet : t.isDry = false) (size : t.size = i + 1) : i = j := by
  rcases settled with visible | ⟨-, dry⟩
  · have below : j < t.size := lt_size_of_isVisible visible
    omega
  · rw [wet] at dry
    cases dry

theorem fetched_position {limit p : Nat} {s t : Stream σ}
    (h : (position limit).perform s = (.ok p, t)) :
    Fetched (fun i => s.cursor = none ∧ i = p) s t := by
  obtain ⟨-, rfl | ⟨unset, u, search, rfl⟩⟩ := position_ok h
  · exact .nothing rfl rfl rfl rfl
  · have fetched : Fetched (· = p) s { u with cursor := some p } :=
      (fetched_nextVisible search).congr rfl rfl rfl rfl
    exact fetched.imp fun i _ _ there => ⟨unset, there⟩

theorem fetched_seek {limit i : Nat} {s t : Stream σ} (h : (seek limit i).perform s = (.ok (), t)) :
    Fetched (t.cursor = some ·) s t := by
  rcases StreamM.perform_bind_ok h with ⟨j, u, search, h⟩
  cases h
  have fetched : Fetched (· = j) s { u with cursor := some j } :=
    (fetched_nextVisible search).congr rfl rfl rfl rfl
  exact fetched.imp fun i _ _ there => congrArg some there.symm

theorem fetched_stepsAhead {limit k i j : Nat} {s t : Stream σ} (settled : s.Settled i)
    (h : (stepsAhead limit k i).perform s = (.ok j, t)) : Fetched (· = j) s t := by
  induction k generalizing i s with
  | zero =>
    cases h
    exact .nothing rfl rfl rfl rfl
  | succ k ih =>
    by_cases hi : i < s.size
    · rw [perform_stepsAhead_of_lt hi] at h
      rcases StreamM.perform_bind_ok h with ⟨m, u, search, h⟩
      have found : u.Settled m := (nextVisible_ok search).2.2
      obtain ⟨-, settled', le⟩ := stepsAhead_ok found h
      refine (fetched_nextVisible search).trans (ih found h) ?_
      rintro _ wet size rfl
      exact eq_of_settled settled' le wet size
    · rw [perform_stepsAhead_of_not_lt hi] at h
      cases h
      exact .nothing rfl rfl rfl rfl

/-! ## Operations with the cursor -/

theorem fetched_mark {limit m : Nat} {s t : Stream σ} (h : (mark limit).perform s = (.ok m, t)) :
    Fetched (fun i => s.cursor = none ∧ t.cursor = some i) s t := by
  rcases StreamM.perform_bind_ok h with ⟨p, u, positioned, h⟩
  cases h
  have fetched : Fetched (fun i => s.cursor = none ∧ i = m) s { u with lastMark := m } :=
    (fetched_position positioned).congr rfl rfl rfl rfl
  refine fetched.imp ?_
  rintro i - - ⟨unset, rfl⟩
  exact ⟨unset, (position_ok positioned).1⟩

theorem fetched_consume {limit : Nat} {s t : Stream σ}
    (h : (consume limit).perform s = (.ok (), t)) : Fetched (t.cursor = some ·) s t := by
  rcases StreamM.perform_bind_ok h with ⟨p, u, positioned, h⟩
  have fetched : Fetched (fun i => s.cursor = none ∧ i = p) s u := fetched_position positioned
  have placed : u.cursor = some p := (position_ok positioned).1
  rw [StreamM.perform_bind, StreamM.perform_get] at h
  dsimp only at h
  split at h
  · next below =>
    rcases StreamM.perform_bind_ok h with ⟨q, v, search, h'⟩
    cases h'
    obtain ⟨pulls, rfl, settled⟩ := nextVisible_ok search
    have grown : u.size ≤ v.size := pulls.within.size_le
    have further : p + 1 ≤ target (p + 1) v := le_target (by omega)
    refine fetched.trans (fetched_seek h) ?_
    rintro i wet size ⟨-, rfl⟩
    have same : i = target (i + 1) v := eq_of_settled settled (by omega) wet size
    omega
  · cases h
    refine fetched.imp ?_
    rintro i - - ⟨-, rfl⟩
    exact placed

/-- Looking ahead waits for the token that it finds, and for no other. -/
theorem fetched_lookahead_ahead {limit k : Nat} {s t : Stream σ} {found : Option Token}
    (sound : s.CursorSettled) (h : (lookahead limit (k + 1 : Nat)).perform s = (.ok found, t)) :
    Fetched (fun i => found = t.buffer[i]?) s t := by
  rw [perform_lookahead] at h
  rcases StreamM.perform_bind_ok h with ⟨p, u, positioned, h⟩
  rcases StreamM.perform_bind_ok h with ⟨j, v, stepped, h⟩
  cases h
  have settled : u.Settled p := settled_of_position sound positioned
  obtain ⟨-, settled', le⟩ := stepsAhead_ok settled stepped
  have fetched : Fetched (· = j) s t := by
    refine (fetched_position positioned).trans (fetched_stepsAhead settled stepped) ?_
    rintro i wet size ⟨-, rfl⟩
    exact eq_of_settled settled' le wet size
  refine fetched.imp ?_
  rintro i wet - rfl
  rw [endToken_of_wet wet]
  cases t.buffer[i]? <;> rfl

/-- A lookahead that takes no steps ahead waits for the cursor to be positioned. -/
theorem fetched_lookahead_back {limit : Nat} {k : Int} {s t : Stream σ} {found : Option Token}
    (back : k ≤ 1) (h : (lookahead limit k).perform s = (.ok found, t)) :
    Fetched (fun i => s.cursor = none ∧ t.cursor = some i) s t := by
  have of_position {p : Nat} (positioned : (position limit).perform s = (.ok p, t)) :
      Fetched (fun i => s.cursor = none ∧ t.cursor = some i) s t := by
    refine (fetched_position positioned).imp ?_
    rintro i - - ⟨unset, rfl⟩
    exact ⟨unset, (position_ok positioned).1⟩
  match k with
  | .ofNat 0 =>
    cases h
    exact .nothing rfl rfl rfl rfl
  | .ofNat 1 =>
    rcases StreamM.perform_bind_ok h with ⟨p, u, positioned, h⟩
    cases h
    exact of_position positioned
  | .ofNat (k + 2) =>
    have ahead : (k : Int) + 2 ≤ 1 := back
    omega
  | .negSucc k =>
    rcases StreamM.perform_bind_ok h with ⟨p, u, positioned, h⟩
    cases h
    exact of_position positioned

omit [TokenSource σ] in
/-- There is nothing left to wait for when the source has ended. -/
theorem awaits_nothing {t : Stream σ} (dry : t.isDry = true) {P : Nat → Prop} :
    ∀ i, t.isDry = false → t.size = i + 1 → P i → False := by
  intro i wet
  rw [dry] at wet
  cases wet

/-- Draining ends with the source, so it waits for no token. -/
theorem fetched_drainTexts {limit count : Nat} {s t : Stream σ} {texts : List String}
    (sound : s.Sound) (h : (drainTexts limit count).perform s = (.ok texts, t)) :
    t.isDry = true ∧ Fetched (fun _ => False) s t := by
  induction count generalizing s texts with
  | zero => cases h
  | succ count ih =>
    rcases StreamM.perform_bind_ok h with ⟨found, u, looked, h⟩
    have sound' : u.Sound := (operates_lookahead limit 1 s).sound_of_perform looked sound
    have fetched : Fetched _ s u := fetched_lookahead_back (Int.le_refl 1) looked
    obtain ⟨p, token, -, rfl, held⟩ := lookahead_found (k := 0) sound looked
    dsimp only at h
    split at h
    · next ends =>
      cases h
      have dry : t.isDry = true := by
        rcases held with ⟨i, -, held, -⟩ | ended
        · have noEnd := sound'.buffered token (Array.mem_of_getElem? held)
          rw [ends] at noEnd
          cases noEnd
        · rw [isDry, ended]
          rfl
      exact ⟨dry, fetched.imp (awaits_nothing dry)⟩
    · rcases StreamM.perform_bind_ok h with ⟨⟨⟩, v, consumed, h⟩
      rcases StreamM.perform_bind_ok h with ⟨rest, w, drained, h⟩
      cases h
      have sound'' : v.Sound := (operates_consume limit u).sound_of_perform consumed sound'
      obtain ⟨dry, further⟩ := ih sound'' drained
      have consumes := (fetched_consume consumed).trans further (awaits_nothing dry)
      exact ⟨dry, fetched.trans consumes (awaits_nothing dry)⟩

/-! ## Commands -/

/-- The slot that a command which answers `a` and leads from `s` to `t` has been waiting for. Asking
for all there is and draining wait for no slot, but for the end of the source. -/
def Awaits (limit : Nat) (s t : Stream σ) (a : Answer σ) (i : Nat) : Command σ → Prop
  | .get j | .display j => i = j
  | .range first last | .rangeInSet first last _ | .rangeOfKinds first last _
  | .rangeOfKind first last _ | .textRange first last => first ≤ last ∧ i = last
  | .textBetween first last =>
    ∃ m n, first.index = some m ∧ last.index = some n ∧ m ≤ n ∧ i = n
  | .lookahead k =>
    if 0 < k then a = .token? t.buffer[i]? else s.cursor = none ∧ t.cursor = some i
  | .peekKind k =>
    if 0 < k then
      ∃ token, t.buffer[i]? = some token ∧ a = .kind token.kind ∧
        (lookahead limit k).perform s = (.ok (some token), t)
    else s.cursor = none ∧ t.cursor = some i
  | .mark | .isAtEnd => s.cursor = none ∧ t.cursor = some i
  | .consume | .seek _ | .rewind _ | .rewindToMark => t.cursor = some i
  | _ => False

theorem fetched_bind_pure {α β : Type} {op : StreamM σ α} {f : α → β} {b : β} {P : Nat → Prop}
    {s t : Stream σ} (h : (op >>= fun a => pure (f a)).perform s = (.ok b, t))
    (fetched : ∀ a, op.perform s = (.ok a, t) → b = f a → Fetched P s t) : Fetched P s t := by
  rcases StreamM.perform_bind_ok h with ⟨a, u, performed, h⟩
  cases h
  exact fetched a performed rfl

/-- A command that answers has fetched the token that it was waiting for, and nothing after it. -/
theorem fetched_exec {limit : Nat} {c : Command σ} (op : c.isOperation = true) {s t : Stream σ}
    {a : Answer σ} (sound : s.Sound) (h : (exec limit c).perform s = (.ok a, t)) :
    Fetched (Awaits limit s t a · c) s t := by
  have filtered {first last : Nat} {test : Kind → Bool} {tokens : List Token}
      (h : (rangeWhere limit first last test).perform s = (.ok tokens, t)) :
      Fetched (fun i => first ≤ last ∧ i = last) s t :=
    fetched_bind_pure h fun _ listed _ => fetched_range listed
  have spelled {first last : Nat} {text : String}
      (h : (textRange limit first last).perform s = (.ok text, t)) :
      Fetched (fun i => first ≤ last ∧ i = last) s t :=
    fetched_bind_pure h fun _ listed _ => fetched_range listed
  cases c with
  | consume => exact fetched_bind_pure h fun _ consumed _ => fetched_consume consumed
  | peekKind k =>
    refine fetched_bind_pure h fun kind asked answered => ?_
    refine fetched_bind_pure asked fun found looked told => ?_
    by_cases ahead : 0 < k
    · obtain ⟨n, rfl⟩ := Int.eq_succ_of_zero_lt ahead
      obtain ⟨p, token, -, rfl, -⟩ := lookahead_found sound looked
      refine (fetched_lookahead_ahead sound.cursor looked).imp fun i _ _ there => ?_
      rw [Awaits, if_pos ahead]
      exact ⟨token, there.symm, by rw [answered, told]; rfl, looked⟩
    · refine (fetched_lookahead_back (by omega) looked).imp fun i _ _ placed => ?_
      rwa [Awaits, if_neg ahead]
  | lookahead k =>
    refine fetched_bind_pure h fun found looked answered => ?_
    by_cases ahead : 0 < k
    · obtain ⟨n, rfl⟩ := Int.eq_succ_of_zero_lt ahead
      refine (fetched_lookahead_ahead sound.cursor looked).imp fun i _ _ there => ?_
      rw [Awaits, if_pos ahead, answered, there]
    · refine (fetched_lookahead_back (by omega) looked).imp fun i _ _ placed => ?_
      rwa [Awaits, if_neg ahead]
  | get i => exact fetched_bind_pure h fun _ got _ => fetched_get got
  | display i => exact fetched_bind_pure h fun _ got _ => fetched_get got
  | mark => exact fetched_bind_pure h fun _ marked _ => fetched_mark marked
  | rewind marker => exact fetched_bind_pure h fun _ sought _ => fetched_seek sought
  | rewindToMark =>
    refine fetched_bind_pure h fun _ sought _ => ?_
    rw [rewindToMark, StreamM.perform_bind, StreamM.perform_get] at sought
    exact fetched_seek sought
  | seek i => exact fetched_bind_pure h fun _ sought _ => fetched_seek sought
  | fill => exact fetched_bind_pure h fun _ filled _ => fetched_fill filled
  | isAtEnd =>
    refine fetched_bind_pure h fun _ asked _ => ?_
    exact fetched_bind_pure asked fun _ looked _ => fetched_lookahead_back (Int.le_refl 1) looked
  | tokens => exact fetched_bind_pure h fun _ listed _ => fetched_tokens listed
  | range first last => exact fetched_bind_pure h fun _ listed _ => fetched_range listed
  | rangeInSet first last kinds => exact fetched_bind_pure h fun _ found _ => filtered found
  | rangeOfKinds first last kinds => exact fetched_bind_pure h fun _ found _ => filtered found
  | rangeOfKind first last kind => exact fetched_bind_pure h fun _ found _ => filtered found
  | text =>
    refine fetched_bind_pure h fun _ joined _ => ?_
    exact fetched_bind_pure joined fun _ listed _ => fetched_tokens listed
  | textRange first last => exact fetched_bind_pure h fun _ joined _ => spelled joined
  | textBetween first last =>
    refine fetched_bind_pure h fun _ joined _ => ?_
    unfold textBetween at joined
    split at joined
    · next m n here there =>
      exact (spelled joined).imp fun i _ _ awaited => ⟨m, n, here, there, awaited⟩
    · cases joined
      exact .nothing rfl rfl rfl rfl
  | drain =>
    refine fetched_bind_pure h fun _ drained _ => ?_
    rw [drain, StreamM.perform_bind, StreamM.perform_get] at drained
    exact (fetched_drainTexts sound drained).2
  | release marker =>
    cases h
    exact .nothing rfl rfl rfl rfl
  | sourceName =>
    cases h
    exact .nothing rfl rfl rfl rfl
  | channel =>
    cases h
    exact .nothing rfl rfl rfl rfl
  | routeOf kind =>
    cases h
    exact .nothing rfl rfl rfl rfl
  | dropsOffChannel =>
    cases h
    exact .nothing rfl rfl rfl rfl
  | isDiscarded kind =>
    cases h
    exact .nothing rfl rfl rfl rfl
  | _ => cases op

/-- The last pull of a command that fails has failed, with the same error. -/
theorem lastPull_of_failed {limit : Nat} {c : Command σ} (op : c.isOperation = true)
    {s t : Stream σ} {e : SourceError}
    (failed : (exec limit c).perform s = (.error (.failed e), t)) : LastPull s t (.error e) := by
  obtain ⟨u, ahead, v, pulls, -, source, given, rfl⟩ : ∃ u, Ahead s u ∧ FailsAfter u e t := by
    rcases failed_of_exec op failed with fails | placed | ⟨-, further⟩
    · exact ⟨s, .refl, fails⟩
    · exact placed.ahead
    · exact further
  have operates : Operates s v := ahead.operates.trans pulls.operates
  exact .of_next operates.source given rfl

/-! ## Commands that take no pull -/

/-- The operation is answered and leaves the stream as it is. -/
def Idle {α : Type} (op : StreamM σ α) (s : Stream σ) : Prop := ∃ a, op.perform s = (.ok a, s)

omit [TokenSource σ] in
theorem idle_bind_pure {α β : Type} {op : StreamM σ α} {s : Stream σ} (f : α → β)
    (h : Idle op s) : Idle (op >>= fun a => pure (f a)) s := by
  obtain ⟨a, answered⟩ := h
  exact ⟨f a, StreamM.perform_bind_of_ok answered _⟩

theorem idle_get {s : Stream σ} {i : Nat} (filled : i < s.size) (limit : Nat) :
    Idle (get? limit i) s := by
  have reached : (reach limit i).perform s = (.ok (), s) :=
    perform_pullUntil_of_ready (by simp [filled]) limit
  exact ⟨_, StreamM.perform_bind_of_ok reached _⟩

theorem idle_range {s : Stream σ} {first last : Nat}
    (h : (decide (last < first) || decide (last < s.size)) = true) (limit : Nat) :
    Idle (range limit first last) s := by
  unfold range
  split
  · exact ⟨[], rfl⟩
  · next upright =>
    have filled : last < s.size := by simpa [upright] using h
    have reached : (reach limit last).perform s = (.ok (), s) :=
      perform_pullUntil_of_ready (by simp [filled]) limit
    exact ⟨_, StreamM.perform_bind_of_ok reached _⟩

/-- A command that needs no pull takes none. -/
theorem source_of_needsNoPull {c : Command σ} {s : Stream σ}
    (none : c.needsNoPull s.size = true) (limit : Nat) :
    ((exec limit c).perform s).2.source = s.source := by
  have of_idle (h : Idle (exec limit c) s) : ((exec limit c).perform s).2.source = s.source := by
    obtain ⟨a, answered⟩ := h
    rw [answered]
  cases c with
  | get i => exact of_idle (idle_bind_pure _ (idle_get (of_decide_eq_true none) limit))
  | display i => exact of_idle (idle_bind_pure _ (idle_get (of_decide_eq_true none) limit))
  | lookahead k =>
    obtain rfl : k = 0 := eq_of_beq none
    rfl
  | peekKind k =>
    obtain rfl : k = 0 := eq_of_beq none
    rfl
  | range first last => exact of_idle (idle_bind_pure _ (idle_range none limit))
  | rangeInSet first last kinds =>
    exact of_idle (idle_bind_pure _ (idle_bind_pure _ (idle_range none limit)))
  | rangeOfKinds first last kinds =>
    exact of_idle (idle_bind_pure _ (idle_bind_pure _ (idle_range none limit)))
  | rangeOfKind first last kind =>
    exact of_idle (idle_bind_pure _ (idle_bind_pure _ (idle_range none limit)))
  | textRange first last =>
    exact of_idle (idle_bind_pure _ (idle_bind_pure _ (idle_range none limit)))
  | textBetween first last =>
    refine of_idle (idle_bind_pure _ ?_)
    unfold textBetween
    split
    · next i j here there =>
      simp only [Command.needsNoPull, here, there] at none
      exact idle_bind_pure _ (idle_range none limit)
    · exact ⟨"", rfl⟩
  | discard kind =>
    show (s.discard kind).source = s.source
    unfold discard
    split <;> rfl
  | release marker => rfl
  | sourceName => rfl
  | channel => rfl
  | routeOf kind => rfl
  | dropsOffChannel => rfl
  | isDiscarded kind => rfl
  | reroute kind channel => rfl
  | dropOffChannel drop => rfl
  | _ => cases none

/-! ## The last pull of a command -/

/-- What the last pull of a command may have given. -/
inductive FinalPull (limit : Nat) (c : Command σ) (s t : Stream σ) :
    Except Interrupt (Answer σ) → Pulled → Prop
  /-- The pull failed, and the command with it. -/
  | failed {e : SourceError} : FinalPull limit c s t (.error (.failed e)) (.error e)
  /-- The source has ended. -/
  | ended {a : Answer σ} {token : Token} : token.isEnd = true →
    t.endToken = some (token.stamp t.size) → FinalPull limit c s t (.ok a) (.ok token)
  /-- The token was put in the slot that the command was waiting for. -/
  | awaited {a : Answer σ} {token : Token} {i : Nat} : token.isEnd = false → s.size ≤ i →
    t.size = i + 1 → t.buffer[i]? = some ((token.moveTo (t.policy.route token)).stamp i) →
    Awaits limit s t a i c → FinalPull limit c s t (.ok a) (.ok token)

/-- An operation that has an outcome has taken no pull, or the last one it took is one that may be
the last. -/
theorem finalPull_of_exec {limit : Nat} {c : Command σ} (op : c.isOperation = true)
    {s t : Stream σ} {result : Except Interrupt (Answer σ)} (sound : s.Sound)
    (performed : (exec limit c).perform s = (result, t)) (inTime : result ≠ .error .outOfPulls) :
    t.source = s.source ∨ ∃ r, LastPull s t r ∧ FinalPull limit c s t result r := by
  rcases result with (e | _) | a
  · exact Or.inr ⟨_, lastPull_of_failed op performed, .failed⟩
  · exact absurd rfl inTime
  · cases fetched_exec op sound performed with
    | nothing source _ _ _ => exact Or.inl source
    | all last ends stored _ => exact Or.inr ⟨_, last, .ended ends stored⟩
    | token last goesOn _ new size held awaited =>
      exact Or.inr ⟨_, last, .awaited goesOn new size held awaited⟩

/-- No command reads further than it has to. From every reachable stream, the pulls that a command
takes are the next ones of the source, and the last of them, if there is one, has failed, or has
given the end-of-stream token or the one token that the command was waiting for. No pull is taken
once the end-of-stream token is there, and none by a command that needs none. -/
theorem last_pull_of_exec {s t : Stream (Metered σ)} (h : Reachable s) {limit : Nat}
    {c : Command (Metered σ)} (keeps : c.keepsSource = true) (own : c ≠ .pullSource)
    {result : Except Interrupt (Answer (Metered σ))}
    (performed : (exec limit c).perform s = (result, t))
    (inTime : result ≠ .error .outOfPulls) :
    (∃ n, t.source = ⟨after s.source.source n, s.source.pulls + n⟩ ∧
        ∀ m, n = m + 1 →
          FinalPull limit c s t result (next (after s.source.source m)).1) ∧
      (s.isDry = true → t.source = s.source) ∧
      (c.needsNoPull s.size = true → t.source = s.source) := by
  have idle (source : t.source = s.source) :
      ∃ n, t.source = ⟨after s.source.source n, s.source.pulls + n⟩ ∧
        ∀ m, n = m + 1 → FinalPull limit c s t result (next (after s.source.source m)).1 :=
    ⟨0, source, fun m more => by cases more⟩
  have needless (none : c.needsNoPull s.size = true) : t.source = s.source := by
    have source := source_of_needsNoPull none limit
    rwa [performed] at source
  by_cases op : c.isOperation = true
  · have operates : Operates s t := by
      have after := operates_exec limit op s
      rwa [performed] at after
    refine ⟨?_, operates.source_of_isDry, needless⟩
    rcases finalPull_of_exec op h.sound performed inTime with source | ⟨r, ⟨n, left, rfl⟩, final⟩
    · exact idle source
    · refine ⟨n + 1, by rw [left, after_metered], fun m same => ?_⟩
      cases same
      rw [after_metered] at final
      exact final
  · have none : c.needsNoPull s.size = true := by
      cases c with
      | discard kind => rfl
      | reroute kind channel => rfl
      | dropOffChannel drop => rfl
      | pullSource => exact absurd rfl own
      | replace source => cases keeps
      | _ => exact absurd rfl op
    exact ⟨idle (needless none), fun _ => needless none, needless⟩

/-- Two words, and a blank on the hidden channel between them: consuming the first word takes three
pulls, and the last of them gives the second word, which the cursor is on then. -/
theorem last_pull_of_exec_consume :
    let second := Token.plain 7 "b" .unplaced
    let source := Metered.fresh (ListedSource.ofList
      [.plain 7 "a" .unplaced, .onChannel 5 .hidden " " .unplaced, second,
        .endOfStream .unplaced])
    let s := start .standard source
    let t := ((exec 9 .consume).perform s).2
    Reachable s ∧ (Command.consume : Command (Metered ListedSource)).keepsSource = true ∧
      (Command.consume : Command (Metered ListedSource)) ≠ .pullSource ∧
      (exec 9 .consume).perform s = (.ok .nothing, t) ∧ t.source.pulls = 3 ∧
      FinalPull 9 .consume s t (.ok .nothing) (.ok second) := by
  intro second source s t
  have reachable : Reachable s := .start .standard source
  have answer : ((exec 9 .consume).perform s).1 = .ok .nothing := rfl
  have performed : (exec 9 .consume).perform s = (.ok .nothing, t) := by rw [← answer]
  have pulls : t.source.pulls = 3 := by decide +kernel
  obtain ⟨⟨n, left, final⟩, -⟩ :=
    last_pull_of_exec reachable rfl (by simp) performed (by simp)
  have three : n = 2 + 1 := by
    have counted : t.source.pulls = 0 + n := congrArg Metered.pulls left
    omega
  have given : (next (after s.source.source 2)).1 = .ok second := by decide +kernel
  refine ⟨reachable, rfl, by simp, performed, pulls, ?_⟩
  rw [← given]
  exact final 2 three

end Stream

end Lookahead
