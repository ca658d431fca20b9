import Lookahead.Proofs.Ending
import Lookahead.Proofs.History

/-!
# Sources handed on

A source can be read by one stream after another: `Relay policy source buffers s` says that streams
with one policy have read `source` in turn, that they had these buffers when they gave it up, and
that `s` is the one which has it now.

What a stream buffers and what its source still gives always divide the same tokens between them
(`Divides`). No pull goes astray, because operations do nothing but motions and a pull that gives
a token is taken in at once. So the buffers of a relay follow one another without a gap
(`splice_of_relay`).
-/

namespace Lookahead

/-! ## What is left of a listed source -/

namespace ListedSource

/-- Whether there is an end-of-stream token to come, or has been one. -/
def Ends (s : ListedSource) : Prop :=
  match s.endToken with
  | some t => t.isEnd = true
  | none => ∃ t ∈ s.pending, t.isEnd = true

/-- The tokens that the source gives before the end-of-stream token. -/
def left (s : ListedSource) : List Token :=
  match s.endToken with
  | some _ => []
  | none => s.pending.takeWhile fun t => !t.isEnd

/-- A pull gives the first token that is left, or else the end-of-stream token. -/
theorem next_cases {s : ListedSource} (ends : s.Ends) :
    ∃ t rest, TokenSource.next s = (.ok t, rest) ∧ rest.Ends ∧
      (t.isEnd = true ∧ s.left = [] ∧ rest.left = [] ∨
        t.isEnd = false ∧ s.left = t :: rest.left) := by
  rcases s with ⟨pending, _ | t, produced, name⟩
  · cases pending with
    | nil =>
      obtain ⟨t, member, -⟩ := ends
      cases member
    | cons t pending =>
      cases isEnd : t.isEnd with
      | true =>
        refine ⟨t, _, if_pos isEnd, isEnd, Or.inl ⟨isEnd, ?_, rfl⟩⟩
        show (t :: pending).takeWhile (fun t => !t.isEnd) = []
        rw [List.takeWhile_cons, isEnd]
        rfl
      | false =>
        refine ⟨t, _, if_neg (by simp [isEnd]), ?_, Or.inr ⟨isEnd, ?_⟩⟩
        · obtain ⟨u, member, isEnd'⟩ := ends
          rcases List.mem_cons.1 member with rfl | later
          · rw [isEnd] at isEnd'
            cases isEnd'
          · exact ⟨u, later, isEnd'⟩
        · show (t :: pending).takeWhile (fun t => !t.isEnd) = _
          rw [List.takeWhile_cons, isEnd]
          rfl
  · exact ⟨t, _, rfl, ends, Or.inl ⟨ends, rfl, rfl⟩⟩

theorem endsAfter_left {s : ListedSource} (ends : s.Ends) :
    TokenSource.EndsAfter s s.left.length := by
  induction left : s.left generalizing s with
  | nil =>
    obtain ⟨t, rest, next, -, ⟨isEnd, -⟩ | ⟨-, given⟩⟩ := next_cases ends
    · exact .last next isEnd
    · rw [left] at given
      cases given
  | cons t tokens ih =>
    obtain ⟨u, rest, next, ends', ⟨-, done, -⟩ | ⟨noEnd, given⟩⟩ := next_cases ends
    · rw [left] at done
      cases done
    · rw [left] at given
      cases given
      exact .more next noEnd (ih ends' rfl)

end ListedSource

/-- The tokens that a policy keeps, on the channels it moves them to. -/
def Policy.kept (p : Policy) (tokens : List Token) : List Token :=
  (tokens.map fun t => Draw.mk p (.ok t)).filterMap Draw.kept?

namespace Stream

/-! ## Streams and sources divide the tokens -/

/-- The tokens of a list are buffered already, or the source still gives them: `n` tokens at most
before its end. -/
structure Divides (whole : List Token) (n : Nat) (s : Stream ListedSource) : Prop where
  ends : s.source.Ends
  near : s.source.left.length ≤ n
  dry : s.isDry = true → s.source.left = []
  draws : ∃ draws, Explained draws s ∧
    draws.filterMap Draw.kept? ++ s.policy.kept s.source.left = whole

variable {whole : List Token} {n : Nat} {s t : Stream ListedSource}

/-- A token that is pulled goes from the source's part to the stream's. -/
theorem PullStep.divides (step : PullStep s t) (h : Divides whole n s) : Divides whole n t := by
  obtain ⟨token, source, next, rfl⟩ := step.exists_token
  obtain ⟨draws, explained, all⟩ := h.draws
  have received := Explained.receive (s := { s with source })
    ⟨explained.buffer, explained.endToken⟩ token step.1
  have near := h.near
  obtain ⟨u, rest, next', ends, given⟩ := ListedSource.next_cases h.ends
  cases next.symm.trans next'
  rcases given with ⟨isEnd, done, done'⟩ | ⟨noEnd, given⟩
  · have dropped : (Draw.mk s.policy (.ok token)).kept? = none := by
      rw [Draw.kept?_ok, if_pos isEnd]
    constructor
    · rwa [receive_source]
    · rw [receive_source, done']
      exact Nat.zero_le n
    · rw [receive_source]
      exact fun _ => done'
    · refine ⟨_, received, ?_⟩
      rw [receive_policy, receive_source, ← all, done, done', List.filterMap_append,
        List.filterMap_cons_none dropped, List.filterMap_nil, List.append_nil]
  · constructor
    · rwa [receive_source]
    · rw [receive_source]
      rw [given, List.length_cons] at near
      exact Nat.le_of_succ_le near
    · intro dry
      rw [isDry, receive_endToken _ noEnd] at dry
      cases dry.symm.trans step.1
    · refine ⟨_, received, ?_⟩
      rw [receive_policy, receive_source, ← all, given, List.filterMap_append, List.append_assoc,
        Policy.kept, Policy.kept, List.map_cons, ← List.filterMap_append, List.singleton_append]

theorem Motion.divides (motion : Motion s t) (h : Divides whole n s) : Divides whole n t := by
  cases motion with
  | pulled step => exact step.divides h
  | failed _ next =>
    obtain ⟨u, rest, next', -⟩ := ListedSource.next_cases h.ends
    cases next.symm.trans next'
  | placed _ =>
    obtain ⟨draws, explained, all⟩ := h.draws
    exact ⟨h.ends, h.near, h.dry, draws, ⟨explained.buffer, explained.endToken⟩, all⟩
  | marked _ =>
    obtain ⟨draws, explained, all⟩ := h.draws
    exact ⟨h.ends, h.near, h.dry, draws, ⟨explained.buffer, explained.endToken⟩, all⟩

theorem Operates.divides (operates : Operates s t) (h : Divides whole n s) : Divides whole n t :=
  operates.invariant Motion.divides h

/-- The buffer holds the first of the tokens, in order. -/
theorem Divides.buffer (h : Divides whole n s) :
    ∃ drawn, s.buffer.toList = drawn.mapIdx (fun n t => t.stamp n) ∧
      drawn ++ s.policy.kept s.source.left = whole := by
  obtain ⟨draws, explained, all⟩ := h.draws
  exact ⟨_, explained.buffer, all⟩

/-- All of them are there once the source has ended, which is after a few pulls. -/
theorem Divides.tokens (h : Divides whole n s) {limit : Nat} (enough : n < limit) :
    ∃ t, (tokens limit).perform s = (.ok (whole.mapIdx fun n t => t.stamp n), t) := by
  have answers : Answers (fill limit) s := by
    cases dry : s.isDry with
    | true => exact answers_pullUntil _ (Nat.zero_le _) (.dry dry)
    | false =>
      have few : s.source.left.length + 1 ≤ limit := Nat.lt_of_le_of_lt h.near enough
      exact answers_pullUntil _ few
        (dryAfter_of_endsAfter (ListedSource.endsAfter_left h.ends) rfl dry)
  obtain ⟨_, t, filled⟩ := answers
  obtain ⟨pulls, stops⟩ := pullUntil_ok filled
  have after := pulls.operates.divides h
  obtain ⟨drawn, buffer, all⟩ := after.buffer
  have done : t.source.left = [] := after.dry (by rwa [Bool.or_false] at stops)
  have same : drawn = whole := by
    rw [done] at all
    exact (List.append_nil drawn).symm.trans all
  refine ⟨t, ?_⟩
  rw [Stream.tokens, StreamM.perform_bind_of_ok filled, ← same, ← buffer]
  rfl

/-! ## Relays -/

section

variable {σ : Type} [TokenSource σ]

/-- How a stream comes to read a source: it is built over it, or it is there already and the source
is installed in the place of its own. -/
inductive Opens (policy : Policy) (source : σ) : Stream σ → Prop
  | built : Opens policy source (start policy source)
  | installed {host t : Stream σ} {answer : Answer σ} (limit : Nat) : host.policy = policy →
    (exec limit (.replace source)).perform host = (.ok answer, t) → Opens policy source t

/-- How a stream gives up its source: the source is taken out of it, or is what the stream answers
when another one is installed. -/
inductive GivesUp (s : Stream σ) : σ → Prop
  | taken : GivesUp s s.source
  | replaced {t : Stream σ} {given : σ} (limit : Nat) (other : σ) :
    (exec limit (.replace other)).perform s = (.ok (.source given), t) → GivesUp s given

/-- Streams with one policy that read a source in turn, each by any operations: the buffers of those
that have given the source up, and the stream that has it now. -/
inductive Relay (policy : Policy) : σ → List (List Token) → Stream σ → Prop
  | last {source : σ} {s : Stream σ} {cs : List (Command σ)} (limit : Nat) :
    Opens policy source s → (∀ c ∈ cs, c.isOperation = true) →
    Relay policy source [] (run limit s cs)
  | handOn {source given : σ} {s t : Stream σ} {cs : List (Command σ)}
    {buffers : List (List Token)} (limit : Nat) :
    Opens policy source s → (∀ c ∈ cs, c.isOperation = true) →
    (run limit s cs).GivesUp given → Relay policy given buffers t →
    Relay policy source ((run limit s cs).buffer.toList :: buffers) t

theorem GivesUp.eq_source {s : Stream σ} {given : σ} (h : s.GivesUp given) : given = s.source := by
  cases h with
  | taken => rfl
  | replaced limit other answered =>
    cases answered
    rfl

theorem operates_run (limit : Nat) {cs : List (Command σ)} (ops : ∀ c ∈ cs, c.isOperation = true)
    (s : Stream σ) : Operates s (run limit s cs) := by
  induction cs generalizing s with
  | nil => exact .refl
  | cons c cs ih =>
    have first := operates_exec limit (ops c List.mem_cons_self) s
    exact first.trans (ih (fun c member => ops c (List.mem_cons_of_mem _ member)) _)

end

/-- A stream that has just come to read a source has nothing yet of what its policy keeps. -/
theorem Opens.divides {policy : Policy} {source : ListedSource} (opens : Opens policy source s)
    (ends : source.Ends) (near : source.left.length ≤ n) :
    s.policy = policy ∧ Divides (policy.kept source.left) n s := by
  cases opens with
  | built =>
    have explained : Explained [] (start policy source) := ⟨rfl, rfl⟩
    exact ⟨rfl, ends, near, fun dry => (by cases dry), [], explained, rfl⟩
  | @installed host _ _ _ same replaced =>
    cases replaced
    have explained : Explained [] (host.replaceSource source) := ⟨rfl, rfl⟩
    refine ⟨same, ends, near, fun dry => (by cases dry), [], explained, ?_⟩
    rw [← same]
    rfl

end Stream

/-! ## Buffers put together -/

/-- The token with an index raised by `n`. -/
def Token.later (n : Nat) (t : Token) : Token := { t with index := t.index.map (n + ·) }

/-- Buffers put together after `n` tokens: the index of each token is raised by the number of tokens
before its buffer. -/
def splice (n : Nat) : List (List Token) → List Token
  | [] => []
  | tokens :: rest => tokens.map (Token.later n) ++ splice (n + tokens.length) rest

/-- What is stamped by slots and raised is stamped by slots further on. -/
theorem map_later_mapIdx (n : Nat) (tokens : List Token) :
    (tokens.mapIdx fun i t => t.stamp i).map (Token.later n) =
      tokens.mapIdx fun i t => t.stamp (n + i) := by
  apply List.ext_getElem?
  intro i
  rw [List.getElem?_map, List.getElem?_mapIdx, List.getElem?_mapIdx, Option.map_map]
  rfl

theorem splice_cons (n : Nat) (tokens rest : List Token) (buffers : List (List Token))
    (later : splice (n + tokens.length) buffers =
      rest.mapIdx fun i t => t.stamp (n + tokens.length + i)) :
    splice n ((tokens.mapIdx fun i t => t.stamp i) :: buffers) =
      (tokens ++ rest).mapIdx fun i t => t.stamp (n + i) := by
  rw [splice, List.length_mapIdx, later, map_later_mapIdx, List.mapIdx_append]
  congr 2
  funext i t
  rw [Nat.add_assoc, Nat.add_comm i]

namespace Stream

/-- The last stream of a relay gives all the tokens that its policy keeps and the others have not
buffered. -/
theorem Relay.splice_tokens {policy : Policy} {source : ListedSource} {buffers : List (List Token)}
    {s : Stream ListedSource} (relay : Relay policy source buffers s) (ends : source.Ends)
    {limit : Nat} (enough : source.left.length < limit) (n : Nat) :
    ∃ rest t, (tokens limit).perform s = (.ok rest, t) ∧
      splice n (buffers ++ [rest]) =
        (policy.kept source.left).mapIdx fun i t => t.stamp (n + i) := by
  induction relay generalizing n with
  | last limit' opens ops =>
    obtain ⟨-, divides⟩ := opens.divides ends (Nat.le_refl _)
    obtain ⟨t, answered⟩ := ((operates_run limit' ops _).divides divides).tokens enough
    refine ⟨_, t, answered, ?_⟩
    rw [List.nil_append, splice_cons n _ [] [] rfl, List.append_nil]
  | @handOn source given s u cs buffers limit' opens ops givesUp _ ih =>
    obtain ⟨policy', divides⟩ := opens.divides ends (Nat.le_refl _)
    have operates := operates_run limit' ops s
    have after := operates.divides divides
    obtain ⟨drawn, buffer, all⟩ := after.buffer
    cases givesUp.eq_source
    obtain ⟨rest, t, answered, spliced⟩ :=
      ih after.ends (Nat.lt_of_le_of_lt after.near enough) (n + drawn.length)
    refine ⟨rest, t, answered, ?_⟩
    rw [buffer, List.cons_append, splice_cons n drawn _ _ spliced, ← all, operates.policy, policy']

/-- A list with an end-of-stream token comes to it after fewer tokens than it has. -/
theorem length_left_lt {tokens : List Token} (ends : ∃ t ∈ tokens, t.isEnd = true) :
    (tokens.takeWhile fun t => !t.isEnd).length < tokens.length := by
  have first : (tokens.takeWhile fun t => !t.isEnd) <+: tokens := List.takeWhile_prefix _
  apply Nat.lt_of_le_of_ne first.length_le
  intro same
  have noEnds : (tokens.takeWhile fun t => !t.isEnd).all (fun t => !t.isEnd) = true :=
    List.all_takeWhile
  rw [first.eq_of_length same, List.all_eq_true] at noEnds
  obtain ⟨t, member, isEnd⟩ := ends
  have noEnd := noEnds t member
  rw [isEnd] at noEnd
  cases noEnd

/-- Streams with one policy that read a list with an end-of-stream token in turn lose nothing of it
and repeat nothing. Their buffers, and what the last of them answers when asked for all tokens, are
together what one stream answers that has the list for itself, but for the indices, which are lower
by the number of tokens in the buffers before. -/
theorem splice_of_relay {tokens : List Token} (ends : ∃ t ∈ tokens, t.isEnd = true)
    (name : Option String) (policy : Policy) {buffers : List (List Token)}
    {s : Stream ListedSource}
    (relay : Relay policy { ListedSource.ofList tokens with name } buffers s) {limit : Nat}
    (enough : tokens.length ≤ limit) :
    ∃ rest whole t u,
      (Stream.tokens limit).perform s = (.ok rest, t) ∧
      (Stream.tokens limit).perform (start policy { ListedSource.ofList tokens with name }) =
        (.ok whole, u) ∧
      splice 0 (buffers ++ [rest]) = whole := by
  have few := Nat.lt_of_lt_of_le (length_left_lt ends) enough
  obtain ⟨rest, t, answered, spliced⟩ := relay.splice_tokens ends few 0
  have opens : Opens policy { ListedSource.ofList tokens with name } _ := .built
  obtain ⟨-, alone⟩ := opens.divides ends (Nat.le_refl _)
  obtain ⟨u, answered'⟩ := alone.tokens few
  refine ⟨rest, _, t, u, answered, answered', ?_⟩
  rw [spliced]
  simp only [Nat.zero_add]

/-- Three words are read by a new stream that looks at the first of them, by another new one that
reads up to the end before its source is replaced, and by a stream which had a source of its own. -/
theorem splice_of_relay_thrice :
    let word := fun text => Token.plain 7 text .unplaced
    let tokens := [word "a", word "b", word "c", .endOfStream .unplaced, word "d"]
    let source := ListedSource.ofList tokens
    let other := ListedSource.ofList []
    let first := run 5 (start .standard source) [.lookahead 1, .get 0]
    let second := run 5 (start .standard first.source) [.consume, .tokens]
    let third := run 5 ((start .standard other).replaceSource second.source) [.isAtEnd]
    let buffers := [first.buffer.toList, second.buffer.toList]
    (∃ t ∈ tokens, t.isEnd = true) ∧ Relay .standard source buffers third ∧ tokens.length ≤ 5 ∧
      buffers = [[(word "a").stamp 0], [(word "b").stamp 0, (word "c").stamp 1]] ∧
      ∃ rest whole t u,
        (Stream.tokens 5).perform third = (.ok rest, t) ∧
        (Stream.tokens 5).perform (start .standard source) = (.ok whole, u) ∧
        splice 0 (buffers ++ [rest]) = whole := by
  intro word tokens source other first second third buffers
  have ends : ∃ t ∈ tokens, t.isEnd = true := ⟨.endOfStream .unplaced, by simp [tokens], rfl⟩
  have installed : Opens .standard second.source
      ((start .standard other).replaceSource second.source) :=
    .installed 5 rfl rfl
  have relay : Relay .standard source buffers third :=
    .handOn 5 .built (by simp [Command.isOperation]) .taken
      (.handOn 5 .built (by simp [Command.isOperation]) (.replaced 5 other rfl)
        (.last 5 installed (by simp [Command.isOperation])))
  refine ⟨ends, relay, Nat.le_refl 5, by decide +kernel, ?_⟩
  exact splice_of_relay ends none .standard relay (Nat.le_refl 5)

end Stream

end Lookahead
