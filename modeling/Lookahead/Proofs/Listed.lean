import Lookahead.Proofs.Permanence
import Lookahead.Proofs.Replacement

/-!
# What sources over a list yield

What a `ListedSource` answers to a pull is determined by its list and the number of pulls before it
(`reply`): it goes through the list up to the first end-of-stream token. Sources whose lists agree
up to an end-of-stream token are `Twins`, which answer alike and stay twins. A stream sees nothing
of its source but the answers, so nothing is seen of what comes after that token
(`yields_to_first_end`).
-/

namespace Lookahead

/-! ## Sources that pulls cannot tell apart -/

/-- A relation between sources that answer alike, which pulls keep. -/
structure Indistinct {σ : Type} [TokenSource σ] (R : σ → σ → Prop) : Prop where
  name : ∀ {a b}, R a b → TokenSource.name a = TokenSource.name b
  result : ∀ {a b}, R a b → (TokenSource.next a).1 = (TokenSource.next b).1
  rest : ∀ {a b}, R a b → R (TokenSource.next a).2 (TokenSource.next b).2

/-- One pull of each. -/
theorem Indistinct.next {σ : Type} [TokenSource σ] {R : σ → σ → Prop} (same : Indistinct R) {a b : σ}
    (h : R a b) :
    ∃ r a' b', TokenSource.next a = (r, a') ∧ TokenSource.next b = (r, b') ∧ R a' b' :=
  ⟨(TokenSource.next a).1, (TokenSource.next a).2, (TokenSource.next b).2, rfl,
    Prod.ext (same.result h).symm rfl, same.rest h⟩

/-- Related sources that have been pulled equally often. -/
def Metered.Both {σ : Type} (R : σ → σ → Prop) (m m' : Metered σ) : Prop :=
  R m.source m'.source ∧ m.pulls = m'.pulls

/-- Counting the pulls does not tell sources apart. -/
theorem Indistinct.metered {σ : Type} [TokenSource σ] {R : σ → σ → Prop} (same : Indistinct R) :
    Indistinct (Metered.Both R) where
  name h := same.name h.1
  result h := same.result h.1
  rest h := ⟨same.rest h.1, congrArg Nat.succ h.2⟩

namespace Stream

/-- The streams differ in their sources at most, and these are related. -/
inductive Over {σ : Type} (R : σ → σ → Prop) : Stream σ → Stream σ → Prop
  | intro (s : Stream σ) {a b : σ} : R a b → Over R { s with source := a } { s with source := b }

/-- Steps that take no notice of the source keep streams over related sources. -/
theorem lockstep_over {σ : Type} {R : σ → σ → Prop} {f : Stream σ → Stream σ}
    (ignores : ∀ s a, f { s with source := a } = { f s with source := a }) :
    Lockstep (Over R) (Same (Over R)) (Over R) (modify f : StreamM σ PUnit) (modify f) := by
  refine lockstep_modify ?_
  rintro _ _ @⟨s, a, b, related⟩
  rw [ignores s a, ignores s b]
  exact ⟨rfl, .intro (f s) related⟩

theorem Over.facts {σ : Type} {R : σ → σ → Prop} {s s' : Stream (Metered σ)}
    (h : Over (Metered.Both R) s s') :
    s.journal = s'.journal ∧ s.index = s'.index ∧ s.size = s'.size ∧
      s.source.pulls = s'.source.pulls := by
  cases h with
  | intro s related => exact ⟨rfl, rfl, rfl, related.2⟩

theorem receive_setSource {σ : Type} (t : Token) (s : Stream σ) (a : σ) :
    receive { s with source := a } t = { receive s t with source := a } := by
  unfold receive
  split
  · rfl
  · dsimp only
    cases s.policy.judge t <;> rfl

theorem discard_setSource {σ : Type} (kind : Kind) (s : Stream σ) (a : σ) :
    discard { s with source := a } kind = { discard s kind with source := a } := by
  unfold discard
  dsimp only
  split <;> rfl

section

variable {σ : Type} [TokenSource σ] {R : σ → σ → Prop} (same : Indistinct R)

include same

theorem bisimulation_over : Bisimulation (Over R) where
  policy := by rintro _ _ ⟨s, -⟩; exact .refl s.policy
  name := by rintro _ _ ⟨_, related⟩; exact same.name related
  buffer := by rintro _ _ ⟨s, -⟩; rfl
  endToken := by rintro _ _ ⟨s, -⟩; rfl
  cursor := by rintro _ _ ⟨s, -⟩; rfl
  lastMark := by rintro _ _ ⟨s, -⟩; rfl
  pull := by
    rintro _ _ ⟨s, related⟩ -
    obtain ⟨e | t, a, b, here, there, rest⟩ := same.next related
    · rw [perform_pull_error here, perform_pull_error there]
      exact .interrupted (.intro (s.note (.failed e)) rest)
    · rw [perform_pull_ok here, perform_pull_ok there]
      have received (c : σ) : receive { s with source := c } t = { receive s t with source := c } :=
        receive_setSource t s c
      exact .answered (received a ▸ received b ▸ .intro (s.receive t) rest)
  setCursor := by rintro _ _ cursor ⟨s, related⟩; exact .intro { s with cursor } related
  setMark := by rintro _ _ lastMark ⟨s, related⟩; exact .intro { s with lastMark } related

theorem exec_over (limit : Nat) {c : Command σ} (keeps : c.keepsSource = true) :
    Lockstep (Over R) (Same (Over R)) (Over R) (exec limit c) (exec limit c) := by
  by_cases op : c.isOperation = true
  · exact (bisimulation_over same).exec limit op
  · cases c with
    | discard kind => exact same_bind_pure _ (lockstep_over (discard_setSource kind))
    | reroute kind channel => exact same_bind_pure _ (lockstep_over fun _ _ => rfl)
    | dropOffChannel drop => exact same_bind_pure _ (lockstep_over fun _ _ => rfl)
    | pullSource =>
      apply same_bind_pure
      rintro _ _ ⟨s, related⟩
      obtain ⟨e | t, a, b, here, there, rest⟩ := same.next related
      · rw [perform_pullSource_error here, perform_pullSource_error there]
        exact .interrupted (.intro s rest)
      · rw [perform_pullSource_ok here, perform_pullSource_ok there]
        exact .answered ⟨rfl, .intro s rest⟩
    | replace other => cases keeps
    | _ => exact absurd rfl op

/-- Nothing is seen of the source but its answers, unless the source itself is given away. -/
theorem watch_over (limit : Nat) {cs : List (Command (Metered σ))}
    (keeps : ∀ c ∈ cs, c.keepsSource = true) {s s' : Stream (Metered σ)}
    (h : Over (Metered.Both R) s s') : watch limit cs s = watch limit cs s' := by
  induction cs generalizing s s' with
  | nil => rfl
  | cons c rest ih =>
    obtain ⟨kept, keeps⟩ := List.forall_mem_cons.1 keeps
    obtain ⟨result, after⟩ := (exec_over same.metered limit kept h).same
    have first : (once (exec limit c) s).seen = (once (exec limit c) s').seen := by
      obtain ⟨journal, -, -, -⟩ := h.facts
      obtain ⟨journal', index, size, pulls⟩ := after.facts
      simp only [once, Outcome.seen, recordsSince, result, journal, journal', index, size, pulls]
    rw [watch_cons, watch_cons, first, ih keeps after]

end

end Stream

/-! ## Sources over lists -/

/-- A source that a pull leaves as it is stays so. -/
theorem TokenSource.after_of_fixed {σ : Type} [TokenSource σ] {s : σ} (fixed : (next s).2 = s)
    (n : Nat) : after s n = s := by
  induction n with
  | zero => rfl
  | succ n ih => rw [after, fixed, ih]

namespace ListedSource

/-- What pull `n` of a list gives: the first end-of-stream token, if it is among the first `n + 1`
tokens, and otherwise token `n`. A list without an end counts `total` tokens. -/
def reply (tokens : List Token) (total n : Nat) : Pulled :=
  match (tokens.take (n + 1)).find? Token.isEnd, tokens[n]? with
  | some e, _ => .ok e
  | none, some t => .ok t
  | none, none => .error (.missingEnd total)

section

variable {t : Token} {rest : List Token} {total n : Nat}

theorem reply_nil : reply [] total n = .error (.missingEnd total) := by simp [reply]

theorem reply_of_isEnd (ends : t.isEnd = true) : reply (t :: rest) total n = .ok t := by
  simp [reply, ends]

theorem reply_zero (goes_on : t.isEnd = false) : reply (t :: rest) total 0 = .ok t := by
  simp [reply, goes_on]

theorem reply_succ (goes_on : t.isEnd = false) :
    reply (t :: rest) total (n + 1) = reply rest total n := by
  simp [reply, goes_on]

end

/-- A source that has come to its end gives it again. -/
theorem next_of_endToken {s : ListedSource} {e : Token} (ended : s.endToken = some e) :
    TokenSource.next s = (.ok e, s) := by
  show s.next = _
  rw [next, ended]

/-- What the pulls of a source give that has not come to its end, and how many tokens they hand
out. -/
theorem yields (tokens : List Token) (produced : Nat) (name : Option String) (n : Nat) :
    let s := TokenSource.after (ListedSource.mk tokens none produced name) n
    (TokenSource.next s).1 = reply tokens (produced + tokens.length) n ∧
      s.produced = produced + min n (tokens.takeWhile fun t => !t.isEnd).length := by
  induction tokens generalizing produced n with
  | nil =>
    rw [TokenSource.after_of_fixed (s := ListedSource.mk [] none produced name) rfl, reply_nil]
    exact ⟨rfl, (Nat.min_zero n).symm ▸ rfl⟩
  | cons t rest ih =>
    have first : TokenSource.next (ListedSource.mk (t :: rest) none produced name) =
        if t.isEnd then (.ok t, ⟨rest, some t, produced, name⟩)
        else (.ok t, ⟨rest, none, produced + 1, name⟩) := rfl
    cases ends : t.isEnd with
    | true =>
      rw [ends, if_pos rfl] at first
      have none_before : ((t :: rest).takeWhile fun t => !t.isEnd) = [] := by simp [ends]
      rw [reply_of_isEnd ends, none_before]
      cases n with
      | zero => exact ⟨congrArg Prod.fst first, rfl⟩
      | succ n =>
        have again : TokenSource.next (ListedSource.mk rest (some t) produced name) = _ :=
          next_of_endToken rfl
        rw [TokenSource.after, first, TokenSource.after_of_fixed (congrArg Prod.snd again)]
        exact ⟨congrArg Prod.fst again, rfl⟩
    | false =>
      rw [ends, if_neg Bool.false_ne_true] at first
      cases n with
      | zero =>
        rw [reply_zero ends, Nat.zero_min]
        exact ⟨congrArg Prod.fst first, rfl⟩
      | succ n =>
        have taken : ((t :: rest).takeWhile fun t => !t.isEnd) =
            t :: rest.takeWhile fun t => !t.isEnd := by simp [ends]
        obtain ⟨result, count⟩ := ih (produced + 1) n
        rw [TokenSource.after, first, reply_succ ends, taken]
        refine ⟨result.trans ?_, count.trans ?_⟩
        · rw [List.length_cons, Nat.add_right_comm, Nat.add_assoc]
        · rw [List.length_cons, Nat.succ_min_succ, Nat.add_right_comm, Nat.add_assoc]

/-- The sources are past the same end-of-stream token, or will come to one by the same tokens. -/
inductive Twins : ListedSource → ListedSource → Prop
  | ended (rest rest' : List Token) (e : Token) (produced : Nat) (name : Option String) :
    Twins ⟨rest, some e, produced, name⟩ ⟨rest', some e, produced, name⟩
  | toCome (before : List Token) {e : Token} (ends : e.isEnd = true) (rest rest' : List Token)
    (produced : Nat) (name : Option String) :
    Twins ⟨before ++ e :: rest, none, produced, name⟩ ⟨before ++ e :: rest', none, produced, name⟩

theorem Twins.next {s s' : ListedSource} (h : Twins s s') :
    s.next.1 = s'.next.1 ∧ Twins s.next.2 s'.next.2 := by
  cases h with
  | ended => exact ⟨rfl, .ended ..⟩
  | @toCome before e ends rest rest' =>
    cases before with
    | nil =>
      simp only [List.nil_append, ListedSource.next, if_pos ends]
      exact ⟨trivial, .ended ..⟩
    | cons t before =>
      simp only [List.cons_append, ListedSource.next]
      split
      · exact ⟨rfl, .ended ..⟩
      · exact ⟨rfl, .toCome before ends ..⟩

theorem indistinct_twins : Indistinct Twins where
  name h := by cases h <;> rfl
  result h := h.next.1
  rest h := h.next.2

/-- A source over a list gives the tokens of the list up to the first end-of-stream token and then
only that one, or an error that counts the whole list if there is none, and it counts the tokens
before the end. So whatever comes after the end in the list, streams over it are seen to be the
same, unless the source is given away. -/
theorem yields_to_first_end (name : Option String) :
    (∀ (tokens : List Token) (n : Nat),
      let s := TokenSource.after { ofList tokens with name } n
      (TokenSource.next s).1 = reply tokens tokens.length n ∧
        s.produced = min n (tokens.takeWhile fun t => !t.isEnd).length) ∧
      ∀ (before : List Token) (e : Token) (rest rest' : List Token), e.isEnd = true →
        ∀ (limit pulls : Nat) (cs : List (Command (Metered ListedSource)))
          (s : Stream (Metered ListedSource)), (∀ c ∈ cs, c.keepsSource = true) →
          Stream.watch limit cs
              { s with source := ⟨{ ofList (before ++ e :: rest) with name }, pulls⟩ } =
            Stream.watch limit cs
              { s with source := ⟨{ ofList (before ++ e :: rest') with name }, pulls⟩ } := by
  refine ⟨fun tokens n => ?_, ?_⟩
  · have yielded := yields tokens 0 name n
    rw [Nat.zero_add, Nat.zero_add] at yielded
    exact yielded
  · intro before e rest rest' ends limit pulls cs s keeps
    have twins : Twins { ofList (before ++ e :: rest) with name }
        { ofList (before ++ e :: rest') with name } := .toCome before ends rest rest' 0 name
    exact Stream.watch_over indistinct_twins limit keeps (.intro s ⟨twins, rfl⟩)

/-- One list goes on after its end: nothing is seen of it, also when the source is pulled
directly. -/
theorem yields_to_first_end_at_trailing_token :
    let before := [Token.plain 5 "a" .unplaced]
    let e := Token.endOfStream .unplaced
    let cs : List (Command (Metered ListedSource)) := [.consume, .fill, .pullSource, .text]
    let s : Stream (Metered ListedSource) := .start .standard (.fresh (ofList []))
    let more := [Token.plain 6 "b" .unplaced]
    e.isEnd = true ∧ (∀ c ∈ cs, c.keepsSource = true) ∧
      Stream.watch 4 cs { s with source := .fresh (ofList (before ++ e :: more)) } =
        Stream.watch 4 cs { s with source := .fresh (ofList (before ++ [e])) } := by
  intro before e cs s more
  have ends : e.isEnd = true := rfl
  have keeps : ∀ c ∈ cs, c.keepsSource = true := by simp [cs, Command.keepsSource]
  exact ⟨ends, keeps, (yields_to_first_end none).2 before e more [] ends 4 0 cs s keeps⟩

end ListedSource

end Lookahead
