import Lookahead.Proofs.Ranges
import Lookahead.Source.Scripted

/-!
# Tokens that locate themselves

A token is stamped with the number of its slot when it is buffered, whatever index its source had
given it, and the end-of-stream token with the number of the slot behind the last one
(`Reachable.stamped`). Whatever tokens a stream answers with are buffered or are that one
(`holds_of_exec`), and they stay where they are until another source is installed. So two of them
say for good where the text between them is (`textBetween_of_handedOut`).
-/

namespace Lookahead

/-- The tokens in an answer. -/
def Answer.tokenList {σ : Type} : Answer σ → List Token
  | .token? token => token.toList
  | .tokens list => list
  | _ => []

namespace Stream

variable {σ : Type}

/-! ## Stamps -/

/-- What is buffered has the number of its slot as index, and the end-of-stream token that of the
slot behind the last one. -/
structure Stamped (s : Stream σ) : Prop where
  buffered : ∀ (i : Nat) (t : Token), s.buffer[i]? = some t → t.index = some i
  ended : ∀ t : Token, s.endToken = some t → t.index = some s.size

theorem Stamped.receive {s : Stream σ} (h : s.Stamped) (wet : s.isDry = false) (t : Token) :
    (s.receive t).Stamped := by
  have absent : s.endToken = none := endToken_of_wet wet
  cases ends : t.isEnd with
  | true =>
    obtain ⟨buffer, endToken⟩ := s.receive_of_isEnd ends
    constructor
    · rw [buffer]
      exact h.buffered
    · have size : (s.receive t).size = s.size := congrArg Array.size buffer
      rw [endToken, size]
      intro given ended
      cases ended
      rfl
  | false =>
    have endToken : (s.receive t).endToken = none := (s.receive_endToken ends).trans absent
    refine ⟨?_, by simp [endToken]⟩
    -- a token that is dropped takes no slot
    by_cases kept : ∃ channel, s.policy.judge t = .keep channel
    · obtain ⟨channel, kept⟩ := kept
      rw [s.receive_of_keep ends kept]
      intro i token held
      rw [Array.getElem?_push] at held
      split at held
      · next last =>
        cases held
        rw [last]
        rfl
      · exact h.buffered i token held
    · rw [s.receive_of_drop ends fun channel keep => kept ⟨channel, keep⟩]
      exact h.buffered

variable [TokenSource σ]

theorem Motion.stamped {s t : Stream σ} (motion : Motion s t) (h : s.Stamped) : t.Stamped := by
  cases motion with
  | pulled step =>
    obtain ⟨token, source, -, rfl⟩ := step.exists_token
    exact Stamped.receive (s := { s with source }) ⟨h.buffered, h.ended⟩ step.1 token
  | failed _ _ => exact ⟨h.buffered, h.ended⟩
  | placed _ => exact ⟨h.buffered, h.ended⟩
  | marked _ => exact ⟨h.buffered, h.ended⟩

theorem Reachable.stamped {s : Stream σ} (h : Reachable s) : s.Stamped := by
  refine h.invariant ?_ Motion.stamped ?_ ?_
  · intro policy source journal
    refine ⟨fun i t held => ?_, fun t ended => ?_⟩
    · cases held
    · cases ended
  · exact fun _ _ stamped => ⟨stamped.buffered, stamped.ended⟩
  · exact fun _ stamped => ⟨stamped.buffered, stamped.ended⟩

/-! ## Tokens in answers -/

/-- The token is buffered, or it is the end-of-stream token. -/
def Holds (s : Stream σ) (token : Token) : Prop :=
  (∃ i : Nat, s.buffer[i]? = some token) ∨ s.endToken = some token

theorem holds_of_lookahead {limit : Nat} {k : Int} {s t : Stream σ} {found : Option Token}
    (h : (lookahead limit k).perform s = (.ok found, t)) : ∀ token ∈ found, t.Holds token := by
  intro token seen
  match k with
  | .ofNat 0 =>
    cases h
    cases seen
  | .ofNat (k + 1) =>
    rcases StreamM.perform_bind_ok h with ⟨p, u, -, h⟩
    rcases StreamM.perform_bind_ok h with ⟨i, u, -, h⟩
    cases h
    rcases held : t.buffer[i]? with _ | token'
    · rw [held] at seen
      exact Or.inr seen
    · rw [held] at seen
      cases seen
      exact Or.inl ⟨i, held⟩
  | .negSucc k =>
    rcases StreamM.perform_bind_ok h with ⟨p, u, -, h⟩
    cases h
    obtain ⟨i, -, held⟩ := Option.bind_eq_some_iff.1 seen
    exact Or.inl ⟨i, held⟩

omit [TokenSource σ] in
theorem holds_of_listed {op : StreamM σ (List Token)}
    (sublist : ∀ {s t found}, op.perform s = (.ok found, t) → found.Sublist t.buffer.toList)
    {s t : Stream σ} {a : Answer σ}
    (h : (op >>= fun found => pure (.tokens found)).perform s = (.ok a, t)) :
    ∀ token ∈ a.tokenList, t.Holds token := by
  rcases StreamM.perform_bind_ok h with ⟨found, u, listed, h⟩
  cases h
  intro token given
  obtain ⟨i, held⟩ := List.mem_iff_getElem?.1 ((sublist listed).subset given)
  exact Or.inl ⟨i, by rwa [Array.getElem?_toList] at held⟩

/-- Whatever tokens an operation answers with, the stream holds them. -/
theorem holds_of_exec {limit : Nat} {c : Command σ} (op : c.isOperation = true) {s t : Stream σ}
    {a : Answer σ} (h : (exec limit c).perform s = (.ok a, t)) :
    ∀ token ∈ a.tokenList, t.Holds token := by
  intro token given
  cases c with
  | lookahead k =>
    rcases StreamM.perform_bind_ok h with ⟨found, u, looked, h⟩
    cases h
    exact holds_of_lookahead looked token (Option.mem_toList.1 given)
  | get i =>
    rcases StreamM.perform_bind_ok h with ⟨found, u, got, h⟩
    cases h
    obtain ⟨-, rfl⟩ := search_ok got
    exact Or.inl ⟨i, Option.mem_toList.1 given⟩
  | tokens => exact holds_of_listed tokens_sublist h token given
  | range first last => exact holds_of_listed range_sublist h token given
  | rangeInSet first last kinds => exact holds_of_listed rangeWhere_sublist h token given
  | rangeOfKinds first last kinds => exact holds_of_listed rangeWhere_sublist h token given
  | rangeOfKind first last kind => exact holds_of_listed rangeWhere_sublist h token given
  | release marker =>
    cases h
    cases given
  | pullSource => cases op
  | replace source => cases op
  | _ =>
    rcases StreamM.perform_bind_ok h with ⟨a, u, -, h⟩
    cases h
    cases given

/-! ## Where tokens are -/

/-- Token handed out by the operation that left stream `t`, at a time `v` when no other source has
been installed since. -/
structure HandedOut (t v : Stream σ) (token : Token) : Prop where
  answered : ∃ (s : Stream σ) (limit : Nat) (c : Command σ) (a : Answer σ), Reachable s ∧
    c.isOperation = true ∧ (exec limit c).perform s = (.ok a, t) ∧ token ∈ a.tokenList
  later : Later t v

namespace HandedOut

variable {t v : Stream σ} {token : Token}

theorem reachable (h : HandedOut t v token) : Reachable t := by
  obtain ⟨s, limit, c, a, before, -, answered, -⟩ := h.answered
  exact before.of_perform answered

theorem holds (h : HandedOut t v token) : t.Holds token := by
  obtain ⟨s, limit, c, a, -, op, answered, given⟩ := h.answered
  exact holds_of_exec op answered token given

/-- In whatever slot the token was, there it is, and this is its index. -/
theorem slot (h : HandedOut t v token) {i : Nat} (held : t.buffer[i]? = some token) :
    token.isEnd = false ∧ token.index = some i ∧ v.buffer[i]? = some token := by
  have below : i < t.size := (Array.getElem?_eq_some_iff.1 held).1
  refine ⟨h.reachable.sound.buffered token (Array.mem_of_getElem? held),
    h.reachable.stamped.buffered i token held, ?_⟩
  rw [h.later.extends.within.getElem?_eq below, held]

theorem exists_slot (h : HandedOut t v token) (noEnd : token.isEnd = false) :
    ∃ i : Nat, t.buffer[i]? = some token := by
  rcases h.holds with held | ended
  · exact held
  · rw [h.reachable.sound.ended token ended] at noEnd
    cases noEnd

/-- The end-of-stream token is handed out when the source has ended, and its index is the size of
the buffer for good. -/
theorem atEnd (h : HandedOut t v token) (isEnd : token.isEnd = true) :
    token.index = some v.size ∧ v.isDry = true := by
  rcases h.holds with ⟨i, held⟩ | ended
  · rw [(h.slot held).1] at isEnd
    cases isEnd
  · have dry : t.isDry = true := by rw [isDry, ended, Option.isSome_some]
    refine ⟨?_, h.later.extends.isDry dry⟩
    rw [h.later.extends.size_eq dry, h.reachable.stamped.ended token ended]

/-- No token is handed out with an index that takes a pull to come to. -/
theorem exists_index (h : HandedOut t v token) :
    ∃ i, token.index = some i ∧ (v.isDry || decide (i < v.size)) = true := by
  cases ends : token.isEnd with
  | true =>
    obtain ⟨index, dry⟩ := h.atEnd ends
    exact ⟨v.size, index, by rw [dry, Bool.true_or]⟩
  | false =>
    obtain ⟨i, held⟩ := h.exists_slot ends
    obtain ⟨-, index, held⟩ := h.slot held
    have below : i < v.size := (Array.getElem?_eq_some_iff.1 held).1
    exact ⟨i, index, by rw [decide_eq_true below, Bool.or_true]⟩

end HandedOut

/-! ## The text between tokens -/

theorem perform_textBetween {v : Stream σ} {a b : Token} {i j : Nat} (first : a.index = some i)
    (last : b.index = some j) (stops : (v.isDry || decide (j < v.size)) = true) (more : Nat) :
    (textBetween more a b).perform v = (.ok (joinTexts (v.slots i j)), v) := by
  unfold textBetween
  rw [first, last]
  by_cases le : i ≤ j
  · show (textRange more i j).perform v = _
    rw [textRange_of_le le, readSlots, perform_search, perform_pullUntil_of_ready stops]
  · have empty : v.slots i j = [] := slots_of_lt (Nat.lt_of_not_le le)
    rw [empty]
    show (textRange more i j).perform v = _
    unfold textRange range
    rw [if_pos (Nat.lt_of_not_le le)]
    rfl

/-- Whatever tokens a stream has handed out, and whatever has been done to it since short of
installing another source, the text between two of them is there without a pull: it is that of the
slots from the first one's to the last one's, both included, up to the end of the buffer if the last
one ends the source, and there is none if the last one comes before the first one or the first one
ends the source. -/
theorem textBetween_of_handedOut {t u v : Stream σ} {a b : Token} (first : HandedOut t v a)
    (last : HandedOut u v b) :
    (a.isEnd = false → ∃ i, a.index = some i ∧ t.buffer[i]? = some a) ∧
    (b.isEnd = false → ∃ j, b.index = some j ∧ u.buffer[j]? = some b) ∧
    ∃ text, (∀ more, (exec more (.textBetween a b)).perform v = (.ok (.text text), v)) ∧
      (∀ i j, t.buffer[i]? = some a → u.buffer[j]? = some b →
        (i ≤ j → text = joinTexts (v.slots i j) ∧ (∃ rest, text = a.text ++ rest) ∧
          ∃ front, text = front ++ b.text) ∧
        (j < i → text = "")) ∧
      (∀ i, t.buffer[i]? = some a → b.isEnd = true →
        text = joinTexts (v.buffer.toList.drop i)) ∧
      (a.isEnd = true → text = "") := by
  refine ⟨fun noEnd => ?_, fun noEnd => ?_, ?_⟩
  · obtain ⟨i, held⟩ := first.exists_slot noEnd
    exact ⟨i, (first.slot held).2.1, held⟩
  · obtain ⟨j, held⟩ := last.exists_slot noEnd
    exact ⟨j, (last.slot held).2.1, held⟩
  · -- the text is the same expression in all cases, only the two indices differ
    obtain ⟨i, index, -⟩ := first.exists_index
    obtain ⟨j, index', stops⟩ := last.exists_index
    refine ⟨joinTexts (v.slots i j), fun more => ?_, ?_, ?_, ?_⟩
    · exact StreamM.perform_bind_of_ok (perform_textBetween index index' stops more) _
    · intro m n held held'
      obtain ⟨-, here, held⟩ := first.slot held
      obtain ⟨-, there, held'⟩ := last.slot held'
      cases index.symm.trans here
      cases index'.symm.trans there
      refine ⟨fun le => ⟨rfl, ?_, ?_⟩, fun lt => by rw [slots_of_lt lt]; rfl⟩
      · obtain ⟨rest, split⟩ := slots_first le held
        exact ⟨joinTexts rest, by rw [split, joinTexts_append, joinTexts_singleton]⟩
      · obtain ⟨front, split⟩ := slots_last le held'
        exact ⟨joinTexts front, by rw [split, joinTexts_append, joinTexts_singleton]⟩
    · intro m held isEnd
      obtain ⟨-, here, -⟩ := first.slot held
      cases index.symm.trans here
      cases index'.symm.trans (last.atEnd isEnd).1
      rw [slots_of_size_le (Nat.le_succ _)]
    · intro isEnd
      cases index.symm.trans (first.atEnd isEnd).1
      rw [slots_eq, List.drop_of_length_le, List.take_nil]
      · rfl
      · exact Nat.le_of_eq Array.length_toList

/-- Two words with a blank between them, and something of a discarded kind. The source had an index
of its own for the first word, and fails before it comes to the second one. In the end words are
rerouted. -/
theorem textBetween_of_handedOut_scripted :
    let word := fun text => Token.plain 7 text .unplaced
    let error := SourceError.lexical "?"
    let source : ScriptedSource :=
      { pending :=
          [.ok { word "a" with index := some 9 }, .error error, .ok (.plain 6 "#" .unplaced),
            .ok (.onChannel 5 .hidden " " .unplaced), .ok (word "b"), .ok (.endOfStream .unplaced)]
        tail := .error error, name := none }
    let s := start (Policy.standard.discard 6) source
    let t := ((lookahead 9 1).perform s).2
    let failed := ((get? 9 2).perform t).2
    let u := ((get? 9 2).perform failed).2
    let w := ((lookahead 9 3).perform u).2
    let v := ((exec 9 (.reroute 7 .hidden)).perform w).2
    let a := (word "a").stamp 0
    let b := (word "b").stamp 2
    let ended := (Token.endOfStream .unplaced).stamp 3
    HandedOut t v a ∧ HandedOut u v b ∧ HandedOut w v ended ∧
      (exec 9 (.get 2)).perform t = (.error (.failed error), failed) ∧
      (0 ≤ 2 ∧ (exec 0 (.textBetween a b)).perform v = (.ok (.text "a b"), v)) ∧
      (exec 0 (.textBetween b a)).perform v = (.ok (.text ""), v) ∧
      (ended.isEnd = true ∧
        (exec 0 (.textBetween a ended)).perform v = (.ok (.text "a b"), v)) ∧
      (exec 0 (.textBetween ended a)).perform v = (.ok (.text ""), v) := by
  intro word error source s t failed u w v a b ended
  have result : ((lookahead 9 1).perform s).1 = .ok (some a) := by decide +kernel
  have result' : ((get? 9 2).perform t).1 = .error (.failed error) := by decide +kernel
  have result'' : ((get? 9 2).perform failed).1 = .ok (some b) := by decide +kernel
  have result''' : ((lookahead 9 3).perform u).1 = .ok (some ended) := by decide +kernel
  have asked : (exec 9 (.lookahead 1)).perform s = (.ok (.token? (some a)), t) :=
    StreamM.perform_bind_of_ok (by rw [← result]) _
  have missed : (exec 9 (.get 2)).perform t = (.error (.failed error), failed) :=
    StreamM.perform_bind_of_error (by rw [← result']) _
  have retried : (exec 9 (.get 2)).perform failed = (.ok (.token? (some b)), u) :=
    StreamM.perform_bind_of_ok (by rw [← result'']) _
  have looked : (exec 9 (.lookahead 3)).perform u = (.ok (.token? (some ended)), w) :=
    StreamM.perform_bind_of_ok (by rw [← result''']) _
  have after : Later w v := .single ⟨9, .reroute 7 .hidden, rfl, rfl⟩
  have after' : Later u v := (later_of_perform rfl looked).trans after
  have after'' : Later t v :=
    (later_of_perform rfl missed).trans ((later_of_perform rfl retried).trans after')
  have begun : Reachable s := .start _ source
  have first : HandedOut t v a :=
    ⟨⟨s, 9, .lookahead 1, _, begun, rfl, asked, List.mem_singleton_self a⟩, after''⟩
  have reached : Reachable failed := first.reachable.of_perform missed
  have second : HandedOut u v b :=
    ⟨⟨failed, 9, .get 2, _, reached, rfl, retried, List.mem_singleton_self b⟩, after'⟩
  have last : HandedOut w v ended :=
    ⟨⟨u, 9, .lookahead 3, _, second.reachable, rfl, looked, List.mem_singleton_self ended⟩, after⟩
  have held : t.buffer[0]? = some a := by decide +kernel
  have held' : u.buffer[2]? = some b := by decide +kernel
  have between : joinTexts (v.slots 0 2) = "a b" := by decide +kernel
  have rest : joinTexts (v.buffer.toList.drop 0) = "a b" := by decide +kernel
  refine ⟨first, second, last, missed, ⟨by decide, ?_⟩, ?_, ⟨rfl, ?_⟩, ?_⟩
  · obtain ⟨-, -, text, performed, inside, -, -⟩ := textBetween_of_handedOut first second
    rw [performed 0, ((inside 0 2 held held').1 (by decide)).1, between]
  · obtain ⟨-, -, text, performed, inside, -, -⟩ := textBetween_of_handedOut second first
    rw [performed 0, (inside 2 0 held' held).2 (by decide)]
  · obtain ⟨-, -, text, performed, -, toEnd, -⟩ := textBetween_of_handedOut first last
    rw [performed 0, toEnd 0 held rfl, rest]
  · obtain ⟨-, -, text, performed, -, -, fromEnd⟩ := textBetween_of_handedOut last first
    rw [performed 0, fromEnd rfl]

end Stream

end Lookahead
