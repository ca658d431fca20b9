import Lookahead.Proofs.Permanence

/-!
# Commands come to an end

A source that gives `n` more tokens and then ends or fails is pulled at most `n + 1` times by any
command (`exec_terminates`). This holds under every policy, also one that drops every token, and
whatever slot or number of steps is asked for. What asks for all tokens is answered if and only if
the source has ended or ends before it fails.
-/

namespace Lookahead.Stream

variable {σ : Type} [TokenSource σ]

theorem exists_stops {s : Stream σ} {n : Nat} {last : Pulled}
    (stops : TokenSource.StopsAfter s.source n last) :
    ∃ e m, m ≤ n + 1 ∧ Stops e m s ∧
      (e = none ↔ s.isDry = true ∨ ∃ token, last = .ok token) := by
  cases dry : s.isDry with
  | true => exact ⟨none, 0, Nat.zero_le _, .dry dry, by simp⟩
  | false =>
    obtain ⟨e, stops, ended⟩ := stops_of_wet stops rfl dry
    exact ⟨e, n + 1, Nat.le_refl _, stops, by simpa using ended⟩

omit [TokenSource σ] in
theorem isOperation_of_takesAll {c : Command σ} (all : c.takesAll = true) :
    c.isOperation = true := by
  cases c with
  | fill => rfl
  | tokens => rfl
  | text => rfl
  | _ => cases all

/-- The commands that are no operations take one pull at most, behind the stream's back, and do not
depend on the pulls allowed. -/
theorem other_terminates {c : Command (Metered σ)} (other : c.isOperation = false)
    (s : Stream (Metered σ)) :
    ∃ result t, (∀ limit, (exec limit c).perform s = (result, t)) ∧
      result ≠ .error .outOfPulls ∧
      (c.keepsSource = true → ∃ m, m ≤ 1 ∧ t.source = TokenSource.after s.source m) := by
  cases c with
  | discard kind =>
    refine ⟨.ok .nothing, s.discard kind, fun _ => rfl, by simp, fun _ => ⟨0, Nat.zero_le 1, ?_⟩⟩
    unfold discard
    split <;> rfl
  | reroute kind channel =>
    exact ⟨.ok .nothing, _, fun _ => rfl, by simp, fun _ => ⟨0, Nat.zero_le 1, rfl⟩⟩
  | dropOffChannel drop =>
    exact ⟨.ok .nothing, _, fun _ => rfl, by simp, fun _ => ⟨0, Nat.zero_le 1, rfl⟩⟩
  | pullSource =>
    rcases next : TokenSource.next s.source with ⟨e | token, source⟩
    · have pulled := perform_pullSource_error next
      refine ⟨.error (.failed e), _, fun _ => StreamM.perform_bind_of_error pulled _, by simp,
        fun _ => ⟨1, Nat.le_refl 1, (congrArg Prod.snd next).symm⟩⟩
    · have pulled := perform_pullSource_ok next
      refine ⟨.ok (.token? (some token)), _, fun _ => StreamM.perform_bind_of_ok pulled _,
        by simp, fun _ => ⟨1, Nat.le_refl 1, (congrArg Prod.snd next).symm⟩⟩
  | replace source =>
    refine ⟨.ok (.source s.source), _, fun _ => rfl, by simp, fun keeps => ?_⟩
    cases keeps
  | _ => cases other

/-- From a source that gives `n` more tokens and then ends or fails, every command comes to an end
after at most `n + 1` pulls, however many more it is allowed. What asks for all tokens is answered
if and only if the source has ended already or ends before it fails, and then it has ended. -/
theorem exec_terminates {s : Stream (Metered σ)} (reachable : Reachable s) {n : Nat} {last : Pulled}
    (stops : TokenSource.StopsAfter s.source n last) (c : Command (Metered σ)) :
    (∃ result t, (∀ limit, n < limit → (exec limit c).perform s = (result, t)) ∧
        result ≠ .error .outOfPulls ∧
        (c.keepsSource = true → ∃ m, m ≤ n + 1 ∧
          t.source = ⟨TokenSource.after s.source.source m, s.source.pulls + m⟩)) ∧
      (c.takesAll = true → ∀ limit, n < limit →
        (Answers (exec limit c) s ↔ s.isDry = true ∨ ∃ token, last = .ok token) ∧
        ∀ a t, (exec limit c).perform s = (.ok a, t) → t.isDry = true) := by
  obtain ⟨e, m, le, stops, ended⟩ := exists_stops stops
  refine ⟨?_, fun all limit more => ⟨⟨fun answers => ?_, fun before => ?_⟩, fun a t answered => ?_⟩⟩
  · by_cases op : c.isOperation = true
    · obtain ⟨⟨result, t⟩, performed, concluded⟩ := concludes_exec op reachable.sound stops
      refine ⟨result, t, fun limit more => performed limit (Nat.le_trans le more), ?_, fun _ => ?_⟩
      · cases concluded with
        | answered _ => simp
        | failed _ _ => simp
      · cases concluded with
        | answered nearer =>
          obtain ⟨k, left, source⟩ := nearer.source
          exact ⟨k, by omega, source.trans (TokenSource.after_metered s.source k)⟩
        | failed _ source =>
          exact ⟨m, le, source.trans (TokenSource.after_metered s.source m)⟩
    · obtain ⟨result, t, performed, inTime, source⟩ :=
        other_terminates (Bool.eq_false_iff.2 op) s
      refine ⟨result, t, fun limit _ => performed limit, inTime, fun keeps => ?_⟩
      obtain ⟨k, once, source⟩ := source keeps
      exact ⟨k, by omega, source.trans (TokenSource.after_metered s.source k)⟩
  · obtain ⟨a, t, answered⟩ := answers
    have dry := dries_exec limit all answered
    obtain ⟨r, performed, concluded⟩ :=
      concludes_exec (isOperation_of_takesAll all) reachable.sound stops
    rw [← performed limit (Nat.le_trans le more), answered] at concluded
    cases concluded with
    | answered nearer =>
      cases e with
      | none => exact ended.1 rfl
      | some e =>
        rw [nearer.stops.wet] at dry
        cases dry
  · obtain rfl := ended.2 before
    exact (concludes_exec (isOperation_of_takesAll all) reachable.sound stops).answers
      (Nat.le_trans le more)
  · exact dries_exec limit all answered

/-- A stream that drops off-channel tokens, over two blanks on the hidden channel and a failure: to
look far ahead takes three pulls at most, and there is no text to be had. -/
theorem exec_terminates_dropped :
    let blank := Token.onChannel 5 .hidden " " .unplaced
    let script : ScriptedSource :=
      { pending := [.ok blank, .ok blank], tail := .error (.lexical "bad"), name := none }
    let s := start (Policy.standard.dropOffChannel true) (Metered.fresh script)
    Reachable s ∧ TokenSource.StopsAfter s.source 2 (.error (.lexical "bad")) ∧
      (∃ result t, (∀ limit, 2 < limit →
          (exec limit (.lookahead 9223372036854775807)).perform s = (result, t)) ∧
        result ≠ .error .outOfPulls ∧ t.source.pulls ≤ 3) ∧
      ¬ Answers (exec 3 .text) s := by
  intro blank script s
  have reachable : Reachable s := .start _ _
  have stops : TokenSource.StopsAfter s.source 2 (.error (.lexical "bad")) :=
    .more rfl rfl (.more rfl rfl (.failed rfl))
  obtain ⟨result, t, performed, inTime, source⟩ :=
    (exec_terminates reachable stops (.lookahead 9223372036854775807)).1
  obtain ⟨m, le, source⟩ := source rfl
  have pulls : t.source.pulls = 0 + m := congrArg Metered.pulls source
  refine ⟨reachable, stops, ⟨result, t, performed, inTime, by omega⟩, fun answers => ?_⟩
  rcases (((exec_terminates reachable stops .text).2 rfl 3 (by decide)).1).1 answers with
    dry | ⟨token, given⟩
  · cases dry
  · cases given

end Lookahead.Stream
