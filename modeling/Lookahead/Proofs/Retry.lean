import Mathlib.Data.List.Forall2
import Lookahead.Proofs.Mirror

/-!
# Trying again

`retry` carries out an operation again and again until no pull fails. Over a script with failures
that is as good as carrying it out once over the script without them: `outcomes_retry` says so for
every run of commands that may be repeated.
-/

namespace Lookahead

/-- What comes of carrying out an operation: its result, the log records it made, and the stream it
left. -/
structure Outcome (σ α : Type) where
  result : Except Interrupt α
  records : List Record
  after : Stream σ

namespace Stream

section

variable {σ α : Type}

/-- Carries out an operation. -/
def once (op : StreamM σ α) (s : Stream σ) : Outcome σ α :=
  let r := op.perform s
  { result := r.1, records := r.2.recordsSince s.journal.size, after := r.2 }

/-- Carries out an operation and, whenever a pull fails, tries it again, but no more than `tries`
times. The log records are those of all attempts. -/
def retry (op : StreamM σ α) : (tries : Nat) → Stream σ → Outcome σ α
  | 0, s => once op s
  | tries + 1, s =>
    let first := once op s
    match first.result with
    | .error (.failed _) =>
      let rest := retry op tries first.after
      { rest with records := first.records ++ rest.records }
    | _ => first

/-- The outcomes of commands that are carried out one after the other. -/
def outcomes (carryOut : Command σ → Stream σ → Outcome σ (Answer σ)) :
    List (Command σ) → Stream σ → List (Outcome σ (Answer σ))
  | [], _ => []
  | c :: cs, s =>
    let first := carryOut c s
    first :: outcomes carryOut cs first.after

end

/-! ## Journals only grow -/

section

variable {σ : Type}

theorem receive_journal (s : Stream σ) (t : Token) :
    ∃ e, (s.receive t).journal = s.journal.push e := by
  unfold receive
  split
  · exact ⟨_, rfl⟩
  · split
    · exact ⟨_, rfl⟩
    · exact ⟨_, rfl⟩

theorem journal_grows_note (s : Stream σ) (e : Event) :
    s.journal.toList <+: (s.note e).journal.toList := by
  rw [note, Array.toList_push]
  exact List.prefix_append _ _

variable [TokenSource σ]

theorem Motion.journal_grows {s t : Stream σ} (motion : Motion s t) :
    s.journal.toList <+: t.journal.toList := by
  cases motion with
  | pulled step =>
    obtain ⟨token, source, -, rfl⟩ := step.exists_token
    obtain ⟨e, pushed⟩ := receive_journal { s with source } token
    rw [pushed, Array.toList_push]
    exact List.prefix_append _ _
  | failed _ _ => exact journal_grows_note s _
  | placed _ => exact List.prefix_refl _
  | marked _ => exact List.prefix_refl _

theorem journal_grows_exec (limit : Nat) (c : Command σ) (s : Stream σ) :
    s.journal.toList <+: ((exec limit c).perform s).2.journal.toList := by
  by_cases op : c.isOperation = true
  · have operates := operates_exec limit op s
    generalize ((exec limit c).perform s).2 = t at operates ⊢
    induction operates with
    | refl => exact List.prefix_refl _
    | tail _ motion ih => exact ih.trans motion.journal_grows
  · cases c with
    | discard kind =>
      show _ <+: (s.discard kind).journal.toList
      unfold discard
      split
      · exact List.prefix_refl _
      · exact journal_grows_note s _
    | reroute kind channel => exact journal_grows_note s _
    | dropOffChannel drop => exact journal_grows_note s _
    | pullSource => simp only [perform_exec_pullSource, List.prefix_refl]
    | replace source => exact journal_grows_note s _
    | _ => exact absurd rfl op

omit [TokenSource σ] in
theorem recordsSince_split {s t : Stream σ} (grown : s.journal.toList <+: t.journal.toList)
    {n : Nat} (le : n ≤ s.journal.size) :
    t.recordsSince n = s.recordsSince n ++ t.recordsSince s.journal.size := by
  obtain ⟨rest, same⟩ := grown
  have le' : n ≤ s.journal.toList.length := le
  rw [recordsSince, recordsSince, recordsSince, ← same, List.drop_append_of_le_length le',
    List.filterMap_append, ← Array.length_toList, List.drop_left]

end

/-! ## One operation -/

/-- An operation that is tried again until it answers. -/
theorem retry_of_mirrors {α : Type} {op : StreamM Script α}
    (retriable : Retriable (fun _ _ => True) op)
    (grows : ∀ s, s.journal.toList <+: (op.perform s).2.journal.toList) {tries : Nat}
    {s s' t' : Stream Script} {a : α} (mirrors : Mirrors s s')
    (enough : s.source.source.failures ≤ tries) (performed : op.perform s' = (.ok a, t')) :
    ∃ t, retry op tries s = ⟨.ok a, t.recordsSince s.journal.size, t⟩ ∧ Mirrors t t' ∧
      t.source.source.failures ≤ s.source.source.failures ∧
      s.journal.toList <+: t.journal.toList := by
  induction tries generalizing s s' with
  | zero =>
    rcases retriable mirrors performed with ⟨ok, mirrors', left⟩ | ⟨_, _, fewer, _, _⟩
    · have grown := grows s
      rw [ok] at grown
      exact ⟨_, by rw [retry, once, ok], mirrors', left, grown⟩
    · omega
  | succ tries ih =>
    have grown := grows s
    rcases retriable mirrors performed with
      ⟨ok, mirrors', left⟩ | @⟨e, u, u', failed, mirrors', fewer, -, ok⟩
    · rw [ok] at grown
      exact ⟨_, by simp only [retry, once, ok], mirrors', left, grown⟩
    · rw [failed] at grown
      obtain ⟨t, retried, mirrors'', left, grown'⟩ := ih mirrors' (by omega) ok
      refine ⟨t, ?_, mirrors'', by omega, grown.trans grown'⟩
      have size : s.journal.size ≤ u.journal.size := grown.length_le
      simp only [retry, once, failed, retried]
      rw [recordsSince_split grown' size]

/-! ## Runs -/

/-- The outcome is that of the operation over the script without failures. -/
structure Matches {α : Type} (o o' : Outcome Script α) : Prop where
  result : o.result = o'.result
  records : o.records = o'.records
  policy : o.after.policy = o'.after.policy
  buffer : o.after.buffer = o'.after.buffer
  endToken : o.after.endToken = o'.after.endToken
  cursor : o.after.cursor = o'.after.cursor
  lastMark : o.after.lastMark = o'.after.lastMark
  pulls : o.after.source.pulls = o'.after.source.pulls + o.after.failedPulls

/-- Log records that were the same before and are the same afterwards are the same in between. -/
theorem Mirrors.recordsSince_eq {s s' t t' : Stream Script} (before : Mirrors s s')
    (after : Mirrors t t') (grown : s.journal.toList <+: t.journal.toList)
    (grown' : s'.journal.toList <+: t'.journal.toList) :
    t.recordsSince s.journal.size = t'.recordsSince s'.journal.size := by
  have all := after.records
  rw [recordsSince_split grown (Nat.zero_le _), recordsSince_split grown' (Nat.zero_le _),
    before.records] at all
  exact List.append_cancel_left all

theorem outcomes_of_mirrors {limit tries : Nat} (cs : List (Command Script))
    (repeatable : ∀ c ∈ cs, c.isRepeatable = true) {s s' : Stream Script} (mirrors : Mirrors s s')
    (enough : s.source.source.failures ≤ tries)
    (answered : ∀ o ∈ outcomes (fun c => once (exec limit c)) cs s', ∃ a, o.result = .ok a) :
    List.Forall₂ Matches (outcomes (fun c => retry (exec limit c) tries) cs s)
      (outcomes (fun c => once (exec limit c)) cs s') := by
  induction cs generalizing s s' with
  | nil => exact .nil
  | cons c cs ih =>
    rcases performed : (exec limit c).perform s' with ⟨i | a, t'⟩
    · obtain ⟨a, answer⟩ : ∃ a, (once (exec limit c) s').result = .ok a :=
        answered _ List.mem_cons_self
      rw [once, performed] at answer
      cases answer
    · have retriable := retriable_exec limit (repeatable c List.mem_cons_self)
      obtain ⟨t, retried, mirrors', left, grown⟩ :=
        retry_of_mirrors retriable (journal_grows_exec limit c) mirrors enough performed
      have grown' := journal_grows_exec limit c s'
      have first : once (exec limit c) s' = ⟨.ok a, t'.recordsSince s'.journal.size, t'⟩ := by
        rw [once, performed]
      rw [performed] at grown'
      simp only [outcomes, first] at answered
      simp only [outcomes, first, retried]
      refine .cons ⟨rfl, mirrors.recordsSince_eq mirrors' grown grown', mirrors'.policy,
        mirrors'.buffer, mirrors'.endToken, mirrors'.cursor, mirrors'.lastMark, mirrors'.pulls⟩ ?_
      exact ih (fun d hd => repeatable d (List.mem_cons_of_mem c hd)) mirrors'
        (Nat.le_trans left enough) fun o ho => answered o (List.mem_cons_of_mem _ ho)

/-- Failures are transparent to who tries again: over a script with failing pulls, every command of
a run that is tried again until it answers has the outcome that it has, carried out once, over the
script without them, provided that all of them answer there. The pulls are more by those that have
failed so far. -/
theorem outcomes_retry {script : ScriptedSource} {last : Token} (tail : script.tail = .ok last)
    (policy : Policy) {limit tries : Nat} (enough : script.failures ≤ tries)
    {cs : List (Command Script)} (repeatable : ∀ c ∈ cs, c.isRepeatable = true)
    (answered : ∀ o ∈ outcomes (fun c => once (exec limit c)) cs
      (start policy (.fresh script.flawless)), ∃ a, o.result = .ok a) :
    List.Forall₂ Matches
      (outcomes (fun c => retry (exec limit c) tries) cs (start policy (.fresh script)))
      (outcomes (fun c => once (exec limit c)) cs (start policy (.fresh script.flawless))) := by
  have mirrors : Mirrors (start policy (.fresh script)) (start policy (.fresh script.flawless)) :=
    ⟨rfl, rfl, rfl, rfl, rfl, rfl, ⟨last, tail⟩, rfl, rfl⟩
  exact outcomes_of_mirrors cs repeatable mirrors enough answered

/-- A blank on the hidden channel and a word, with a failing pull before each and one before the
end: the word is consumed, blanks are discarded and the end is looked at. -/
theorem outcomes_retry_scripted :
    let e := SourceError.lexical "bad"
    let blank := Token.onChannel 5 .hidden " " .unplaced
    let word := Token.plain 7 "a" .unplaced
    let ended := Token.endOfStream .unplaced
    let script : ScriptedSource :=
      { pending := [.error e, .ok blank, .error e, .ok word, .error e], tail := .ok ended
        name := none }
    let cs : List (Command Script) := [.consume, .discard 5, .lookahead 1, .isAtEnd]
    script.tail = .ok ended ∧ script.failures ≤ 3 ∧ (∀ c ∈ cs, c.isRepeatable = true) ∧
      (∀ o ∈ outcomes (fun c => once (exec 3 c)) cs (start .standard (.fresh script.flawless)),
        ∃ a, o.result = .ok a) ∧
      List.Forall₂ Matches
        (outcomes (fun c => retry (exec 3 c) 3) cs (start .standard (.fresh script)))
        (outcomes (fun c => once (exec 3 c)) cs (start .standard (.fresh script.flawless))) := by
  intro e blank word ended script cs
  have enough : script.failures ≤ 3 := by decide
  have repeatable : ∀ c ∈ cs, c.isRepeatable = true := by
    intro c hc
    simp only [cs, List.mem_cons, List.not_mem_nil, or_false] at hc
    rcases hc with rfl | rfl | rfl | rfl <;> rfl
  have answered : ∀ o ∈ outcomes (fun c => once (exec 3 c)) cs
      (start .standard (.fresh script.flawless)), ∃ a, o.result = .ok a := by
    have computed : (outcomes (fun c => once (exec 3 c)) cs
        (start .standard (.fresh script.flawless))).all (fun o => o.result.isOk) = true := by
      decide +kernel
    intro o ho
    have ok := List.all_eq_true.1 computed o ho
    rcases result : o.result with i | a
    · rw [result] at ok
      cases ok
    · exact ⟨a, rfl⟩
  exact ⟨rfl, enough, repeatable, answered, outcomes_retry rfl .standard enough repeatable answered⟩

end Stream

end Lookahead
