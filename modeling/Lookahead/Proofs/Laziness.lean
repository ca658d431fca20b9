import Lookahead.Proofs.Ending
import Lookahead.Source.Listed

/-!
# Requests made beforehand

A run may be interspersed with extra steps that fill the buffer or read it by slots. If the source
ends and does not fail, nobody can tell: the steps of the run's own have the same outcomes, and
leave the cursor in the same places, as without the extra ones. In particular it makes no difference
whether the tokens are pulled one by one or all of them first.
-/

namespace Lookahead

/-- A step of a run: one of its own, or an extra one. -/
inductive Step (σ : Type)
  | own (c : Command σ) (reads : c.readsTokens = true)
  | extra (c : Command σ) (absolute : c.isAbsolute = true)

namespace Step

variable {σ : Type}

def command : Step σ → Command σ
  | own c _ => c
  | extra c _ => c

def isOwn : Step σ → Bool
  | own _ _ => true
  | extra _ _ => false

end Step

theorem isOperation_of_isAbsolute {σ : Type} {c : Command σ} (h : c.isAbsolute = true) :
    c.isOperation = true := by
  cases c with
  | discard _ => cases h
  | reroute _ _ => cases h
  | dropOffChannel _ => cases h
  | pullSource => cases h
  | replace _ => cases h
  | _ => rfl

namespace Stream

open Relation

variable {σ : Type} [TokenSource σ]

/-- The outcomes of the run's own steps, and where the cursor is after each. -/
def observe (limit : Nat) : List (Step σ) → Stream σ → List (Except Interrupt (Answer σ) × Nat)
  | [], _ => []
  | step :: rest, s =>
    let r := (exec limit step.command).perform s
    if step.isOwn then (r.1, r.2.index) :: observe limit rest r.2 else observe limit rest r.2

/-! ## Absolute requests -/

/-- All that the operation does to the stream, if it answers, is to pull. -/
def OnlyPulls {α : Type} (op : StreamM σ α) : Prop :=
  ∀ ⦃s a t⦄, op.perform s = (.ok a, t) → Pulls s t

section

variable {α β : Type}

theorem onlyPulls_bind_pure {op : StreamM σ α} (f : α → β) (h : OnlyPulls op) :
    OnlyPulls (op >>= fun a => pure (f a)) := by
  intro s b t performed
  rcases StreamM.perform_bind_ok performed with ⟨a, u, first, performed⟩
  cases performed
  exact h first

theorem onlyPulls_search (ready : Stream σ → Bool) (read : Stream σ → α) (limit : Nat) :
    OnlyPulls (search ready read limit) := fun _ _ _ performed =>
  (pullUntil_ok (search_ok performed).1).1

end

theorem onlyPulls_range (limit first last : Nat) :
    OnlyPulls (range limit first last : StreamM σ (List Token)) := by
  unfold range
  split
  · intro s tokens t performed
    cases performed
    exact .refl
  · exact onlyPulls_search _ (fun s => s.slots first last) limit

theorem onlyPulls_exec (limit : Nat) {c : Command σ} (absolute : c.isAbsolute = true) :
    OnlyPulls (exec limit c) := by
  have get (i : Nat) : OnlyPulls (get? limit i : StreamM σ (Option Token)) :=
    onlyPulls_search _ (fun s => s.buffer[i]?) limit
  have tokens : OnlyPulls (tokens limit : StreamM σ (List Token)) :=
    onlyPulls_search _ (fun s => s.buffer.toList) limit
  have range := onlyPulls_range (σ := σ) limit
  have wrap {α β : Type} {op : StreamM σ α} (f : α → β) (h : OnlyPulls op) :=
    onlyPulls_bind_pure f h
  cases c with
  | get i => exact wrap _ (get i)
  | display i => exact wrap _ (get i)
  | fill => exact wrap _ fun s a t filled => (pullUntil_ok filled).1
  | tokens => exact wrap _ tokens
  | range first last => exact wrap _ (range first last)
  | rangeInSet first last kinds => exact wrap _ (wrap _ (range first last))
  | rangeOfKinds first last kinds => exact wrap _ (wrap _ (range first last))
  | rangeOfKind first last kind => exact wrap _ (wrap _ (range first last))
  | text => exact wrap _ (wrap _ tokens)
  | textRange first last => exact wrap _ (wrap _ (range first last))
  | textBetween first last =>
    refine wrap _ ?_
    unfold textBetween
    split
    · exact wrap _ (range _ _)
    · intro s a t performed
      cases performed
      exact .refl
  | _ => cases absolute

/-! ## Runs with extra steps -/

/-- What is seen of a run that has the extra steps, from a stream that is some pulls ahead, is what
is seen of the run without them. -/
theorem observe_of_pulls {limit : Nat} (steps : List (Step σ)) {s v : Stream σ}
    (ends : s.EndsWithin limit) (pulls : Pulls s v) :
    observe limit steps v = observe limit (steps.filter Step.isOwn) s ∧
      ∀ r ∈ observe limit steps v, ∃ a, r.1 = .ok a := by
  induction steps generalizing s v with
  | nil =>
    refine ⟨rfl, fun r hr => ?_⟩
    cases hr
  | cons step rest ih =>
    cases step with
    | own c reads =>
      have op := isOperation_of_readsTokens reads
      obtain ⟨a, t, performed⟩ := answers_exec ends op
      obtain ⟨w, performed', later⟩ := commutes_exec limit reads ends.sound pulls performed
      have operates := operates_exec limit op s
      rw [performed] at operates
      obtain ⟨same, answered⟩ := ih (ends.operates operates) later
      have index : w.index = t.index := by rw [index, index, later.cursor]
      simp only [observe, List.filter_cons, Step.isOwn, Step.command, if_true, performed,
        performed', index, same]
      refine ⟨trivial, fun r hr => ?_⟩
      rcases List.mem_cons.1 hr with rfl | hr
      · exact ⟨a, rfl⟩
      · exact answered r (same ▸ hr)
    | extra c absolute =>
      have op := isOperation_of_isAbsolute absolute
      obtain ⟨a, w, performed⟩ := answers_exec (ends.operates pulls.operates) op
      have ahead := onlyPulls_exec limit absolute performed
      simp only [observe, List.filter_cons, Step.isOwn, Step.command, Bool.false_eq_true, if_false,
        performed]
      exact ih ends (pulls.trans ahead)

/-- Over a source that ends and does not fail, every step answers, and extra steps that fill the
buffer or read it by slots change neither the answers of the others nor where these leave the
cursor. -/
theorem observe_filter_isOwn {limit n : Nat} {source : σ} (ends : TokenSource.EndsAfter source n)
    (enough : n < limit) (policy : Policy) (steps : List (Step σ)) :
    observe limit steps (.start policy source) =
        observe limit (steps.filter Step.isOwn) (.start policy source) ∧
      ∀ r ∈ observe limit steps (.start policy source), ∃ a, r.1 = .ok a := by
  refine observe_of_pulls steps ⟨(Reachable.start policy source).sound, ?_⟩ .refl
  exact ⟨n + 1, enough, dryAfter_of_endsAfter ends rfl rfl⟩

/-- A blank on the hidden channel and a word: the buffer is filled before the word is looked at, and
the blank is read after it is consumed. -/
theorem observe_filter_isOwn_listed :
    let blank := Token.onChannel 5 .hidden " " .unplaced
    let word := Token.plain 7 "a" .unplaced
    let source := ListedSource.ofList [blank, word, .endOfStream .unplaced]
    let steps : List (Step ListedSource) :=
      [.extra .fill rfl, .own (.lookahead 1) rfl, .own .consume rfl, .extra (.get 0) rfl,
        .own (.lookahead (-1)) rfl]
    TokenSource.EndsAfter source 2 ∧ 2 < 3 ∧
      observe 3 steps (.start .standard source) =
        observe 3 (steps.filter Step.isOwn) (.start .standard source) ∧
      ∀ r ∈ observe 3 steps (.start .standard source), ∃ a, r.1 = .ok a := by
  intro blank word source steps
  have ends : TokenSource.EndsAfter source 2 := .more rfl rfl (.more rfl rfl (.last rfl rfl))
  exact ⟨ends, by decide, observe_filter_isOwn ends (by decide) .standard steps⟩

end Stream

end Lookahead
