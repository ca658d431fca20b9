import Lookahead.Proofs.KindSet.Members
import Lookahead.Proofs.Ranges

/-!
# Ranges by kind

The tokens of a range can be asked for by a list of kinds or by the set that the list was collected
into. Both are the range with the other tokens left out, as the set has the members of the list
(`contains_ofList`), so the same pulls are made and the same errors met. A list without duplicates
divides what it selects into what each of its kinds selects (`perm_flatMap_filter`).
-/

namespace Lookahead

theorem KindSet.contains_ofList (kinds : List Kind) :
    (ofList kinds).contains = kinds.contains := by
  funext kind
  exact Bool.eq_iff_iff.2 (((ofList_spec kinds).2 kind).trans List.contains_iff_mem.symm)

/-- What kinds select together is what they select one by one, if none of them is named twice. -/
theorem perm_flatMap_filter {kinds : List Kind} (distinct : kinds.Nodup) (tokens : List Token) :
    (tokens.filter fun t => kinds.contains t.kind).Perm
      (kinds.flatMap fun kind => tokens.filter fun t => t.kind == kind) := by
  induction kinds with
  | nil => simp
  | cons kind kinds ih =>
    obtain ⟨absent, distinct⟩ := List.nodup_cons.1 distinct
    -- the tokens of the first kind, and the others, which the other kinds divide
    have own : (tokens.filter fun t => (kind :: kinds).contains t.kind).filter
        (fun t => t.kind == kind) = tokens.filter fun t => t.kind == kind := by
      rw [List.filter_filter]
      refine List.filter_congr fun t _ => ?_
      rw [List.contains_cons]
      cases t.kind == kind <;> simp
    have others : (tokens.filter fun t => (kind :: kinds).contains t.kind).filter
        (fun t => !(t.kind == kind)) = tokens.filter fun t => kinds.contains t.kind := by
      rw [List.filter_filter]
      refine List.filter_congr fun t _ => ?_
      rw [List.contains_cons]
      cases same : t.kind == kind with
      | true =>
        have out : kinds.contains t.kind = false := by
          rw [eq_of_beq same, Bool.eq_false_iff, ne_eq, List.contains_iff_mem]
          exact absent
        rw [out]
        rfl
      | false => rfl
    rw [List.flatMap_cons, ← own]
    refine (List.filter_append_perm (fun t => t.kind == kind) _).symm.trans ?_
    rw [others]
    exact (ih distinct).append_left _

namespace Stream

variable {σ : Type} [TokenSource σ]

theorem rangeInSet_eq (limit first last : Nat) (kinds : List Kind) :
    (rangeInSet limit first last (.ofList kinds) : StreamM σ (List Token)) =
      rangeOfKinds limit first last kinds := by
  rw [rangeInSet, rangeOfKinds, KindSet.contains_ofList]

/-- What a selection comes to, if the range comes to `result`: the same pulls, and the same error or
the tokens that pass the test. -/
theorem perform_rangeWhere {limit first last : Nat} {s t : Stream σ}
    {result : Except Interrupt (List Token)}
    (listed : (range limit first last).perform s = (result, t)) (test : Kind → Bool) :
    (rangeWhere limit first last test).perform s =
      (result.map fun found => found.filter fun token => test token.kind, t) := by
  rw [rangeWhere, StreamM.perform_bind, listed]
  rcases result with i | found <;> rfl

/-- Selecting by a set is selecting by the list that the set was collected from: the same answer or
error, and the same stream after it. Both are the range with the tokens of other kinds left out. If
no kind is named twice, they are what is selected by each kind, in the order of the buffer. -/
theorem rangeInSet_ofList (s : Stream σ) (limit first last : Nat) (kinds : List Kind) :
    (exec limit (.rangeInSet first last (.ofList kinds))).perform s =
      (exec limit (.rangeOfKinds first last kinds)).perform s ∧
    (∀ result t, (range limit first last).perform s = (result, t) →
      (exec limit (.rangeOfKinds first last kinds)).perform s =
        (result.map fun found => .tokens (found.filter fun token => kinds.contains token.kind),
          t)) ∧
    ∀ selected t, (exec limit (.rangeOfKinds first last kinds)).perform s =
        (.ok (.tokens selected), t) → kinds.Nodup →
      ∃ parts : Kind → List Token,
        (∀ kind ∈ kinds,
          (exec limit (.rangeOfKind first last kind)).perform s = (.ok (.tokens (parts kind)), t) ∧
          ∀ more, (exec more (.rangeOfKind first last kind)).perform t =
            (.ok (.tokens (parts kind)), t)) ∧
        selected.Perm (kinds.flatMap parts) ∧ selected.Sublist t.buffer.toList := by
  refine ⟨by rw [exec, exec, rangeInSet_eq], fun result t listed => ?_,
    fun selected t answered distinct => ?_⟩
  · rw [exec, StreamM.perform_bind, rangeOfKinds, perform_rangeWhere listed]
    rcases result with i | found <;> rfl
  · rcases StreamM.perform_bind_ok answered with ⟨tokens, u, chosen, answered⟩
    cases answered
    rcases StreamM.perform_bind_ok chosen with ⟨found, u, listed, answered⟩
    cases answered
    refine ⟨fun kind => found.filter fun token => token.kind == kind, fun kind _ => ?_,
      perm_flatMap_filter distinct found, rangeWhere_sublist chosen⟩
    have one : (exec limit (.rangeOfKind first last kind)).perform s = (.ok (.tokens _), t) :=
      StreamM.perform_bind_of_ok (perform_rangeWhere listed (· == kind)) _
    exact ⟨one, fun more => repeats_exec limit more rfl one (.refl t)⟩

/-- Kinds on both sides of the bound below which the set keeps bits, and other tokens between
theirs. -/
theorem rangeInSet_ofList_sparse :
    let source := ListedSource.ofList
      [.plain 7 "a" .unplaced, .plain 4096 "b" .unplaced, .plain 8 " " .unplaced,
        .plain 4095 "c" .unplaced, .plain 7 "d" .unplaced, .endOfStream .unplaced]
    let kinds : List Kind := [4096, 7, 4095]
    let s := start .standard source
    let t := ((range 9 1 9).perform s).2
    let found := [(Token.plain 4096 "b" .unplaced).stamp 1, (Token.plain 8 " " .unplaced).stamp 2,
      (Token.plain 4095 "c" .unplaced).stamp 3, (Token.plain 7 "d" .unplaced).stamp 4]
    let selected := found.filter fun token => kinds.contains token.kind
    (range 9 1 9).perform s = (.ok found, t) ∧
      (exec 9 (.rangeInSet 1 9 (.ofList kinds))).perform s = (.ok (.tokens selected), t) ∧
      kinds.Nodup ∧
      ∃ parts : Kind → List Token,
        (∀ kind ∈ kinds,
          (exec 9 (.rangeOfKind 1 9 kind)).perform s = (.ok (.tokens (parts kind)), t) ∧
          ∀ more, (exec more (.rangeOfKind 1 9 kind)).perform t =
            (.ok (.tokens (parts kind)), t)) ∧
        selected.Perm (kinds.flatMap parts) ∧ selected.Sublist t.buffer.toList := by
  intro source kinds s t found selected
  have answer : ((range 9 1 9).perform s).1 = .ok found := by decide +kernel
  have listed : (range 9 1 9).perform s = (.ok found, t) := by rw [← answer]
  have distinct : kinds.Nodup := by decide
  obtain ⟨same, outcome, parts⟩ := rangeInSet_ofList s 9 1 9 kinds
  have chosen := outcome _ t listed
  exact ⟨listed, same.trans chosen, distinct, parts selected t chosen distinct⟩

end Stream

end Lookahead
