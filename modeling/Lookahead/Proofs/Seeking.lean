import Lookahead.Proofs.Backtracking

/-!
# Seeking

A seek goes to the first visible slot that is not before the one named, or to the end of the source
if there is none (`first_target`). A seek of that slot goes nowhere else. Two seeks may pull
differently far, but one of them goes on where the other has stopped (`Pulls.total`) and would have
come to the same slot after the pulls of both, and the first visible slots of one stream are in
order (`target_mono`). `index_of_seek` puts this together, and says of consuming that it is a seek.
-/

namespace Lookahead.Stream

variable {σ : Type} [TokenSource σ]

/-- A seek that succeeds pulls until it sees a slot to go to, and puts the cursor there. -/
theorem exec_seek_ok {limit i : Nat} {s t : Stream σ} {a : Answer σ}
    (h : (exec limit (.seek i)).perform s = (.ok a, t)) :
    ∃ u, Pulls s u ∧ (u.isDry || sees i u) = true ∧ t = { u with cursor := some (target i u) } := by
  rcases StreamM.perform_bind_ok h with ⟨⟨⟩, t, sought, answered⟩
  cases answered
  rcases StreamM.perform_bind_ok sought with ⟨p, u, search, placed⟩
  rw [perform_nextVisible] at search
  obtain ⟨loop, rfl⟩ := search_ok search
  obtain ⟨pulls, stops⟩ := pullUntil_ok loop
  cases placed
  exact ⟨u, pulls, stops, rfl⟩

/-- Seeking is a closure: the slot it comes to is the first visible one from the slot named on, or
the end of a source that has none left; seeking that slot again changes nothing, and a seek from a
later slot comes no less far. To consume the token that the cursor stands on is to seek from the
next slot on, and at the end there is nothing to consume. -/
theorem index_of_seek {s : Stream σ} (h : Reachable s) :
    (∀ (limit i : Nat) (a : Answer σ) (t : Stream σ),
      (exec limit (.seek i)).perform s = (.ok a, t) →
        t.cursor = some t.index ∧
        (i ≤ t.index ∧ t.isVisible t.index = true ∧
            (∀ k, i ≤ k → k < t.index → t.isVisible k = false) ∨
          t.index = t.size ∧ t.endToken.isSome = true ∧ ∀ k, i ≤ k → t.isVisible k = false) ∧
        ∀ more, (exec more (.seek t.index)).perform t = (.ok .nothing, t)) ∧
    (∀ (limit more i j : Nat) (a b : Answer σ) (t u : Stream σ), i ≤ j →
      (exec limit (.seek i)).perform s = (.ok a, t) →
      (exec more (.seek j)).perform s = (.ok b, u) → t.index ≤ u.index) ∧
    ∀ p, s.cursor = some p →
      (p < s.size → ∀ limit,
        (exec limit .consume).perform s = (exec limit (.seek (s.index + 1))).perform s) ∧
      (¬ p < s.size → s.index = s.size ∧ s.endToken.isSome = true ∧
        ∀ limit, (exec limit .consume).perform s = (.ok .nothing, s)) := by
  refine ⟨fun limit i a t sought => ?_, fun limit more i j a b t u le sought sought' => ?_,
    fun p placed => ⟨fun below limit => ?_, fun atEnd => ?_⟩⟩
  · obtain ⟨u, -, stops, rfl⟩ := exec_seek_ok sought
    let v : Stream σ := { u with cursor := some (target i u) }
    have settled : v.Settled (target i u) := (settled_target stops).congr rfl rfl rfl
    refine ⟨rfl, first_target stops, fun more => ?_⟩
    exact StreamM.perform_bind_of_ok (perform_seek_of_settled settled more) _
  · obtain ⟨w, pulls, stops, rfl⟩ := exec_seek_ok sought
    obtain ⟨w', pulls', stops', rfl⟩ := exec_seek_ok sought'
    show target i w ≤ target j w'
    -- the seek that pulled less comes to the same slot after the pulls of the other
    rcases pulls.total pulls' with later | later
    · rw [← ((lasting_sees i).steady.read_pulls later stops).2]
      exact target_mono w' le
    · rw [← ((lasting_sees j).steady.read_pulls later stops').2]
      exact target_mono w le
  · rw [index_of_some placed, exec, exec, StreamM.perform_bind, StreamM.perform_bind,
      perform_consume_of_lt placed below]
  · obtain ⟨rfl, dry⟩ := (h.sound.cursor p placed).isDry atEnd
    refine ⟨index_of_some placed, dry, fun limit => ?_⟩
    exact StreamM.perform_bind_of_ok (perform_consume_of_not_lt placed atEnd limit) _

/-- Two words, with a blank before each. The cursor is on the first word; seeking the blank behind
it comes to the second one, and so does consuming. Seeking far beyond comes to the end. -/
theorem index_of_seek_listed :
    let word := fun text => Token.plain 7 text .unplaced
    let blank := Token.onChannel 5 .hidden " " .unplaced
    let source := ListedSource.ofList [blank, word "a", blank, word "b", .endOfStream .unplaced]
    let s := ((exec 5 .mark).perform (start .standard source)).2
    let t := ((exec 5 (.seek 2)).perform s).2
    let u := ((exec 5 (.seek 9)).perform s).2
    Reachable s ∧ Reachable u ∧
      ((exec 5 (.seek 2)).perform s = (.ok .nothing, t) ∧ t.index = 3 ∧
        t.cursor = some t.index ∧ (exec 0 (.seek t.index)).perform t = (.ok .nothing, t)) ∧
      (2 ≤ 9 ∧ (exec 5 (.seek 9)).perform s = (.ok .nothing, u) ∧ t.index ≤ u.index) ∧
      (s.cursor = some 1 ∧ 1 < s.size ∧
        (exec 5 .consume).perform s = (exec 5 (.seek (s.index + 1))).perform s) ∧
      (u.cursor = some 4 ∧ ¬ 4 < u.size ∧ u.index = u.size ∧
        (exec 5 .consume).perform u = (.ok .nothing, u)) := by
  intro word blank source s t u
  have reachable : Reachable s := .exec 5 .mark (.start .standard source)
  have reachable' : Reachable u := .exec 5 (.seek 9) reachable
  have answer : ((exec 5 (.seek 2)).perform s).1 = .ok .nothing := by decide +kernel
  have answer' : ((exec 5 (.seek 9)).perform s).1 = .ok .nothing := by decide +kernel
  have sought : (exec 5 (.seek 2)).perform s = (.ok .nothing, t) := by rw [← answer]
  have sought' : (exec 5 (.seek 9)).perform s = (.ok .nothing, u) := by rw [← answer']
  have placed : s.cursor = some 1 := by decide +kernel
  have below : 1 < s.size := by decide +kernel
  have placed' : u.cursor = some 4 := by decide +kernel
  have atEnd : ¬ 4 < u.size := by decide +kernel
  obtain ⟨seeks, ordered, consumes⟩ := index_of_seek reachable
  obtain ⟨here, -, again⟩ := seeks 5 2 _ t sought
  obtain ⟨last, -, stays⟩ := ((index_of_seek reachable').2.2 4 placed').2 atEnd
  refine ⟨reachable, reachable', ⟨sought, by decide +kernel, here, again 0⟩,
    ⟨by decide, sought', ordered 5 5 2 9 _ _ t u (by decide) sought sought'⟩,
    ⟨placed, below, (consumes 1 placed).1 below 5⟩, placed', atEnd, last, stays 5⟩

end Lookahead.Stream
