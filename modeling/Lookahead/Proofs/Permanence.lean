import Lookahead.Proofs.Ending
import Lookahead.Source.Metered

/-!
# Answers that last

Until another source is installed a stream only grows: whatever it has buffered stays in its slot,
and once the source has ended nothing is added (`Extends`). Commands, failures, changes of the
policy and pulls behind the stream's back make no difference to that (`Later.extends`). So an
absolute request that has been answered is answered the same ever after, and takes no pull then
(`repeats_exec`). A stream that has been filled never pulls again, so nothing that it is asked can
fail any more (`answer_of_later`).
-/

namespace Lookahead

/-- Whether a command leaves the stream the source that it has. -/
def Command.keepsSource {σ : Type} : Command σ → Bool
  | .replace _ => false
  | _ => true

/-- Whether a command is answered only when the source has ended. -/
def Command.takesAll {σ : Type} : Command σ → Bool
  | .fill | .tokens | .text => true
  | _ => false

namespace Stream

open Relation

variable {σ : Type} [TokenSource σ]

/-! ## Later streams -/

/-- A dry stream is not pulled. -/
theorem Operates.source_of_isDry {s t : Stream σ} (h : Operates s t) (dry : s.isDry = true) :
    t.source = s.source := by
  induction h with
  | refl => rfl
  | @tail u t before motion ih =>
    have dry' : u.isDry = true := (Operates.extends before).isDry dry
    cases motion with
    | pulled step =>
      rw [step.1] at dry'
      cases dry'
    | failed wet _ =>
      rw [wet] at dry'
      cases dry'
    | placed _ => exact ih
    | marked _ => exact ih

theorem extends_exec (limit : Nat) {c : Command σ} (keeps : c.keepsSource = true) (s : Stream σ) :
    s.Extends ((exec limit c).perform s).2 := by
  by_cases op : c.isOperation = true
  · exact (operates_exec limit op s).extends
  · rcases other_exec limit (Bool.eq_false_iff.2 op) s with
      ⟨p, journal, channel, left⟩ | ⟨-, left⟩ | ⟨other, rfl, -⟩
    · rw [left]
      exact .of_same rfl channel rfl
    · rw [left]
      exact .of_same rfl rfl rfl
    · cases keeps

/-- What a stream can become by commands, whatever their outcome, none of which installs another
source. -/
abbrev Later : Stream σ → Stream σ → Prop :=
  ReflTransGen fun s t =>
    ∃ limit c, c.keepsSource = true ∧ ((exec limit c).perform s).2 = t

theorem later_of_perform {limit : Nat} {c : Command σ} (keeps : c.keepsSource = true)
    {s t : Stream σ} {result : Except Interrupt (Answer σ)}
    (performed : (exec limit c).perform s = (result, t)) : Later s t :=
  .single ⟨limit, c, keeps, by rw [performed]⟩

theorem Later.extends {s t : Stream σ} (later : Later s t) : s.Extends t := by
  induction later with
  | refl => exact .refl s
  | tail _ step ih =>
    obtain ⟨limit, c, keeps, rfl⟩ := step
    exact ih.trans (extends_exec limit keeps _)

theorem Later.reachable {s t : Stream σ} (later : Later s t) (h : Reachable s) : Reachable t := by
  induction later with
  | refl => exact h
  | tail _ step ih =>
    obtain ⟨limit, c, -, rfl⟩ := step
    exact .exec limit c ih

/-! ## Requests that are answered again -/

/-- Once `op` has been answered, `again` is answered the same on every stream that extends the one
left, and does nothing to it. -/
def Repeats {α : Type} (op again : StreamM σ α) : Prop :=
  ∀ ⦃s t v a⦄, op.perform s = (.ok a, t) → t.Extends v → again.perform v = (.ok a, v)

section

variable {α β : Type}

omit [TokenSource σ] in
theorem repeats_pure (a : α) : Repeats (pure a : StreamM σ α) (pure a) := by
  intro s t v b answered _
  cases answered
  rfl

omit [TokenSource σ] in
theorem repeats_bind_pure {op again : StreamM σ α} (f : α → β) (h : Repeats op again) :
    Repeats (op >>= fun a => pure (f a)) (again >>= fun a => pure (f a)) := by
  intro s t v b answered extended
  rcases StreamM.perform_bind_ok answered with ⟨a, u, first, answered⟩
  cases answered
  rw [StreamM.perform_bind_of_ok (h first extended)]
  rfl

theorem repeats_search {ready : Stream σ → Bool} {read : Stream σ → α}
    (lasting : Lasting ready read) (limit more : Nat) :
    Repeats (search ready read limit) (search ready read more) := by
  intro s t v a answered extended
  obtain ⟨loop, rfl⟩ := search_ok answered
  obtain ⟨stops, same⟩ := lasting.read_extends extended (pullUntil_ok loop).2
  rw [perform_search, perform_pullUntil_of_ready stops, ← same]

end

omit [TokenSource σ] in
/-- What waits for the end of the source reads the whole buffer. -/
theorem lasting_all {α : Type} (read : Array Token → α) :
    Lasting (σ := σ) (fun _ => false) (fun s => read s.buffer) where
  ready_grown _ never := by cases never
  read_grown _ never := by cases never
  read_same buffer _ := by rw [buffer]

theorem repeats_nextVisible (limit more i : Nat) :
    Repeats (nextVisible limit i : StreamM σ Nat) (nextVisible more i) := by
  intro s t v j answered extended
  rw [perform_nextVisible] at answered ⊢
  exact repeats_search (lasting_sees i) limit more answered extended

theorem repeats_fill (limit more : Nat) : Repeats (fill limit : StreamM σ Unit) (fill more) := by
  intro s t v a filled extended
  have stops : (v.isDry || false) = true := by
    rw [Bool.or_false]
    exact extended.isDry (by simpa using (pullUntil_ok filled).2)
  exact perform_pullUntil_of_ready stops more

theorem repeats_range (limit more first last : Nat) :
    Repeats (range limit first last : StreamM σ (List Token)) (range more first last) := by
  unfold range
  split
  · exact repeats_pure []
  · exact repeats_search (lasting_range first last) limit more

/-- An absolute request that has been answered is answered the same ever after. -/
theorem repeats_exec (limit more : Nat) {c : Command σ} (absolute : c.isAbsolute = true) :
    Repeats (exec limit c) (exec more c) := by
  have get (i : Nat) : Repeats (get? limit i : StreamM σ (Option Token)) (get? more i) :=
    repeats_search (lasting_get i) limit more
  have tokens : Repeats (tokens limit : StreamM σ (List Token)) (tokens more) :=
    repeats_search (lasting_all Array.toList) limit more
  have range := repeats_range (σ := σ) limit more
  have wrap {α β : Type} {op again : StreamM σ α} (f : α → β) (h : Repeats op again) :=
    repeats_bind_pure f h
  cases c with
  | get i => exact wrap _ (get i)
  | display i => exact wrap _ (get i)
  | fill => exact wrap _ (repeats_fill limit more)
  | tokens => exact wrap _ tokens
  | range first last => exact wrap _ (range first last)
  | rangeInSet first last kinds => exact wrap _ (wrap _ (range first last))
  | rangeOfKinds first last kinds => exact wrap _ (wrap _ (range first last))
  | rangeOfKind first last kind => exact wrap _ (wrap _ (range first last))
  | text => exact wrap _ (wrap _ tokens)
  | textRange first last => exact wrap _ (wrap _ (range first last))
  | textBetween first last =>
    refine wrap _ ?_
    unfold textBetween
    split
    · exact wrap _ (range _ _)
    · exact repeats_pure ""
  | _ => cases absolute

/-! ## Streams that have been filled -/

/-- Whenever the operation answers, it leaves a dry stream. -/
def Dries {α : Type} (op : StreamM σ α) : Prop :=
  ∀ ⦃s t a⦄, op.perform s = (.ok a, t) → t.isDry = true

omit [TokenSource σ] in
theorem dries_bind_pure {α β : Type} {op : StreamM σ α} (f : α → β) (h : Dries op) :
    Dries (op >>= fun a => pure (f a)) := by
  intro s t b answered
  rcases StreamM.perform_bind_ok answered with ⟨a, u, first, answered⟩
  cases answered
  exact h first

/-- A request for all there is leaves a dry stream. -/
theorem dries_exec (limit : Nat) {c : Command σ} (all : c.takesAll = true) :
    Dries (exec limit c) := by
  have fill : Dries (fill limit : StreamM σ Unit) := by
    intro s t a filled
    simpa using (pullUntil_ok filled).2
  have tokens : Dries (tokens limit : StreamM σ (List Token)) := by
    intro s t a answered
    have searched : (search (fun _ => false) (fun s => s.buffer.toList) limit).perform s =
        (.ok a, t) := answered
    exact fill (search_ok searched).1
  cases c with
  | fill => exact dries_bind_pure _ fill
  | tokens => exact dries_bind_pure _ tokens
  | text => exact dries_bind_pure _ (dries_bind_pure _ tokens)
  | _ => cases all

/-- Whatever a dry stream is asked, it answers, and leaves its source alone. -/
theorem answers_of_isDry {s : Stream σ} (sound : s.Sound) (dry : s.isDry = true) (limit : Nat)
    {c : Command σ} (own : c ≠ .pullSource) :
    ∃ a t, (exec limit c).perform s = (.ok a, t) ∧
      (c.keepsSource = true → t.source = s.source) := by
  by_cases op : c.isOperation = true
  · obtain ⟨a, t, answered⟩ := answers_exec ⟨sound, 0, Nat.zero_le limit, .dry dry⟩ op
    have operates := operates_exec limit op s
    rw [answered] at operates
    exact ⟨a, t, answered, fun _ => operates.source_of_isDry dry⟩
  · cases c with
    | discard kind =>
      refine ⟨.nothing, s.discard kind, rfl, fun _ => ?_⟩
      unfold discard
      split <;> rfl
    | reroute kind channel => exact ⟨.nothing, _, rfl, fun _ => rfl⟩
    | dropOffChannel drop => exact ⟨.nothing, _, rfl, fun _ => rfl⟩
    | pullSource => exact absurd rfl own
    | replace source =>
      refine ⟨.source s.source, _, rfl, fun keeps => ?_⟩
      cases keeps
    | _ => exact absurd rfl op

/-- An absolute request that has been answered is answered the same at any later time, without a
pull or any other change. Once the buffer has been filled, or all tokens or the whole text have been
asked for, the size of the buffer and the text are fixed. From then on the stream answers whatever
it is asked and leaves the source alone, so it makes no difference what that would do. -/
theorem answer_of_later {s t v : Stream (Metered σ)} (h : Reachable s) {limit : Nat}
    {c : Command (Metered σ)} (absolute : c.isAbsolute = true) {a : Answer (Metered σ)}
    (answered : (exec limit c).perform s = (.ok a, t)) (later : Later t v) :
    (∀ more, (exec more c).perform v = (.ok a, v)) ∧
      (c.takesAll = true →
        v.size = t.size ∧
        (∀ more, (exec more .text).perform v = (.ok (.text (joinTexts t.buffer.toList)), v)) ∧
        ∀ (source : Metered σ) (more : Nat) (d : Command (Metered σ)), d ≠ .pullSource →
          ∃ b w, (exec more d).perform { v with source } = (.ok b, w) ∧
            (d.keepsSource = true → w.source = source)) := by
  have extended := later.extends
  refine ⟨fun more => repeats_exec limit more absolute answered extended, fun all => ?_⟩
  have dry := dries_exec limit all answered
  have reached : Reachable v := by
    have after : Reachable ((exec limit c).perform s).2 := .exec limit c h
    rw [answered] at after
    exact later.reachable after
  refine ⟨extended.size_eq dry, fun more => ?_, fun source more d own => ?_⟩
  · have stops : (t.isDry || false) = true := by rw [dry, Bool.true_or]
    have now : (exec more .text).perform t = (.ok (.text (joinTexts t.buffer.toList)), t) := by
      have filled : (fill more).perform t = (.ok (), t) := perform_pullUntil_of_ready stops more
      have all : (tokens more).perform t = (.ok t.buffer.toList, t) :=
        StreamM.perform_bind_of_ok filled _
      have joined : (text more).perform t = (.ok (joinTexts t.buffer.toList), t) :=
        StreamM.perform_bind_of_ok all _
      exact StreamM.perform_bind_of_ok joined _
    exact repeats_exec more more rfl now extended
  · have sound := reached.sound
    refine answers_of_isDry (s := { v with source }) ⟨?_, sound.buffered, sound.ended⟩
      (extended.isDry dry) more own
    exact fun p placed => (sound.cursor p placed).congr rfl rfl rfl

/-- A blank and a word over a script that fails from its end on: the text is asked for, then blanks
are discarded and the source is pulled behind the stream's back. -/
theorem answer_of_later_text :
    let script : ScriptedSource :=
      { pending := [.ok (.onChannel 5 .hidden " " .unplaced), .ok (.plain 7 "a" .unplaced),
          .ok (.endOfStream .unplaced)]
        tail := .error (.lexical "bad")
        name := none }
    let s := start .standard (Metered.fresh script)
    let t := ((exec 3 .text).perform s).2
    let u := ((exec 3 (.discard 5)).perform t).2
    let v := ((exec 3 .pullSource).perform u).2
    Reachable s ∧ (Command.text : Command (Metered ScriptedSource)).isAbsolute = true ∧
      (exec 3 .text).perform s = (.ok (.text " a"), t) ∧ Later t v ∧
      (exec 0 .text).perform v = (.ok (.text " a"), v) ∧ v.size = t.size ∧
      ∃ b w, (exec 0 .consume).perform v = (.ok b, w) ∧ w.source = v.source := by
  intro script s t u v
  have reachable : Reachable s := .start .standard _
  have text : ((exec 3 .text).perform s).1 = .ok (.text " a") := rfl
  have answered : (exec 3 .text).perform s = (.ok (.text " a"), t) := by rw [← text]
  have later : Later t v := (ReflTransGen.single ⟨3, .discard 5, rfl, rfl⟩).tail
    ⟨3, .pullSource, rfl, rfl⟩
  obtain ⟨again, fixed⟩ := answer_of_later reachable rfl answered later
  obtain ⟨size, -, answers⟩ := fixed rfl
  obtain ⟨b, w, consumed, source⟩ := answers v.source 0 .consume (by simp)
  exact ⟨reachable, rfl, answered, later, again 0, size, b, w, consumed, source rfl⟩

end Stream

end Lookahead
