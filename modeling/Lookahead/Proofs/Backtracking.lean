import Lookahead.Proofs.Permanence

/-!
# Going back

A rewind does not restore a position: it searches from the marker, under whatever policy holds by
then and over whatever the source has become. It comes to the very slot that was marked, without a
pull, because that slot was settled and what is settled stays so (`perform_seek_of_settled`). The
tokens around the slot are where they were, so whatever was seen from there is seen again
(`Looks.again`). The last marker is set by nothing but `mark` (`lastMark_exec`), so going back to it
is a rewind as well. `looks_again_of_rewind` puts this together.
-/

namespace Lookahead.Stream

open Relation

variable {σ : Type} [TokenSource σ]

/-! ## What operations leave alone -/

/-- Whatever comes of the operation, the stream reads as before. -/
def Keeps {α β : Type} (read : Stream σ → β) (op : StreamM σ α) : Prop :=
  ∀ s, read (op.perform s).2 = read s

section

variable {α β γ : Type} {read : Stream σ → γ}

omit [TokenSource σ] in
theorem keeps_pure (a : α) : Keeps read (pure a) := fun _ => rfl

omit [TokenSource σ] in
theorem keeps_bind {op : StreamM σ α} {next : α → StreamM σ β} (first : Keeps read op)
    (then_ : ∀ a, Keeps read (next a)) : Keeps read (op >>= next) := by
  intro s
  have same := first s
  rcases performed : op.perform s with ⟨i | a, t⟩
  · rw [performed] at same
    rw [StreamM.perform_bind_of_error performed]
    exact same
  · rw [performed] at same
    rw [StreamM.perform_bind_of_ok performed]
    exact (then_ a t).trans same

omit [TokenSource σ] in
theorem keeps_bind_pure {op : StreamM σ α} (f : α → β) (h : Keeps read op) :
    Keeps read (op >>= fun a => pure (f a)) :=
  keeps_bind h fun _ => keeps_pure _

omit [TokenSource σ] in
theorem keeps_read (f : Stream σ → α) :
    Keeps read (getThe (Stream σ) >>= fun s => pure (f s) : StreamM σ α) := fun _ => rfl

variable
  (still : ∀ {s t : Stream σ}, t.cursor = s.cursor → t.lastMark = s.lastMark → read t = read s)

include still

/-- Pulls, whether they succeed or fail, touch neither the cursor nor the marker. -/
theorem keeps_pullUntil (ready : Stream σ → Bool) (limit : Nat) :
    Keeps read (pullUntil ready limit) := by
  intro s
  obtain ⟨t, pulls, ⟨ok, -⟩ | ⟨e, source, -, -, failed⟩ | out⟩ := pullUntil_cases ready limit s
  · rw [ok]
    exact still pulls.cursor pulls.lastMark
  · rw [failed]
    exact still pulls.cursor pulls.lastMark
  · rw [out]
    exact still pulls.cursor pulls.lastMark

theorem keeps_search (ready : Stream σ → Bool) (f : Stream σ → α) (limit : Nat) :
    Keeps read (search ready f limit) :=
  keeps_bind (keeps_pullUntil still ready limit) fun _ => keeps_read f

theorem keeps_nextVisible (limit i : Nat) : Keeps read (nextVisible limit i) := by
  intro s
  rw [perform_nextVisible]
  exact keeps_search still _ _ limit s

theorem keeps_stepsAhead (limit k i : Nat) : Keeps read (stepsAhead limit k i) := by
  induction k generalizing i with
  | zero => exact keeps_pure i
  | succ k ih =>
    intro s
    by_cases hi : i < s.size
    · rw [perform_stepsAhead_of_lt hi]
      exact keeps_bind (keeps_nextVisible still limit (i + 1)) ih s
    · rw [perform_stepsAhead_of_not_lt hi]

end

/-- Looking ahead leaves a cursor that is set where it is. -/
theorem cursor_lookahead {s : Stream σ} {p : Nat} (placed : s.cursor = some p) (limit : Nat)
    (k : Int) : ((lookahead limit k).perform s).2.cursor = some p := by
  match k with
  | .ofNat 0 => exact placed
  | .ofNat (k + 1) =>
    have steps : Keeps Stream.cursor (stepsAhead limit k p >>= fun i => get >>= fun s =>
        pure (s.buffer[i]? <|> s.endToken) : StreamM σ (Option Token)) :=
      keeps_bind (keeps_stepsAhead (fun cursor _ => cursor) limit k p) fun _ => keeps_read _
    have looked : (lookahead limit (.ofNat (k + 1))).perform s = _ :=
      StreamM.perform_bind_of_ok (perform_position_of_some placed limit) _
    rw [looked]
    exact (steps s).trans placed
  | .negSucc k =>
    have looked : (lookahead limit (.negSucc k)).perform s = _ :=
      StreamM.perform_bind_of_ok (perform_position_of_some placed limit) _
    rw [looked]
    exact placed

/-! ## The last marker -/

theorem lastMark_seek (limit i : Nat) : Keeps Stream.lastMark (seek limit i : StreamM σ Unit) :=
  keeps_bind (keeps_nextVisible (fun _ mark => mark) limit i) fun _ _ => rfl

theorem lastMark_position (limit : Nat) :
    Keeps Stream.lastMark (position limit : StreamM σ Nat) := by
  intro s
  rcases placed : s.cursor with _ | p
  · rw [perform_position_of_none placed]
    exact keeps_bind (keeps_nextVisible (fun _ mark => mark) limit 0) (fun _ _ => rfl) s
  · rw [perform_position_of_some placed]

theorem lastMark_consume (limit : Nat) :
    Keeps Stream.lastMark (consume limit : StreamM σ Unit) := by
  refine keeps_bind (lastMark_position limit) fun p s => ?_
  rw [StreamM.perform_bind, StreamM.perform_get]
  dsimp only
  split
  · exact lastMark_seek limit (p + 1) s
  · rfl

theorem lastMark_lookahead (limit : Nat) (k : Int) :
    Keeps Stream.lastMark (lookahead limit k : StreamM σ (Option Token)) := by
  match k with
  | .ofNat 0 => exact keeps_pure none
  | .ofNat (k + 1) =>
    refine keeps_bind (lastMark_position limit) fun p => ?_
    exact keeps_bind (keeps_stepsAhead (fun _ mark => mark) limit k p) fun _ => keeps_read _
  | .negSucc k => exact keeps_bind (lastMark_position limit) fun _ => keeps_read _

theorem lastMark_drainTexts (limit count : Nat) :
    Keeps Stream.lastMark (drainTexts limit count : StreamM σ (List String)) := by
  induction count with
  | zero => exact fun s => rfl
  | succ count ih =>
    refine keeps_bind (lastMark_lookahead limit 1) fun found => ?_
    cases found with
    | none => exact keeps_pure []
    | some token =>
      dsimp only
      split
      · exact keeps_pure []
      · exact keeps_bind (lastMark_consume limit) fun _ => keeps_bind_pure _ ih

theorem lastMark_range (limit first last : Nat) :
    Keeps Stream.lastMark (range limit first last : StreamM σ (List Token)) := by
  unfold range
  split
  · exact keeps_pure []
  · exact keeps_search (fun _ mark => mark) _ _ limit

/-- Marking sets the cursor, on a settled slot, and the marker to the same slot. -/
theorem mark_ok {limit m : Nat} {s t : Stream σ} (sound : s.CursorSettled)
    (h : (mark limit).perform s = (.ok m, t)) :
    t.cursor = some m ∧ t.lastMark = m ∧ t.Settled m := by
  rcases StreamM.perform_bind_ok h with ⟨p, u, positioned, h⟩
  cases h
  exact ⟨(position_ok positioned).1, rfl, (settled_of_position sound positioned).congr rfl rfl rfl⟩

/-- A mark that fails has not come further than positioning the cursor. -/
theorem lastMark_of_mark_failed {limit : Nat} {s t : Stream σ} {i : Interrupt}
    (failed : (mark limit).perform s = (.error i, t)) : t.lastMark = s.lastMark := by
  rcases StreamM.perform_bind_error failed with failed | ⟨p, u, -, failed⟩
  · have same := lastMark_position limit s
    rwa [failed] at same
  · cases failed

theorem lastMark_operation (limit : Nat) {c : Command σ} (op : c.isOperation = true)
    (other : c ≠ .mark) : Keeps Stream.lastMark (exec limit c) := by
  apply exec_induction op (P := fun op => Keeps Stream.lastMark op)
  case wrap => exact keeps_bind_pure
  case value => exact keeps_pure
  case policy => exact fun read _ => keeps_read _
  case name => exact fun _ => keeps_read _
  case consume => exact fun _ => lastMark_consume limit
  case lookahead => exact fun k _ => lastMark_lookahead limit k
  case get? => exact fun i => keeps_search (fun _ mark => mark) _ _ limit
  case mark => exact fun marking => absurd marking other
  case seek => exact lastMark_seek limit
  case rewindToMark => exact fun s => lastMark_seek limit s.lastMark s
  case fill => exact keeps_pullUntil (fun _ mark => mark) _ limit
  case tokens => exact keeps_search (fun _ mark => mark) _ _ limit
  case range => exact lastMark_range limit
  case drain => exact fun _ s => lastMark_drainTexts limit _ s

/-- The last marker is left alone by every command that leaves the stream its source, unless it is a
mark that succeeds. -/
theorem lastMark_exec (limit : Nat) {c : Command σ} (keeps : c.keepsSource = true) (s : Stream σ)
    (unmarked : c = .mark → ∀ a, ((exec limit c).perform s).1 ≠ .ok a) :
    ((exec limit c).perform s).2.lastMark = s.lastMark := by
  by_cases op : c.isOperation = true
  · by_cases marking : c = .mark
    · subst marking
      rcases marked : (exec limit .mark).perform s with ⟨i | a, t⟩
      · rcases StreamM.perform_bind_error marked with failed | ⟨m, u, -, failed⟩
        · exact lastMark_of_mark_failed failed
        · cases failed
      · exact absurd (congrArg Prod.fst marked) (unmarked rfl a)
    · exact lastMark_operation limit op marking s
  · rcases other_exec limit (Bool.eq_false_iff.2 op) s with
      ⟨p, journal, -, left⟩ | ⟨-, left⟩ | ⟨other, rfl, -⟩
    · rw [left]
    · rw [left]
    · cases keeps

/-- What a stream can become by commands, whatever their outcome, none of which installs another
source or sets the marker. -/
abbrev LaterUnmarked : Stream σ → Stream σ → Prop :=
  ReflTransGen fun s t =>
    ∃ limit c, c.keepsSource = true ∧ (c = .mark → ∀ a, ((exec limit c).perform s).1 ≠ .ok a) ∧
      ((exec limit c).perform s).2 = t

theorem LaterUnmarked.lastMark {s t : Stream σ} (later : LaterUnmarked s t) :
    t.lastMark = s.lastMark := by
  induction later with
  | refl => rfl
  | tail _ step ih =>
    obtain ⟨limit, c, keeps, unmarked, rfl⟩ := step
    exact (lastMark_exec limit keeps _ unmarked).trans ih

theorem LaterUnmarked.later {s t : Stream σ} (later : LaterUnmarked s t) : Later s t :=
  later.lift id fun _ _ ⟨limit, c, keeps, _, left⟩ => ⟨limit, c, keeps, left⟩

/-! ## Back to a settled slot -/

/-- The search for a visible slot stays at one that is settled, and the cursor is put there without
a pull. -/
theorem perform_seek_of_settled {s : Stream σ} {i : Nat} (settled : s.Settled i) (limit : Nat) :
    (seek limit i).perform s = (.ok (), { s with cursor := some i }) := by
  obtain ⟨stops, there⟩ := target_of_settled settled
  have found : (nextVisible limit i).perform s = (.ok i, s) := by
    rw [perform_nextVisible, perform_search, perform_pullUntil_of_ready stops]
    simp only [there]
  exact StreamM.perform_bind_of_ok found _

/-! ## Looking again -/

/-- Steps that have been made from a slot lead to the same slot ever after, without a pull. -/
theorem stepsAhead_again {limit k i j : Nat} {s t v : Stream σ} (settled : s.Settled i)
    (stepped : (stepsAhead limit k i).perform s = (.ok j, t)) (later : t.Extends v) (more : Nat) :
    (stepsAhead more k i).perform v = (.ok j, v) := by
  induction k generalizing i s with
  | zero =>
    cases stepped
    rfl
  | succ k ih =>
    have grown : s.Extends v := (stepsAhead_ok settled stepped).1.extends.trans later
    by_cases hi : i < s.size
    · rw [perform_stepsAhead_of_lt hi] at stepped
      rcases StreamM.perform_bind_ok stepped with ⟨m, u, search, stepped⟩
      have found : u.Settled m := (nextVisible_ok search).2.2
      have grown' : u.Extends v := (stepsAhead_ok found stepped).1.extends.trans later
      have again : (nextVisible more (i + 1)).perform v = (.ok m, v) :=
        repeats_nextVisible limit more (i + 1) search grown'
      rw [perform_stepsAhead_of_lt (Nat.lt_of_lt_of_le hi grown.within.size_le),
        StreamM.perform_bind_of_ok again]
      exact ih found stepped
    · obtain ⟨atEnd, dry⟩ := settled.isDry hi
      rw [perform_stepsAhead_of_not_lt hi] at stepped
      cases stepped
      exact perform_stepsAhead_of_not_lt (by rw [grown.size_eq dry]; exact hi) more (k + 1)

/-- A lookahead that has been answered is answered the same, without a pull, whenever the cursor is
where it was. -/
theorem lookahead_again {limit p : Nat} {k : Int} {s t v : Stream σ} {found : Option Token}
    (sound : s.CursorSettled) (placed : s.cursor = some p)
    (looked : (lookahead limit k).perform s = (.ok found, t)) (later : t.Extends v)
    (back : v.cursor = some p) (more : Nat) :
    (lookahead more k).perform v = (.ok found, v) := by
  have settled : s.Settled p := sound p placed
  match k with
  | .ofNat 0 =>
    cases looked
    rfl
  | .ofNat (k + 1) =>
    rcases StreamM.perform_bind_ok looked with ⟨q, u, positioned, looked⟩
    rw [perform_position_of_some placed] at positioned
    cases positioned
    rcases StreamM.perform_bind_ok looked with ⟨i, u, stepped, looked⟩
    cases looked
    have again : (lookahead more (.ofNat (k + 1))).perform v = _ :=
      StreamM.perform_bind_of_ok (perform_position_of_some back more) _
    rw [again, StreamM.perform_bind_of_ok (stepsAhead_again settled stepped later more),
      ← later.read_eq (stepsAhead_ok settled stepped).2.1]
    rfl
  | .negSucc k =>
    rcases StreamM.perform_bind_ok looked with ⟨q, u, positioned, looked⟩
    rw [perform_position_of_some placed] at positioned
    cases positioned
    cases looked
    have again : (lookahead more (.negSucc k)).perform v = _ :=
      StreamM.perform_bind_of_ok (perform_position_of_some back more) _
    rw [again, ← later.within.readBack_eq k settled.le_size]
    rfl

/-- Lookaheads one after the other, and what those that succeed find. -/
inductive Looks : Stream σ → List (Int × Option Token) → Stream σ → Prop
  | nil {s : Stream σ} : Looks s [] s
  | found {s t u : Stream σ} {looks : List (Int × Option Token)} (limit : Nat) {k : Int}
    {found : Option Token} : (exec limit (.lookahead k)).perform s = (.ok (.token? found), t) →
    Looks t looks u → Looks s ((k, found) :: looks) u
  | failed {s t u : Stream σ} {looks : List (Int × Option Token)} (limit : Nat) {k : Int}
    {i : Interrupt} : (exec limit (.lookahead k)).perform s = (.error i, t) →
    Looks t looks u → Looks s looks u

namespace Looks

variable {s t u v : Stream σ} {looks : List (Int × Option Token)} {m : Nat}

/-- Looking around leaves a cursor that is set where it is. -/
theorem cursor {limit : Nat} {k : Int} {result : Except Interrupt (Answer σ)}
    (placed : s.cursor = some m)
    (looked : (exec limit (.lookahead k)).perform s = (result, t)) : t.cursor = some m := by
  have stays := cursor_lookahead placed limit k
  rw [exec, StreamM.perform_bind] at looked
  rcases ended : (lookahead limit k).perform s with ⟨i | found, u⟩
  all_goals
    rw [ended] at looked stays
    cases looked
    exact stays

theorem laterUnmarked (h : Looks s looks u) : LaterUnmarked s u := by
  have step {s t u : Stream σ} {k : Int} {limit : Nat} {result : Except Interrupt (Answer σ)}
      (looked : (exec limit (.lookahead k)).perform s = (result, t)) (rest : LaterUnmarked t u) :
      LaterUnmarked s u :=
    .head ⟨limit, .lookahead k, rfl, (by intro marking; cases marking), by rw [looked]⟩ rest
  induction h with
  | nil => exact .refl
  | found _ looked _ ih => exact step looked ih
  | failed _ looked _ ih => exact step looked ih

/-- Whatever has been found from a slot is found again when the cursor is back there. -/
theorem again (h : Looks s looks u) (sound : s.Sound) (placed : s.cursor = some m)
    (later : u.Extends v) (back : v.cursor = some m) {k : Int} {found : Option Token}
    (seen : (k, found) ∈ looks) (more : Nat) :
    (exec more (.lookahead k)).perform v = (.ok (.token? found), v) := by
  induction h with
  | nil => cases seen
  | @found s t u looks limit k' found' looked rest ih =>
    have sound' : t.Sound := (operates_exec limit rfl s).sound_of_perform looked sound
    rcases List.mem_cons.1 seen with here | further
    · cases here
      have grown : t.Extends v := rest.laterUnmarked.later.extends.trans later
      rcases StreamM.perform_bind_ok looked with ⟨found, w, looked, answered⟩
      cases answered
      exact StreamM.perform_bind_of_ok
        (lookahead_again sound.cursor placed looked grown back more) _
    · exact ih sound' (cursor placed looked) later further
  | @failed s t u looks limit k' i looked rest ih =>
    have sound' : t.Sound := (operates_exec limit rfl s).sound_of_perform looked sound
    exact ih sound' (cursor placed looked) later seen

end Looks

/-- Rewinding to a marker is exact: whatever has been done to the stream since the marker was set,
short of installing another source, the rewind puts the cursor back on the slot that was marked and
changes nothing else, and what was found around it before is found again, without a pull. So does
going back to the last marker, unless another one has been set. -/
theorem looks_again_of_rewind {s t u v : Stream σ} (h : Reachable s) {limit m : Nat}
    (marked : (exec limit .mark).perform s = (.ok (.slot m), t))
    {looks : List (Int × Option Token)} (looked : Looks t looks u) (later : Later u v) :
    let w : Stream σ := { v with cursor := some m }
    w.index = m ∧
      (∀ more, (exec more (.rewind m)).perform v = (.ok .nothing, w)) ∧
      (LaterUnmarked u v → ∀ more, (exec more .rewindToMark).perform v = (.ok .nothing, w)) ∧
      ∀ k found, (k, found) ∈ looks →
        ∀ more, (exec more (.lookahead k)).perform w = (.ok (.token? found), w) := by
  intro w
  rcases StreamM.perform_bind_ok marked with ⟨i, t', marked, answered⟩
  cases answered
  have sound : t.Sound := (operates_mark limit s).sound_of_perform marked h.sound
  obtain ⟨placed, remembered, settled⟩ := mark_ok h.sound.cursor marked
  have grown : u.Extends v := later.extends
  have there : v.Settled m := (looked.laterUnmarked.later.extends.trans grown).settled settled
  have rewound (more : Nat) : (seek more m).perform v = (.ok (), w) :=
    perform_seek_of_settled there more
  refine ⟨rfl, fun more => StreamM.perform_bind_of_ok (rewound more) _, ?_, ?_⟩
  · intro unmarked more
    have last : v.lastMark = m :=
      (unmarked.lastMark.trans looked.laterUnmarked.lastMark).trans remembered
    have back : (rewindToMark more).perform v = (.ok (), w) := by
      rw [rewindToMark, StreamM.perform_bind, StreamM.perform_get]
      dsimp only
      rw [last]
      exact rewound more
    exact StreamM.perform_bind_of_ok back _
  · intro k found seen more
    have grown' : u.Extends w := grown.trans (.of_same rfl rfl rfl)
    exact looked.again sound placed grown' rfl seen more

/-- A blank and two words, and then every pull fails. The first word is marked, and the second one
is seen from there. Then the first is consumed, words are rerouted, a seek fails, and the source is
pulled behind the stream's back. -/
theorem looks_again_of_rewind_listed :
    let source := ListedSource.ofList
      [.onChannel 5 .hidden " " .unplaced, .plain 7 "a" .unplaced, .plain 7 "b" .unplaced]
    let second := (Token.plain 7 "b" .unplaced).stamp 2
    let s := start .standard source
    let t := ((exec 3 .mark).perform s).2
    let u := ((exec 3 (.lookahead 2)).perform t).2
    let consumed := ((exec 3 .consume).perform u).2
    let rerouted := ((exec 3 (.reroute 7 .hidden)).perform consumed).2
    let sought := ((exec 3 (.seek 9)).perform rerouted).2
    let v := ((exec 3 .pullSource).perform sought).2
    let w := { v with cursor := some 1 }
    Reachable s ∧ (exec 3 .mark).perform s = (.ok (.slot 1), t) ∧
      Looks t [(2, some second)] u ∧ Later u v ∧
      ((exec 3 (.seek 9)).perform rerouted).1 = .error (.failed (.missingEnd 3)) ∧ v.index = 2 ∧
      (exec 0 .rewindToMark).perform v = (.ok .nothing, w) ∧
      (exec 0 (.lookahead 2)).perform w = (.ok (.token? (some second)), w) := by
  intro source second s t u consumed rerouted sought v w
  have reachable : Reachable s := .start .standard source
  have slot : ((exec 3 .mark).perform s).1 = .ok (.slot 1) := by decide +kernel
  have marked : (exec 3 .mark).perform s = (.ok (.slot 1), t) := by rw [← slot]
  have seen : ((exec 3 (.lookahead 2)).perform t).1 = .ok (.token? (some second)) := by
    decide +kernel
  have looked : Looks t [(2, some second)] u := .found 3 (by rw [← seen]) .nil
  have unmarked : LaterUnmarked u v := by
    have step {x : Stream ListedSource} (c : Command ListedSource) (keeps : c.keepsSource = true)
        (other : c ≠ .mark) (before : LaterUnmarked u x) :
        LaterUnmarked u ((exec 3 c).perform x).2 :=
      before.tail ⟨3, c, keeps, fun marking => absurd marking other, rfl⟩
    have first : LaterUnmarked u consumed := step .consume rfl (by simp) .refl
    have second : LaterUnmarked u rerouted := step (.reroute 7 .hidden) rfl (by simp) first
    have third : LaterUnmarked u sought := step (.seek 9) rfl (by simp) second
    exact step .pullSource rfl (by simp) third
  obtain ⟨-, -, back, again⟩ := looks_again_of_rewind reachable marked looked unmarked.later
  exact ⟨reachable, marked, looked, unmarked.later, by decide +kernel, by decide +kernel,
    back unmarked 0, again 2 (some second) List.mem_cons_self 0⟩

end Lookahead.Stream
