import Lookahead.Proofs.Motion
import Lookahead.Source.Metered

/-!
# The buffer as a history of pulls

A `History` is kept beside a run, not by the stream: the policy in force as the commands given so
far make it, and the pulls that the stream made itself since its source was installed, each a `Draw`
with the policy in force at that pull. How many pulls a command made is read off the count of the
metered source, and what they gave is what the source gives when it is pulled so often.

`buffer_eq_contents` says that this history determines the buffer and the end-of-stream token after
every run.
-/

namespace Lookahead

/-- A pull that a stream made: the policy then in force, and the result. -/
structure Draw where
  policy : Policy
  result : Pulled

namespace Draw

/-- The token that a draw adds to the buffer, if it adds one: it is moved to the channel of its
override, left out if its kind is discarded, and left out if off-channel tokens are dropped and it
is one. -/
def kept? (d : Draw) : Option Token :=
  match d.result with
  | .error _ => none
  | .ok given =>
    let moved := match d.policy.overrides.find? given.kind with
      | some channel => given.moveTo channel
      | none => given
    if given.isEnd then none
    else if d.policy.discards.contains given.kind then none
    else if d.policy.dropsOffChannel && moved.channel != d.policy.channel then none
    else some moved

/-- The end-of-stream token that a draw gave, if it gave one. -/
def end? (d : Draw) : Option Token :=
  match d.result with
  | .ok given => if given.isEnd then some given else none
  | .error _ => none

end Draw

/-- What draws leave in the buffer: the tokens they add, each under the number of its slot. -/
def contents (draws : List Draw) : List Token :=
  (draws.filterMap Draw.kept?).mapIdx fun n t => t.stamp n

/-- What draws leave as end-of-stream token: the one that the last of them gave, under the number
of tokens buffered. -/
def ending (draws : List Draw) : Option Token :=
  (draws.getLast?.bind Draw.end?).map fun t => t.stamp (contents draws).length

theorem contents_concat (draws : List Draw) (d : Draw) :
    contents (draws ++ [d]) =
      contents draws ++ (d.kept?.map fun t => t.stamp (contents draws).length).toList := by
  have length : (contents draws).length = (draws.filterMap Draw.kept?).length :=
    List.length_mapIdx
  rw [length, contents, contents, List.filterMap_append, List.mapIdx_append]
  rcases kept : d.kept? with _ | t
  · simp [kept]
  · simp [kept]

theorem ending_concat (draws : List Draw) (d : Draw) :
    ending (draws ++ [d]) = d.end?.map fun t => t.stamp (contents (draws ++ [d])).length := by
  rw [ending, List.getLast?_append, List.getLast?_singleton, Option.some_or, Option.bind_some]

/-- What a draw adds is what the policy judges worth keeping. -/
theorem Draw.kept?_ok (p : Policy) (t : Token) :
    (Draw.mk p (.ok t)).kept? =
      if t.isEnd then none
      else
        match p.judge t with
        | .keep channel => some (t.moveTo channel)
        | _ => none := by
  have moved : (match p.overrides.find? t.kind with
      | some channel => t.moveTo channel
      | none => t) = t.moveTo (p.route t) := by
    unfold Policy.route
    split
    · next found => rw [found, Option.getD_some]
    · next found => rw [found, Option.getD_none, Token.moveTo]
  unfold kept? Policy.judge
  dsimp only
  rw [moved]
  split
  · rfl
  · by_cases discarded : p.discards.contains t.kind = true
    · rw [if_pos discarded, if_pos discarded]
    · rw [if_neg discarded, if_neg discarded, Token.moveTo]
      split <;> rfl

/-! ## Histories of runs -/

namespace TokenSource

variable {σ : Type} [TokenSource σ]

/-- The results of the next pulls of a source. -/
def results (source : σ) : (n : Nat) → List Pulled
  | 0 => []
  | n + 1 => (next source).1 :: results (next source).2 n

/-- A source after its next pulls. -/
def after (source : σ) : (n : Nat) → σ
  | 0 => source
  | n + 1 => after (next source).2 n

theorem results_succ (source : σ) (n : Nat) :
    results source (n + 1) = results source n ++ [(next (after source n)).1] := by
  induction n generalizing source with
  | zero => rfl
  | succ n ih => rw [results, ih, results, after, List.cons_append]

theorem after_succ (source : σ) (n : Nat) :
    after source (n + 1) = (next (after source n)).2 := by
  induction n generalizing source with
  | zero => rfl
  | succ n ih => rw [after, ih, after]

theorem after_after (source : σ) (m n : Nat) :
    after (after source m) n = after source (m + n) := by
  induction n with
  | zero => rfl
  | succ n ih => rw [after_succ, ih, Nat.add_succ, after_succ]

/-- The count of a metered source goes up by one with every pull. -/
theorem after_metered (source : Metered σ) (n : Nat) :
    after source n = ⟨after source.source n, source.pulls + n⟩ := by
  induction n with
  | zero => rfl
  | succ n ih =>
    rw [after_succ, after_succ, ih]
    rfl

end TokenSource

/-- To discard a kind once more changes nothing. -/
theorem Policy.discard_of_contains {p : Policy} {kind : Kind}
    (h : p.discards.contains kind = true) : p.discard kind = p := by
  have member : kind ∈ p.discards.kinds := by simpa [Discards.contains] using h
  rw [Policy.discard, Discards.insert, dif_pos member]

/-- What has happened to a stream since it was started. -/
structure History where
  policy : Policy
  draws : List Draw

/-- Whether the event is a change of the policy. -/
def Event.isSetting : Event → Bool
  | discarding _ | droppingOffChannel _ | rerouting _ _ => true
  | _ => false

namespace Stream

variable {σ : Type} [TokenSource σ]

theorem PullStep.source {s t : Stream σ} (step : PullStep s t) :
    t.source = TokenSource.after s.source 1 := by
  obtain ⟨token, source, next, rfl⟩ := step.exists_token
  exact (receive_source _ _).trans (congrArg Prod.snd next).symm

/-- The history after a command that has led from stream `s` to stream `t`. -/
def recordCommand (h : History) (s t : Stream (Metered σ)) : Command (Metered σ) → History
  | .discard kind => { h with policy := h.policy.discard kind }
  | .reroute kind channel => { h with policy := h.policy.reroute kind channel }
  | .dropOffChannel drop => { h with policy := h.policy.dropOffChannel drop }
  | .pullSource => h
  | .replace _ => { h with draws := [] }
  | _ =>
    let results := TokenSource.results s.source.source (t.source.pulls - s.source.pulls)
    { h with draws := h.draws ++ results.map (Draw.mk h.policy) }

/-- The stream after commands, whatever their outcome. -/
def run {σ : Type} [TokenSource σ] (limit : Nat) (s : Stream σ) : List (Command σ) → Stream σ
  | [] => s
  | c :: rest => run limit ((exec limit c).perform s).2 rest

/-- The history of a run that continues from stream `s` with history `h`. -/
def historyFrom (limit : Nat) (s : Stream (Metered σ)) (h : History) :
    List (Command (Metered σ)) → History
  | [] => h
  | c :: rest =>
    let t := ((exec limit c).perform s).2
    historyFrom limit t (recordCommand h s t c) rest

/-- The history of a run of a new stream. -/
def history (limit : Nat) (policy : Policy) (source : Metered σ)
    (cs : List (Command (Metered σ))) : History :=
  historyFrom limit (.start policy source) { policy, draws := [] } cs

/-! ## What holds of streams and their histories -/

/-- The relation between the draws since the source was installed and the stream is kept by whatever
commands do. -/
structure Upheld (Inv : List Draw → Stream (Metered σ) → Prop) : Prop where
  taken : ∀ {draws s} (t : Token), s.isDry = false → Inv draws s →
    Inv (draws ++ [⟨s.policy, .ok t⟩]) (s.receive t)
  failed : ∀ {draws s} (e : SourceError), s.isDry = false → Inv draws s →
    Inv (draws ++ [⟨s.policy, .error e⟩]) (s.note (.failed e))
  moved : ∀ {draws s} cursor lastMark, Inv draws s → Inv draws { s with cursor, lastMark }
  swapped : ∀ {draws s} source, Inv draws s → Inv draws { s with source }
  changed : ∀ {draws s e} policy, e.isSetting = true → Inv draws s →
    Inv draws { s.note e with policy }
  replaced : ∀ {draws s} source, Inv draws s → Inv [] (s.replaceSource source)

section

variable {Inv : List Draw → Stream (Metered σ) → Prop}

/-- The pulls of an operation are the next ones of the source, and all are made under one policy. -/
theorem Upheld.operates (upheld : Upheld Inv) {draws : List Draw} {s t : Stream (Metered σ)}
    (h : Inv draws s) (operates : Operates s t) :
    t.policy = s.policy ∧ ∃ n,
      t.source = ⟨TokenSource.after s.source.source n, s.source.pulls + n⟩ ∧
      Inv (draws ++ (TokenSource.results s.source.source n).map (Draw.mk s.policy)) t := by
  induction operates with
  | refl => exact ⟨rfl, 0, rfl, by simpa [TokenSource.results] using h⟩
  | @tail u t _ step ih =>
    obtain ⟨policy, n, source, inv⟩ := ih
    rw [← policy] at inv
    have later : ∀ {result : Pulled} {source' : Metered σ},
        TokenSource.next u.source = (result, source') →
        source' = ⟨TokenSource.after s.source.source (n + 1), s.source.pulls + (n + 1)⟩ ∧
          draws ++ (TokenSource.results s.source.source (n + 1)).map (Draw.mk s.policy) =
            draws ++ (TokenSource.results s.source.source n).map (Draw.mk u.policy) ++
              [⟨u.policy, result⟩] := by
      intro result source' next
      obtain ⟨rfl, rfl⟩ := Metered.next_inv next
      rw [source, TokenSource.after_succ, TokenSource.results_succ, List.map_append,
        List.append_assoc, policy]
      exact ⟨rfl, rfl⟩
    cases step with
    | pulled step =>
      obtain ⟨token, source', next, rfl⟩ := step.exists_token
      obtain ⟨same, drawn⟩ := later next
      refine ⟨(receive_policy _ _).trans policy, n + 1, (receive_source _ _).trans same, ?_⟩
      rw [drawn]
      exact upheld.taken (s := { u with source := source' }) token step.1 (upheld.swapped _ inv)
    | @failed e source' wet next =>
      obtain ⟨same, drawn⟩ := later next
      refine ⟨policy, n + 1, same, ?_⟩
      rw [drawn]
      exact upheld.failed (s := { u with source := source' }) e wet (upheld.swapped _ inv)
    | placed _ => exact ⟨policy, n, source, policy ▸ upheld.moved _ _ inv⟩
    | marked _ => exact ⟨policy, n, source, policy ▸ upheld.moved _ _ inv⟩

theorem recordCommand_of_isOperation (h : History) (s t : Stream (Metered σ))
    {c : Command (Metered σ)} (op : c.isOperation = true) :
    recordCommand h s t c = { h with
      draws := h.draws ++ (TokenSource.results s.source.source
        (t.source.pulls - s.source.pulls)).map (Draw.mk h.policy) } := by
  cases c with
  | discard _ => cases op
  | reroute _ _ => cases op
  | dropOffChannel _ => cases op
  | pullSource => cases op
  | replace _ => cases op
  | _ => rfl

/-- A command keeps the relation, and changes the policy as the history says. -/
theorem Upheld.exec (upheld : Upheld Inv) (limit : Nat) {s : Stream (Metered σ)} {h : History}
    (policy : s.policy = h.policy) (inv : Inv h.draws s) (c : Command (Metered σ)) :
    let t := ((Stream.exec limit c).perform s).2
    t.policy = (recordCommand h s t c).policy ∧ Inv (recordCommand h s t c).draws t := by
  intro t
  by_cases op : c.isOperation = true
  · obtain ⟨policy', n, source, inv'⟩ := upheld.operates inv (operates_exec limit op s)
    have count : t.source.pulls - s.source.pulls = n := by
      rw [show t.source = _ from source, Nat.add_sub_cancel_left]
    rw [recordCommand_of_isOperation h s t op, count]
    refine ⟨policy'.trans policy, ?_⟩
    rw [← policy]
    exact inv'
  · cases c with
    | discard kind =>
      show (s.discard kind).policy = h.policy.discard kind ∧ Inv h.draws (s.discard kind)
      unfold discard
      split
      · next discarded =>
        have same : h.policy.discard kind = h.policy :=
          Policy.discard_of_contains (policy ▸ discarded)
        exact ⟨policy.trans same.symm, inv⟩
      · exact ⟨congrArg (·.discard kind) policy, upheld.changed _ rfl inv⟩
    | reroute kind channel =>
      exact ⟨congrArg (·.reroute kind channel) policy, upheld.changed _ rfl inv⟩
    | dropOffChannel drop =>
      exact ⟨congrArg (·.dropOffChannel drop) policy, upheld.changed _ rfl inv⟩
    | pullSource =>
      have left : t = { s with source := (TokenSource.next s.source).2 } :=
        perform_exec_pullSource limit s
      rw [left]
      exact ⟨policy, upheld.swapped _ inv⟩
    | replace other => exact ⟨policy, upheld.replaced other inv⟩
    | _ => exact absurd rfl op

theorem Upheld.run (upheld : Upheld Inv) (limit : Nat) (cs : List (Command (Metered σ)))
    {s : Stream (Metered σ)} {h : History} (policy : s.policy = h.policy) (inv : Inv h.draws s) :
    (run limit s cs).policy = (historyFrom limit s h cs).policy ∧
      Inv (historyFrom limit s h cs).draws (Stream.run limit s cs) := by
  induction cs generalizing s h with
  | nil => exact ⟨policy, inv⟩
  | cons c rest ih =>
    obtain ⟨policy', inv'⟩ := upheld.exec limit policy inv c
    exact ih policy' inv'

end

/-! ## What a history explains -/

/-- Buffer and end-of-stream token are what the draws leave. -/
structure Explained {σ : Type} (draws : List Draw) (s : Stream σ) : Prop where
  buffer : s.buffer.toList = contents draws
  endToken : s.endToken = ending draws

theorem Explained.length {σ : Type} {draws : List Draw} {s : Stream σ} (h : Explained draws s) :
    (contents draws).length = s.size := by
  rw [← h.buffer, Array.length_toList, size]

/-- A token that is taken in continues the explanation. -/
theorem Explained.receive {σ : Type} {draws : List Draw} {s : Stream σ} (h : Explained draws s)
    (t : Token) (wet : s.isDry = false) :
    Explained (draws ++ [⟨s.policy, .ok t⟩]) (s.receive t) := by
  have absent : s.endToken = none := endToken_of_wet wet
  cases ends : t.isEnd with
  | true =>
    have kept : (Draw.mk s.policy (.ok t)).kept? = none := by rw [Draw.kept?_ok, if_pos ends]
    have same : contents (draws ++ [⟨s.policy, .ok t⟩]) = contents draws := by
      rw [contents_concat, kept, Option.map_none, Option.toList_none, List.append_nil]
    constructor
    · rw [(s.receive_of_isEnd ends).1, same, h.buffer]
    · rw [(s.receive_of_isEnd ends).2, ending_concat, same, h.length, Draw.end?]
      simp only [ends, if_true, Option.map_some]
  | false =>
    have noEnd : (Draw.mk s.policy (.ok t)).end? = none := by
      rw [Draw.end?]
      simp only [ends, Bool.false_eq_true, if_false]
    have kept := Draw.kept?_ok s.policy t
    rw [if_neg (by simp [ends])] at kept
    constructor
    · rw [contents_concat, kept, h.length, ← h.buffer]
      cases verdict : s.policy.judge t with
      | keep channel => rw [s.receive_of_keep ends verdict, Array.toList_push]; rfl
      | dropKind =>
        rw [s.receive_of_drop ends (by simp [verdict]), Option.map_none, Option.toList_none,
          List.append_nil]
      | dropOffChannel channel =>
        rw [s.receive_of_drop ends (by simp [verdict]), Option.map_none, Option.toList_none,
          List.append_nil]
    · rw [s.receive_endToken ends, ending_concat, noEnd, Option.map_none, absent]

/-- A pull that fails contributes nothing. -/
theorem Explained.fail {σ : Type} {draws : List Draw} {s : Stream σ} (h : Explained draws s)
    (e : SourceError) (wet : s.isDry = false) :
    Explained (draws ++ [⟨s.policy, .error e⟩]) s := by
  constructor
  · rw [contents_concat, h.buffer]
    exact (List.append_nil _).symm
  · rw [ending_concat, endToken_of_wet wet]
    rfl

omit [TokenSource σ] in
theorem Explained.upheld : @Upheld σ Explained where
  taken t wet h := h.receive t wet
  failed e wet h := ⟨(h.fail e wet).buffer, (h.fail e wet).endToken⟩
  moved _ _ h := ⟨h.buffer, h.endToken⟩
  swapped _ h := ⟨h.buffer, h.endToken⟩
  changed _ _ h := ⟨h.buffer, h.endToken⟩
  replaced _ _ := ⟨rfl, rfl⟩

/-! ## The result -/

theorem mem_contents {draws : List Draw} {n : Nat} {t : Token}
    (h : (contents draws)[n]? = some t) :
    t.index = some n ∧ ∃ d ∈ draws, ∃ given : Token, d.result = .ok given ∧ given.isEnd = false ∧
      t.kind = given.kind ∧ t.text = given.text ∧ t.span = given.span := by
  rw [contents, List.getElem?_mapIdx, Option.map_eq_some_iff] at h
  obtain ⟨kept, found, rfl⟩ := h
  obtain ⟨d, hd, hkept⟩ := List.mem_filterMap.1 (List.mem_of_getElem? found)
  refine ⟨rfl, d, hd, ?_⟩
  rcases d with ⟨p, e | given⟩
  · cases hkept
  · rw [Draw.kept?_ok] at hkept
    split at hkept
    · cases hkept
    · next noEnd =>
      split at hkept
      · cases hkept
        exact ⟨given, rfl, by simpa using noEnd, rfl, rfl, rfl⟩
      · cases hkept

theorem ending_eq_some {draws : List Draw} {e : Token} :
    ending draws = some e ↔
      ∃ d, ∃ given : Token, draws.getLast? = some d ∧ d.result = .ok given ∧ given.isEnd = true ∧
        e = given.stamp (contents draws).length := by
  rw [ending, Option.map_eq_some_iff]
  constructor
  · intro h
    obtain ⟨given, found, rfl⟩ := h
    obtain ⟨d, last, ends⟩ := Option.bind_eq_some_iff.1 found
    rcases d with ⟨p, e | t⟩
    · cases ends
    · simp only [Draw.end?, Option.ite_none_right_eq_some, Option.some.injEq] at ends
      obtain ⟨isEnd, rfl⟩ := ends
      exact ⟨_, t, last, rfl, isEnd, rfl⟩
  · intro h
    obtain ⟨d, given, last, result, isEnd, rfl⟩ := h
    refine ⟨given, ?_, rfl⟩
    rw [last, Option.bind_some, Draw.end?, result]
    simp only [isEnd, if_true]

/-- After every run the buffer holds what the draws since the source was installed contribute, slot
by slot, and the end-of-stream token is there if and only if the last of them gave one. -/
theorem buffer_eq_contents (limit : Nat) (policy : Policy) (source : Metered σ)
    (cs : List (Command (Metered σ))) :
    let s := run limit (.start policy source) cs
    let h := history limit policy source cs
    s.policy = h.policy ∧
      s.buffer.toList = (h.draws.filterMap Draw.kept?).mapIdx (fun n t => t.stamp n) ∧
      (∀ (n : Nat) (t : Token), s.buffer[n]? = some t →
        t.index = some n ∧ ∃ d ∈ h.draws, ∃ given : Token, d.result = .ok given ∧
          given.isEnd = false ∧ t.kind = given.kind ∧ t.text = given.text ∧
          t.span = given.span) ∧
      ∀ e : Token, s.endToken = some e ↔
        ∃ d, ∃ given : Token, h.draws.getLast? = some d ∧ d.result = .ok given ∧
          given.isEnd = true ∧ e = given.stamp s.size := by
  intro s h
  have explains : s.policy = h.policy ∧ Explained h.draws s :=
    Explained.upheld.run limit cs rfl ⟨rfl, rfl⟩
  obtain ⟨samePolicy, explained⟩ := explains
  refine ⟨samePolicy, explained.buffer, fun n t held => ?_, fun e => ?_⟩
  · apply mem_contents
    rw [← explained.buffer, Array.getElem?_toList]
    exact held
  · rw [explained.endToken, ending_eq_some, explained.length]

end Stream

end Lookahead
