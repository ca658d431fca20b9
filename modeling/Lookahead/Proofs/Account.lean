import Mathlib.Data.List.DropRight
import Mathlib.Data.List.Forall2
import Lookahead.Proofs.History

/-!
# What the log accounts for

The log of a stream is what it has told since its source was installed. Every token that was pulled
and is not in the buffer is told of: by a record of its own if it was dropped, and by the record of
the end of the source, which stands last among those of pulls, if it is the end-of-stream token.
`Accounted` is that balance, and `log_accounts` finds it after every run.
-/

namespace Lookahead

namespace Event

/-- Whether the event is the installation of another source. -/
def isReplacing : Event → Bool
  | replacing _ => true
  | _ => false

theorem isReplacing_of_isSetting {e : Event} (setting : e.isSetting = true) :
    e.isReplacing = false := by
  cases e with
  | replacing _ => cases setting
  | _ => rfl

/-- The record of an event, if it is one of a pull. -/
def trace? (e : Event) : Option Record := e.record?.filter fun r => r.level == .trace

theorem trace?_of_isSetting {e : Event} (setting : e.isSetting = true) : e.trace? = none := by
  cases e with
  | discarding _ => rfl
  | droppingOffChannel _ => rfl
  | rerouting _ _ => rfl
  | _ => cases setting

end Event

namespace Record

/-- Whether the record is one of a pull and its text begins so. -/
def tells (beginning : String) (r : Record) : Bool :=
  r.level == .trace && r.message.startsWith beginning

/-- Tells of a token whose kind is discarded. -/
def ofKind (kind : Kind) : Record :=
  ⟨.trace, "Dropped token of discarded type " ++ toString kind ++ "."⟩

/-- Tells of a token on another channel than the tuned one. -/
def offChannel (kind : Kind) (channel : Channel) : Record :=
  ⟨.trace, "Dropped off-channel token of type " ++ toString kind ++ " (channel "
    ++ toString channel ++ ")."⟩

/-- Tells of the end of the source. -/
def ofEnd (buffered : Nat) : Record :=
  ⟨.trace, "Token source reached end-of-stream after " ++ toString buffered
    ++ " buffered token(s)."⟩

theorem tells_eq (beginning message : String) :
    tells beginning ⟨.trace, message⟩ = decide (beginning.toList <+: message.toList) := by
  rw [Bool.eq_iff_iff, decide_eq_true_iff, ← String.startsWith_string_iff]
  rfl

theorem tells_ofKind (kind : Kind) :
    (ofKind kind).tells "Dropped token of discarded type" = true ∧
      (ofKind kind).tells "Dropped off-channel token" = false ∧
      (ofKind kind).tells "Token source reached end-of-stream" = false := by
  simp [ofKind, tells_eq]

theorem tells_offChannel (kind : Kind) (channel : Channel) :
    (offChannel kind channel).tells "Dropped token of discarded type" = false ∧
      (offChannel kind channel).tells "Dropped off-channel token" = true ∧
      (offChannel kind channel).tells "Token source reached end-of-stream" = false := by
  simp [offChannel, tells_eq]

theorem tells_ofEnd (buffered : Nat) :
    (ofEnd buffered).tells "Dropped token of discarded type" = false ∧
      (ofEnd buffered).tells "Dropped off-channel token" = false ∧
      (ofEnd buffered).tells "Token source reached end-of-stream" = true := by
  simp [ofEnd, tells_eq]

end Record

/-! ## Drops and their records -/

namespace Draw

/-- Whether the draw gave a token that is neither buffered nor remembered. -/
def isDropped (d : Draw) : Bool := d.result.isOk && d.kept?.isNone && d.end?.isNone

/-- The record tells why the policy had the token of the draw dropped. A discarded kind goes before
the channel, which is that after rerouting. -/
inductive Reported : Draw → Record → Prop
  | ofKind {p : Policy} {t : Token} :
    t.isEnd = false → p.discards.contains t.kind = true → Reported ⟨p, .ok t⟩ (.ofKind t.kind)
  | offChannel {p : Policy} {t : Token} :
    t.isEnd = false → p.discards.contains t.kind = false → p.dropsOffChannel = true →
      p.route t ≠ p.channel → Reported ⟨p, .ok t⟩ (.offChannel t.kind (p.route t))

theorem isDropped_of_isEnd (p : Policy) {t : Token} (ends : t.isEnd = true) :
    (Draw.mk p (.ok t)).isDropped = false := by
  simp [isDropped, end?, ends]

theorem isDropped_of_keep {p : Policy} {t : Token} {channel : Channel} (ends : t.isEnd = false)
    (verdict : p.judge t = .keep channel) : (Draw.mk p (.ok t)).isDropped = false := by
  simp [isDropped, kept?_ok, ends, verdict]

theorem isDropped_of_drop {p : Policy} {t : Token} (ends : t.isEnd = false)
    (verdict : ∀ channel, p.judge t ≠ .keep channel) : (Draw.mk p (.ok t)).isDropped = true := by
  have kept : (Draw.mk p (.ok t)).kept? = none := by
    rw [kept?_ok, ends]
    cases dropped : p.judge t with
    | keep channel => exact absurd dropped (verdict channel)
    | _ => rfl
  simp [isDropped, kept, end?, ends, Except.isOk, Except.toBool]

theorem filter_concat_of_not_isDropped {draws : List Draw} {d : Draw} (h : d.isDropped = false) :
    (draws ++ [d]).filter isDropped = draws.filter isDropped := by
  rw [List.filter_append, List.filter_singleton, h]
  exact List.append_nil _

end Draw

/-- What a verdict says of the policy and the token. -/
theorem Policy.judge_dropKind {p : Policy} {t : Token} (verdict : p.judge t = .dropKind) :
    p.discards.contains t.kind = true := by
  unfold judge at verdict
  split at verdict
  · assumption
  · split at verdict <;> cases verdict

theorem Policy.judge_dropOffChannel {p : Policy} {t : Token} {channel : Channel}
    (verdict : p.judge t = .dropOffChannel channel) :
    p.discards.contains t.kind = false ∧ p.dropsOffChannel = true ∧ p.route t ≠ p.channel ∧
      channel = p.route t := by
  unfold judge at verdict
  split at verdict
  · cases verdict
  · next kept =>
    split at verdict
    · next off =>
      cases verdict
      rw [Bool.and_eq_true, bne_iff_ne] at off
      exact ⟨by simpa using kept, off.1, off.2, rfl⟩
    · cases verdict

/-- The records of drops are of either kind, and none tells of an end. -/
theorem countP_tells_of_reported {draws : List Draw} {drops : List Record}
    (reported : List.Forall₂ Draw.Reported draws drops) :
    draws.length = drops.countP (Record.tells "Dropped token of discarded type") +
        drops.countP (Record.tells "Dropped off-channel token") ∧
      drops.countP (Record.tells "Token source reached end-of-stream") = 0 := by
  induction reported with
  | nil => exact ⟨rfl, rfl⟩
  | cons first _ ih =>
    obtain ⟨drops, ends⟩ := ih
    cases first with
    | @ofKind p t _ _ =>
      obtain ⟨kind, off, ended⟩ := Record.tells_ofKind t.kind
      simp only [List.length_cons, List.countP_cons, kind, off, ended, drops, ends, if_true,
        Bool.false_eq_true, if_false]
      exact ⟨by omega, trivial⟩
    | @offChannel p t _ _ _ _ =>
      obtain ⟨kind, off, ended⟩ := Record.tells_offChannel t.kind (p.route t)
      simp only [List.length_cons, List.countP_cons, kind, off, ended, drops, ends, if_true,
        Bool.false_eq_true, if_false]
      exact ⟨by omega, trivial⟩

namespace Stream

variable {σ : Type}

/-! ## The log since the source was installed -/

/-- The log since the source was installed, without the record of that. -/
def log (s : Stream σ) : List Record :=
  (s.journal.toList.rtakeWhile fun e => !e.isReplacing).filterMap Event.record?

/-- What is in the log of pulls. -/
def traces (s : Stream σ) : List Record := s.log.filter fun r => r.level == .trace

theorem traces_note (s : Stream σ) {e : Event} (h : e.isReplacing = false) :
    (s.note e).traces = s.traces ++ e.trace?.toList := by
  have last : (!e.isReplacing) = true := by rw [h]; rfl
  rw [traces, log, note, Array.toList_push,
    List.rtakeWhile_concat_pos (fun e => !Event.isReplacing e) _ e last, List.filterMap_append,
    List.filter_append, traces, log, Event.trace?]
  cases record : e.record? with
  | none => simp [record]
  | some r =>
    simp only [List.filterMap_cons, record, List.filterMap_nil, Option.filter, List.filter_cons,
      List.filter_nil]
    split <;> rfl

theorem traces_replaceSource (s : Stream σ) (source : σ) :
    (s.replaceSource source).traces = [] := by
  have last : ¬ (!(Event.replacing s.size).isReplacing) = true := by simp [Event.isReplacing]
  rw [traces, log, replaceSource, note, Array.toList_push,
    List.rtakeWhile_concat_neg (fun e => !Event.isReplacing e) _ _ last]
  rfl

/-- Records that tell something of a pull are found among those of pulls. -/
theorem countP_tells (s : Stream σ) (beginning : String) :
    s.log.countP (Record.tells beginning) = s.traces.countP (Record.tells beginning) := by
  rw [traces, List.countP_filter]
  apply List.countP_congr
  intro r _
  rw [Bool.and_eq_true, Record.tells, Bool.and_eq_true, and_comm, and_assoc, and_self]

/-! ## The balance -/

/-- Every token that was drawn is in the buffer, or the log tells that it was dropped, or it is the
end-of-stream token, and the log tells so last of all. -/
structure Accounted (draws : List Draw) (s : Stream σ) : Prop where
  balance : draws.countP (·.result.isOk) =
    s.size + (draws.filter Draw.isDropped).length + s.endToken.toList.length
  told : ∃ drops, List.Forall₂ Draw.Reported (draws.filter Draw.isDropped) drops ∧
    s.traces = drops ++ (s.endToken.map fun _ => Record.ofEnd s.size).toList

/-- An event that tells nothing of pulls leaves the balance. -/
theorem Accounted.note {draws : List Draw} {s : Stream σ} (h : Accounted draws s) {e : Event}
    (since : e.isReplacing = false) (silent : e.trace? = none) : Accounted draws (s.note e) := by
  obtain ⟨drops, reported, traces⟩ := h.told
  refine ⟨h.balance, drops, reported, ?_⟩
  rw [s.traces_note since, silent, Option.toList_none, List.append_nil, traces]
  rfl

/-- A pull that fails leaves the balance. -/
theorem Accounted.fail {draws : List Draw} {s : Stream σ} (h : Accounted draws s) (p : Policy)
    (e : SourceError) : Accounted (draws ++ [⟨p, .error e⟩]) s := by
  have same : (draws ++ [Draw.mk p (.error e)]).filter Draw.isDropped =
      draws.filter Draw.isDropped :=
    Draw.filter_concat_of_not_isDropped rfl
  refine ⟨?_, by rw [same]; exact h.told⟩
  rw [same, ← h.balance, List.countP_append]
  rfl

/-- A token that is dropped is told of. -/
theorem Accounted.drop {draws : List Draw} {s : Stream σ} (h : Accounted draws s) {t : Token}
    {e : Event} {r : Record} (wet : s.isDry = false) (ends : t.isEnd = false)
    (dropped : ∀ channel, s.policy.judge t ≠ .keep channel) (since : e.isReplacing = false)
    (told : e.trace? = some r) (reported : (Draw.mk s.policy (.ok t)).Reported r) :
    Accounted (draws ++ [⟨s.policy, .ok t⟩]) (s.note e) := by
  have more : (draws ++ [Draw.mk s.policy (.ok t)]).filter Draw.isDropped =
      draws.filter Draw.isDropped ++ [⟨s.policy, .ok t⟩] := by
    rw [List.filter_append, List.filter_singleton, Draw.isDropped_of_drop ends dropped]
    rfl
  obtain ⟨drops, before, traces⟩ := h.told
  rw [endToken_of_wet wet] at traces
  refine ⟨?_, drops ++ [r], ?_, ?_⟩
  · rw [more, List.countP_append, h.balance, List.length_append]
    exact Nat.add_right_comm ..
  · rw [more]
    exact List.rel_append before (.cons reported .nil)
  · have absent : (s.note e).endToken = none := endToken_of_wet wet
    rw [s.traces_note since, told, traces, absent, Option.map_none, Option.map_none,
      Option.toList_none, Option.toList_some, List.append_nil, List.append_nil]

/-- A token that ends the source is remembered and told of. -/
theorem Accounted.finish {draws : List Draw} {s : Stream σ} (h : Accounted draws s) {t : Token}
    (wet : s.isDry = false) (ends : t.isEnd = true) :
    Accounted (draws ++ [⟨s.policy, .ok t⟩])
      { s.note (.ended t s.size) with endToken := some (t.stamp s.size) } := by
  have same : (draws ++ [Draw.mk s.policy (.ok t)]).filter Draw.isDropped =
      draws.filter Draw.isDropped :=
    Draw.filter_concat_of_not_isDropped (Draw.isDropped_of_isEnd s.policy ends)
  obtain ⟨drops, before, traces⟩ := h.told
  have balance := h.balance
  rw [endToken_of_wet wet] at traces balance
  refine ⟨?_, drops, same.symm ▸ before, ?_⟩
  · rw [same, List.countP_append, balance]
    rfl
  · have told : (s.note (.ended t s.size)).traces = s.traces ++ [Record.ofEnd s.size] :=
      s.traces_note rfl
    rw [traces, Option.map_none, Option.toList_none, List.append_nil] at told
    exact told

/-- A token that is kept is buffered. -/
theorem Accounted.keep {draws : List Draw} {s : Stream σ} (h : Accounted draws s) {t : Token}
    {channel : Channel} (wet : s.isDry = false) (ends : t.isEnd = false)
    (kept : s.policy.judge t = .keep channel) :
    Accounted (draws ++ [⟨s.policy, .ok t⟩]) { s.note (.received t (.keep channel)) with
      buffer := s.buffer.push ((t.moveTo channel).stamp s.size) } := by
  have same : (draws ++ [Draw.mk s.policy (.ok t)]).filter Draw.isDropped =
      draws.filter Draw.isDropped :=
    Draw.filter_concat_of_not_isDropped (Draw.isDropped_of_keep ends kept)
  have absent : s.endToken = none := endToken_of_wet wet
  obtain ⟨drops, before, traces⟩ := h.told
  have balance := h.balance
  rw [absent] at traces balance
  refine ⟨?_, drops, same.symm ▸ before, ?_⟩
  · have given : [Draw.mk s.policy (.ok t)].countP (·.result.isOk) = 1 := rfl
    rw [same, List.countP_append, balance, given]
    simp only [size, Array.size_push, Stream.note, absent]
    omega
  · have silent : (s.note (.received t (.keep channel))).traces = s.traces ++ [] :=
      s.traces_note rfl
    rw [List.append_nil, traces] at silent
    simp only [Stream.note, absent]
    exact silent

theorem Accounted.receive {draws : List Draw} {s : Stream σ} (h : Accounted draws s) (t : Token)
    (wet : s.isDry = false) : Accounted (draws ++ [⟨s.policy, .ok t⟩]) (s.receive t) := by
  unfold Stream.receive
  split
  · next ends => exact h.finish wet ends
  · next more =>
    have ends : t.isEnd = false := Bool.not_eq_true _ ▸ more
    cases verdict : s.policy.judge t with
    | keep channel => exact h.keep wet ends verdict
    | dropKind =>
      exact h.drop wet ends (by simp [verdict]) rfl rfl
        (.ofKind ends (Policy.judge_dropKind verdict))
    | dropOffChannel channel =>
      obtain ⟨kind, drops, off, rfl⟩ := Policy.judge_dropOffChannel verdict
      exact h.drop wet ends (by simp [verdict]) rfl rfl (.offChannel ends kind drops off)

theorem Accounted.upheld : @Upheld σ Accounted where
  taken t wet h := h.receive t wet
  failed e _ h := (h.fail _ e).note rfl rfl
  moved _ _ h := ⟨h.balance, h.told⟩
  swapped _ h := ⟨h.balance, h.told⟩
  changed _ setting h :=
    have kept := h.note (Event.isReplacing_of_isSetting setting) (Event.trace?_of_isSetting setting)
    ⟨kept.balance, kept.told⟩
  replaced source _ := ⟨rfl, [], .nil, traces_replaceSource _ source⟩

/-- The log accounts for every token that the stream has drawn from its present source: those that
are not buffered are told of, the dropped ones in the order of the draws and each with the reason,
and the end of the source last, if it has been reached, with the size that the buffer keeps from
then on. When the source is replaced, the size is told. -/
theorem log_accounts [TokenSource σ] (limit : Nat) (policy : Policy) (source : Metered σ)
    (cs : List (Command (Metered σ))) :
    let s := run limit (.start policy source) cs
    let draws := (history limit policy source cs).draws
    draws.countP (·.result.isOk) = s.size +
        s.log.countP (Record.tells "Dropped token of discarded type") +
        s.log.countP (Record.tells "Dropped off-channel token") +
        s.log.countP (Record.tells "Token source reached end-of-stream") ∧
      s.log.countP (Record.tells "Token source reached end-of-stream") =
        (if s.isDry then 1 else 0) ∧
      (∃ drops, List.Forall₂ Draw.Reported (draws.filter Draw.isDropped) drops ∧
        s.traces = drops ++ if s.isDry then [Record.ofEnd s.size] else []) ∧
      ∀ other, ((exec limit (.replace other)).perform s).2.recordsSince s.journal.size =
        [⟨.debug, "Replacing token source; dropping " ++ toString s.size ++
          " buffered token(s)."⟩] := by
  intro s draws
  have accounted : Accounted draws s :=
    (Accounted.upheld.run limit cs (h := ⟨policy, []⟩) rfl ⟨rfl, [], .nil, rfl⟩).2
  obtain ⟨drops, reported, traces⟩ := accounted.told
  have last : s.endToken.toList.length = (if s.isDry then 1 else 0) ∧
      (s.endToken.map fun _ => Record.ofEnd s.size).toList =
        if s.isDry then [Record.ofEnd s.size] else [] := by
    rw [isDry]
    cases s.endToken <;> exact ⟨rfl, rfl⟩
  rw [last.2] at traces
  have count (beginning : String) : s.log.countP (Record.tells beginning) =
      drops.countP (Record.tells beginning) +
        if s.isDry && (Record.ofEnd s.size).tells beginning then 1 else 0 := by
    rw [countP_tells, traces, List.countP_append]
    cases s.isDry with
    | false => rfl
    | true => rw [if_pos rfl, List.countP_singleton, Bool.true_and]
  obtain ⟨kind, off, ended⟩ := Record.tells_ofEnd s.size
  obtain ⟨told, none⟩ := countP_tells_of_reported reported
  have end_count : s.log.countP (Record.tells "Token source reached end-of-stream") =
      if s.isDry then 1 else 0 := by
    rw [count, none, ended, Bool.and_true, Nat.zero_add]
  refine ⟨?_, end_count, ⟨drops, reported, traces⟩, fun other => ?_⟩
  · rw [accounted.balance, last.1, end_count, count, count, kind, off, Bool.and_false, told]
    simp only [Bool.false_eq_true, if_false, Nat.add_zero, Nat.add_assoc]
  · have left : ((exec limit (.replace other)).perform s).2 = s.replaceSource other := rfl
    rw [left, recordsSince, replaceSource, note, Array.toList_push, ← Array.length_toList,
      List.drop_left]
    rfl

end Stream

end Lookahead
