import Lookahead.Proofs.History
import Lookahead.Proofs.Lockstep
import Lookahead.Proofs.Retry

/-!
# Sources that replace one another

A stream whose source has been replaced is a new stream but for the past in its journal, which no
command looks at (`watch_of_alike`). Its policy is the one that the commands given so far have made,
which is what the same settings would have made before the stream was built (`policy_run`). So
nothing of the old input is left in what comes after (`replace_forgets`).
-/

namespace Lookahead

/-! ## Policies from settings -/

/-- A setting of a policy, made before a stream is built. -/
inductive Setting
  /-- Tunes the policy to a channel. -/
  | channel (channel : Channel)
  /-- Drops off-channel tokens, or keeps them. -/
  | dropOffChannel (drop : Bool)
  /-- Discards a kind. -/
  | discard (kind : Kind)
  /-- Reroutes a kind. -/
  | reroute (kind : Kind) (channel : Channel)

/-- The policy after a setting. -/
def Setting.apply (p : Policy) : Setting → Policy
  | channel c => p.tune c
  | dropOffChannel drop => p.dropOffChannel drop
  | discard kind => p.discard kind
  | reroute kind c => p.reroute kind c

/-- The policy that settings make of the standard one. -/
def Policy.ofSettings (settings : List Setting) : Policy := settings.foldl Setting.apply .standard

/-- The setting that a command makes on a stream that is there already. -/
def Command.setting? {σ : Type} : Command σ → Option Setting
  | .dropOffChannel drop => some (.dropOffChannel drop)
  | .discard kind => some (.discard kind)
  | .reroute kind c => some (.reroute kind c)
  | _ => none

theorem setting?_of_isOperation {σ : Type} {c : Command σ} (op : c.isOperation = true) :
    c.setting? = none := by
  cases c with
  | discard kind => cases op
  | reroute kind channel => cases op
  | dropOffChannel drop => cases op
  | _ => rfl

/-- The source that commands have installed last. -/
def installed {σ : Type} (source : σ) : List (Command σ) → σ
  | [] => source
  | .replace other :: rest => installed other rest
  | _ :: rest => installed source rest

namespace Stream

variable {σ : Type} [TokenSource σ]

/-! ## What a run makes of policy and source -/

theorem policy_exec (limit : Nat) (c : Command σ) (s : Stream σ) :
    ((exec limit c).perform s).2.policy = c.setting?.toList.foldl Setting.apply s.policy := by
  by_cases op : c.isOperation = true
  · rw [setting?_of_isOperation op, (operates_exec limit op s).policy]
    rfl
  · cases c with
    | discard kind =>
      show (s.discard kind).policy = s.policy.discard kind
      unfold discard
      split
      · next discarded => exact (Policy.discard_of_contains discarded).symm
      · rfl
    | reroute kind channel => rfl
    | dropOffChannel drop => rfl
    | pullSource => rw [perform_exec_pullSource]; rfl
    | replace other => rfl
    | _ => exact absurd rfl op

/-- The policy after a run is what the run's settings make of the one before. -/
theorem policy_run (limit : Nat) (cs : List (Command σ)) (s : Stream σ) :
    (run limit s cs).policy = (cs.filterMap Command.setting?).foldl Setting.apply s.policy := by
  induction cs generalizing s with
  | nil => rfl
  | cons c rest ih =>
    have first : (c :: rest).filterMap Command.setting? =
        c.setting?.toList ++ rest.filterMap Command.setting? := by
      rw [List.filterMap_cons]
      cases c.setting? <;> rfl
    rw [run, ih, policy_exec, first, List.foldl_append]

theorem Motion.source {s t : Stream σ} (motion : Motion s t) :
    ∃ n, t.source = TokenSource.after s.source n := by
  cases motion with
  | pulled step => exact ⟨1, step.source⟩
  | failed _ next => exact ⟨1, (congrArg Prod.snd next).symm⟩
  | placed _ => exact ⟨0, rfl⟩
  | marked _ => exact ⟨0, rfl⟩

theorem Operates.source {s t : Stream σ} (h : Operates s t) :
    ∃ n, t.source = TokenSource.after s.source n := by
  have keeps {u v : Stream σ} (motion : Motion u v)
      (h : ∃ n, u.source = TokenSource.after s.source n) :
      ∃ n, v.source = TokenSource.after s.source n := by
    obtain ⟨m, reached⟩ := h
    obtain ⟨n, further⟩ := motion.source
    exact ⟨m + n, by rw [further, reached, TokenSource.after_after]⟩
  exact h.invariant keeps ⟨0, rfl⟩

/-- The source after a run is the one installed last, after some pulls. -/
theorem source_run (limit : Nat) (cs : List (Command σ)) {s : Stream σ} {source : σ}
    (h : ∃ n, s.source = TokenSource.after source n) :
    ∃ n, (run limit s cs).source = TokenSource.after (installed source cs) n := by
  induction cs generalizing s source with
  | nil => exact h
  | cons c rest ih =>
    obtain ⟨m, reached⟩ := h
    have further {t : Stream σ} (h : ∃ n, t.source = TokenSource.after s.source n) :
        ∃ n, t.source = TokenSource.after source n := by
      obtain ⟨n, pulled⟩ := h
      exact ⟨m + n, by rw [pulled, reached, TokenSource.after_after]⟩
    rw [run]
    cases c with
    | replace other => exact ih ⟨0, rfl⟩
    | pullSource =>
      refine ih (further ⟨1, ?_⟩)
      rw [perform_exec_pullSource]
      rfl
    | discard kind =>
      refine ih (further ⟨0, ?_⟩)
      show (s.discard kind).source = s.source
      unfold discard
      split <;> rfl
    | reroute kind channel => exact ih (further ⟨0, rfl⟩)
    | dropOffChannel drop => exact ih (further ⟨0, rfl⟩)
    | _ => exact ih (further (operates_exec limit rfl s).source)

end Stream

/-! ## What is seen of a run -/

/-- What a caller sees of a command: its result, the log records it made, and what can be asked of
the stream after it without pulling. -/
structure Seen (σ : Type) where
  result : Except Interrupt (Answer (Metered σ))
  records : List Record
  index : Nat
  size : Nat
  pulls : Nat

/-- What is seen of an outcome. -/
def Outcome.seen {σ : Type} (o : Outcome (Metered σ) (Answer (Metered σ))) : Seen σ :=
  { result := o.result, records := o.records, index := o.after.index, size := o.after.size
    pulls := o.after.source.pulls }

namespace Stream

variable {σ : Type} [TokenSource σ]

/-- What is seen of a run of commands. -/
def watch (limit : Nat) (cs : List (Command (Metered σ))) (s : Stream (Metered σ)) :
    List (Seen σ) :=
  (outcomes (fun c => once (exec limit c)) cs s).map Outcome.seen

theorem watch_cons (limit : Nat) (c : Command (Metered σ)) (rest : List (Command (Metered σ)))
    (s : Stream (Metered σ)) :
    watch limit (c :: rest) s =
      (once (exec limit c) s).seen :: watch limit rest ((exec limit c).perform s).2 := rfl

/-- The same is seen of runs on streams that are alike. -/
theorem watch_of_alike {past past' : Array Event} (limit : Nat)
    (cs : List (Command (Metered σ))) {s s' : Stream (Metered σ)} (h : Alike past past' s s') :
    watch limit cs s = watch limit cs s' := by
  induction cs generalizing s s' with
  | nil => rfl
  | cons c rest ih =>
    obtain ⟨result, after⟩ := (Alike.exec past past' limit c h).same
    have first : (once (exec limit c) s).seen = (once (exec limit c) s').seen := by
      simp only [once, Outcome.seen, result, h.recordsSince after, index, after.cursor, after.size,
        after.source]
    rw [watch_cons, watch_cons, first, ih after]

/-- A stream whose source is replaced gives the old source back as its last pull left it, and from
then on nothing of the old input is seen: all commands have the outcomes that they have on a new
stream over the other source, built with the old settings and those made in the meantime. -/
theorem replace_forgets (limit limit' : Nat) (settings : List Setting) (source other : Metered σ)
    (before after : List (Command (Metered σ))) :
    let s := run limit (start (.ofSettings settings) source) before
    let new := start (.ofSettings (settings ++ before.filterMap Command.setting?)) other
    (∃ n, s.source.source = TokenSource.after (installed source before).source n ∧
        s.source.pulls = (installed source before).pulls + n) ∧
      ∃ t, (exec limit (.replace other)).perform s = (.ok (.source s.source), t) ∧
        t.index = new.index ∧ t.size = new.size ∧ t.source.pulls = new.source.pulls ∧
        watch limit' after t = watch limit' after new := by
  intro s new
  have given : ∃ n, s.source = TokenSource.after (installed source before) n :=
    source_run limit before ⟨0, rfl⟩
  have policy : s.policy = new.policy := by
    have made : s.policy = _ := policy_run limit before (start (.ofSettings settings) source)
    rw [made]
    exact (List.foldl_append ..).symm
  have alike : Alike (s.note (.replacing s.size)).journal #[] (s.replaceSource other) new := {
    policy := policy ▸ .refl s.policy
    source := rfl
    buffer := rfl
    endToken := rfl
    cursor := rfl
    lastMark := rfl
    journal := ⟨#[], by rw [Array.append_empty]; rfl, rfl⟩ }
  refine ⟨?_, s.replaceSource other, rfl, rfl, rfl, rfl, ?_⟩
  · obtain ⟨n, pulled⟩ := given
    rw [pulled, TokenSource.after_metered]
    exact ⟨n, rfl, rfl⟩
  · exact watch_of_alike limit' after alike

end Stream

end Lookahead
