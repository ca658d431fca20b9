import Lookahead.Proofs.Policy
import Lookahead.Proofs.Replacement

/-!
# Policies that agree

Two policies compare equal exactly if they are tuned alike and treat every kind alike
(`Policy.same_iff`): their tables may name the kinds in any order. For policies that are made by
settings this means that the last setting of each sort counts, and of discarded kinds that they were
named at all (`Policy.same_ofSettings_iff`). A stream looks at its policy kind by kind only, also
when the policy is changed later on, so policies that compare equal cannot be told apart by anything
that is done to the streams (`watch_of_same`).
-/

namespace Lookahead

/-! ## Policies -/

namespace Policy

/-- Policies compare equal if they are tuned alike and treat every kind alike. -/
theorem same_iff {p q : Policy} : p.same q = true ↔ p.Agrees q := by
  rw [same, Bool.and_eq_true, Bool.and_eq_true, Bool.and_eq_true, beq_iff_eq, beq_iff_eq,
    Overrides.same_iff, Discards.same_iff]
  constructor
  · rintro ⟨⟨⟨channel, drops⟩, overrides⟩, discards⟩
    exact ⟨channel, drops, overrides, discards⟩
  · rintro ⟨channel, drops, overrides, discards⟩
    exact ⟨⟨⟨channel, drops⟩, overrides⟩, discards⟩

end Policy

/-! ## Policies that settings make -/

namespace Setting

/-- The channel that a setting tunes to. -/
def channel? : Setting → Option Channel
  | .channel c => some c
  | _ => none

/-- What a setting says about off-channel tokens. -/
def drop? : Setting → Option Bool
  | .dropOffChannel drop => some drop
  | _ => none

/-- The channel that a setting reroutes a kind to. -/
def route? (kind : Kind) : Setting → Option Channel
  | .reroute k c => if kind = k then some c else none
  | _ => none

/-- What the last of the settings tells that tells anything. -/
def last? {α : Type} (tells : Setting → Option α) (settings : List Setting) : Option α :=
  (settings.filterMap tells).getLast?

theorem last?_concat {α : Type} (tells : Setting → Option α) (settings : List Setting)
    (setting : Setting) :
    last? tells (settings ++ [setting]) = (tells setting <|> last? tells settings) := by
  rw [last?, last?, List.filterMap_append, List.filterMap_cons, List.filterMap_nil]
  cases tells setting with
  | none => rw [List.append_nil]; rfl
  | some a => rw [List.getLast?_concat]; rfl

end Setting

namespace Policy

theorem ofSettings_concat (settings : List Setting) (setting : Setting) :
    ofSettings (settings ++ [setting]) = setting.apply (ofSettings settings) := by
  rw [ofSettings, List.foldl_concat, ofSettings]

theorem channel_ofSettings (settings : List Setting) :
    (ofSettings settings).channel = (Setting.last? Setting.channel? settings).getD .standard := by
  induction settings using List.reverseRecOn with
  | nil => rfl
  | append_singleton settings setting ih =>
    rw [ofSettings_concat, Setting.last?_concat]
    cases setting with
    | channel c => rfl
    | dropOffChannel drop => exact ih
    | discard kind => exact ih
    | reroute kind c => exact ih

theorem dropsOffChannel_ofSettings (settings : List Setting) :
    (ofSettings settings).dropsOffChannel =
      (Setting.last? Setting.drop? settings).getD false := by
  induction settings using List.reverseRecOn with
  | nil => rfl
  | append_singleton settings setting ih =>
    rw [ofSettings_concat, Setting.last?_concat]
    cases setting with
    | channel c => exact ih
    | dropOffChannel drop => rfl
    | discard kind => exact ih
    | reroute kind c => exact ih

theorem find?_ofSettings (settings : List Setting) (kind : Kind) :
    (ofSettings settings).overrides.find? kind =
      Setting.last? (Setting.route? kind) settings := by
  induction settings using List.reverseRecOn with
  | nil => rfl
  | append_singleton settings setting ih =>
    rw [ofSettings_concat, Setting.last?_concat]
    cases setting with
    | channel c => exact ih
    | dropOffChannel drop => exact ih
    | discard k => exact ih
    | reroute k c =>
      show ((ofSettings settings).overrides.insert k c).find? kind = _
      rw [Overrides.find?_insert, ih, Setting.route?]
      split <;> rfl

theorem contains_ofSettings (settings : List Setting) (kind : Kind) :
    (ofSettings settings).discards.contains kind = true ↔ .discard kind ∈ settings := by
  induction settings using List.reverseRecOn with
  | nil => simp [ofSettings, standard, Discards.contains, Discards.empty]
  | append_singleton settings setting ih =>
    rw [ofSettings_concat, List.mem_append, List.mem_singleton]
    cases setting with
    | channel c => exact ih.trans (by simp)
    | dropOffChannel drop => exact ih.trans (by simp)
    | discard k =>
      show ((ofSettings settings).discards.insert k).contains kind = true ↔ _
      rw [Discards.contains_insert, Bool.or_eq_true, ih, beq_iff_eq, Setting.discard.injEq, or_comm]
    | reroute k c => exact ih.trans (by simp)

/-- Policies that settings make compare equal if the last settings of each sort are the same and the
same kinds are discarded. It makes no difference in which order settings of different sorts come, or
how often they are made. -/
theorem same_ofSettings_iff {settings settings' : List Setting} :
    (ofSettings settings).same (ofSettings settings') = true ↔
      (Setting.last? Setting.channel? settings).getD .standard =
          (Setting.last? Setting.channel? settings').getD .standard ∧
        (Setting.last? Setting.drop? settings).getD false =
          (Setting.last? Setting.drop? settings').getD false ∧
        (∀ kind, Setting.last? (Setting.route? kind) settings =
          Setting.last? (Setting.route? kind) settings') ∧
        ∀ kind, Setting.discard kind ∈ settings ↔ Setting.discard kind ∈ settings' := by
  rw [same_iff]
  constructor
  · rintro ⟨channel, drops, overrides, discards⟩
    refine ⟨?_, ?_, fun kind => ?_, fun kind => ?_⟩
    · rw [← channel_ofSettings, ← channel_ofSettings, channel]
    · rw [← dropsOffChannel_ofSettings, ← dropsOffChannel_ofSettings, drops]
    · rw [← find?_ofSettings, ← find?_ofSettings, overrides]
    · rw [← contains_ofSettings, ← contains_ofSettings, discards]
  · rintro ⟨channel, drops, overrides, discards⟩
    refine ⟨?_, ?_, fun kind => ?_, fun kind => ?_⟩
    · rw [channel_ofSettings, channel_ofSettings, channel]
    · rw [dropsOffChannel_ofSettings, dropsOffChannel_ofSettings, drops]
    · rw [find?_ofSettings, find?_ofSettings, overrides]
    · rw [Bool.eq_iff_iff, contains_ofSettings, contains_ofSettings, discards]

end Policy

/-! ## Streams whose policies agree -/

namespace Stream

variable {σ : Type} [TokenSource σ]

/-- Policies compare equal exactly if channel and flag are the same, every kind is rerouted alike,
and the same kinds are discarded. For policies that settings make, the last settings of each sort
and the kinds named decide. Streams over one source whose policies compare equal are seen to be the
same: whatever is done to both, results, log records, cursor, size and pulls are the same. -/
theorem watch_of_same (p q : Policy) :
    (p.same q = true ↔
        p.channel = q.channel ∧ p.dropsOffChannel = q.dropsOffChannel ∧
          (∀ kind, p.overrides.find? kind = q.overrides.find? kind) ∧
          ∀ kind, p.discards.contains kind = q.discards.contains kind) ∧
      (∀ settings settings' : List Setting,
        (Policy.ofSettings settings).same (.ofSettings settings') = true ↔
          (Setting.last? Setting.channel? settings).getD .standard =
              (Setting.last? Setting.channel? settings').getD .standard ∧
            (Setting.last? Setting.drop? settings).getD false =
              (Setting.last? Setting.drop? settings').getD false ∧
            (∀ kind, Setting.last? (Setting.route? kind) settings =
              Setting.last? (Setting.route? kind) settings') ∧
            ∀ kind, Setting.discard kind ∈ settings ↔ Setting.discard kind ∈ settings') ∧
      (p.same q = true → ∀ (source : Metered σ) (limit : Nat) (cs : List (Command (Metered σ))),
        watch limit cs (start p source) = watch limit cs (start q source)) := by
  refine ⟨?_, fun _ _ => Policy.same_ofSettings_iff, ?_⟩
  · rw [Policy.same_iff]
    exact ⟨fun ⟨channel, drops, overrides, discards⟩ => ⟨channel, drops, overrides, discards⟩,
      fun ⟨channel, drops, overrides, discards⟩ => ⟨channel, drops, overrides, discards⟩⟩
  · intro same source limit cs
    have alike : Alike #[] #[] (start p source) (start q source) := {
      policy := Policy.same_iff.1 same
      source := rfl
      buffer := rfl
      endToken := rfl
      cursor := rfl
      lastMark := rfl
      journal := ⟨#[], rfl, rfl⟩ }
    exact watch_of_alike limit cs alike

/-- The same settings in another order, one of them made twice and one replaced: the entries of the
policies are in another order, and nothing is seen of it, also when the policy is changed later
on. -/
theorem watch_of_same_reordered :
    let p := Policy.ofSettings [.discard 5, .reroute 7 .hidden, .reroute 8 .hidden, .discard 6,
      .reroute 7 .standard]
    let q := Policy.ofSettings [.reroute 8 .hidden, .discard 6, .reroute 7 .standard, .discard 6,
      .discard 5]
    let source := Metered.fresh (ListedSource.ofList
      [.plain 5 " " .unplaced, .plain 8 "a" .unplaced, .plain 7 "b" .unplaced,
        .plain 7 "c" .unplaced, .endOfStream .unplaced])
    let cs : List (Command (Metered ListedSource)) :=
      [.consume, .discard 5, .reroute 7 .hidden, .discard 9, .consume, .text]
    p ≠ q ∧ p.same q = true ∧ watch 4 cs (start p source) = watch 4 cs (start q source) := by
  intro p q source cs
  have same : p.same q = true := by decide +kernel
  exact ⟨by decide +kernel, same, (watch_of_same p q).2.2 same source 4 cs⟩

end Stream

end Lookahead
