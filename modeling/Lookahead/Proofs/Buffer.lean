import Mathlib.Data.Nat.Find
import Lookahead.Stream.Command

/-!
# Visible slots

What the searches through the buffer find, said by slots, and what of it stays when the buffer
grows: `Within s t` says that whatever `s` has buffered is in the same slots of `t`, which is tuned
to the same channel. `Settled i` is what a search for a visible slot comes back with: slot `i` is
visible, or the source has ended and `i` is the size of the buffer. `Extends s t` adds to `Within`
that nothing comes after the end of the source, so what is settled stays so.
-/

namespace Lookahead.Stream

variable {σ : Type}

/-! ## Visible slots -/

theorem isVisible_iff {s : Stream σ} {i : Nat} :
    s.isVisible i = true ↔ ∃ t, s.buffer[i]? = some t ∧ t.channel = s.policy.channel := by
  simp [isVisible, Option.any_eq_true]

theorem lt_size_of_isVisible {s : Stream σ} {i : Nat} (h : s.isVisible i = true) : i < s.size := by
  obtain ⟨t, ht, -⟩ := isVisible_iff.1 h
  exact (Array.getElem?_eq_some_iff.1 ht).1

theorem visibleAmong?_eq_some {s : Stream σ} {i n j : Nat} :
    s.visibleAmong? i n = some j ↔
      i ≤ j ∧ j < i + n ∧ s.isVisible j = true ∧
        ∀ k, i ≤ k → k < j → s.isVisible k = false := by
  induction n generalizing i with
  | zero =>
    simp only [visibleAmong?, reduceCtorEq, false_iff]
    rintro ⟨h₁, h₂, -⟩
    omega
  | succ n ih =>
    rw [visibleAmong?]
    by_cases h : s.isVisible i = true
    · simp only [h, if_true, Option.some.injEq]
      constructor
      · rintro rfl
        exact ⟨Nat.le_refl _, by omega, h, fun k h₁ h₂ => by omega⟩
      · rintro ⟨h₁, -, -, hidden⟩
        by_contra ne
        have := hidden i (Nat.le_refl _) (by omega)
        rw [h] at this
        cases this
    · simp only [h, Bool.false_eq_true, if_false, ih]
      constructor
      · rintro ⟨h₁, h₂, visible, hidden⟩
        refine ⟨by omega, by omega, visible, fun k hk₁ hk₂ => ?_⟩
        by_cases e : k = i
        · subst e
          simpa using h
        · exact hidden k (by omega) hk₂
      · rintro ⟨h₁, h₂, visible, hidden⟩
        have ne : i ≠ j := by
          rintro rfl
          exact h visible
        exact ⟨by omega, by omega, visible, fun k hk₁ hk₂ => hidden k (by omega) hk₂⟩

/-- The search forward finds the first visible slot from `i` on. -/
theorem visibleFrom?_eq_some {s : Stream σ} {i j : Nat} :
    s.visibleFrom? i = some j ↔
      i ≤ j ∧ s.isVisible j = true ∧ ∀ k, i ≤ k → k < j → s.isVisible k = false := by
  rw [visibleFrom?, visibleAmong?_eq_some]
  constructor
  · rintro ⟨h₁, -, visible, hidden⟩
    exact ⟨h₁, visible, hidden⟩
  · rintro ⟨h₁, visible, hidden⟩
    have := lt_size_of_isVisible visible
    exact ⟨h₁, by omega, visible, hidden⟩

/-- The search forward finds nothing if no slot from `i` on is visible. -/
theorem visibleFrom?_eq_none {s : Stream σ} {i : Nat} :
    s.visibleFrom? i = none ↔ ∀ k, i ≤ k → s.isVisible k = false := by
  constructor
  · intro h k hk
    by_contra visible
    rw [Bool.not_eq_false] at visible
    -- the least visible slot from `i` on is what the search would have found
    have ex : ∃ m, i ≤ m ∧ s.isVisible m = true := ⟨k, hk, visible⟩
    have found : s.visibleFrom? i = some (Nat.find ex) := by
      refine visibleFrom?_eq_some.2
        ⟨(Nat.find_spec ex).1, (Nat.find_spec ex).2, fun m h₁ h₂ => ?_⟩
      by_contra hm
      exact Nat.find_min ex h₂ ⟨h₁, by simpa using hm⟩
    rw [h] at found
    cases found
  · intro h
    rw [Option.eq_none_iff_forall_not_mem]
    intro j hj
    obtain ⟨h₁, visible, -⟩ := visibleFrom?_eq_some.1 (Option.mem_def.1 hj)
    rw [h j h₁] at visible
    cases visible

theorem visibleFrom?_isSome {s : Stream σ} {i : Nat} :
    (s.visibleFrom? i).isSome = true ↔ ∃ k, i ≤ k ∧ s.isVisible k = true := by
  rw [← not_iff_not, Bool.not_eq_true, Option.isSome_eq_false_iff, Option.isNone_iff_eq_none,
    visibleFrom?_eq_none]
  simp only [not_exists, not_and, Bool.not_eq_true]

theorem endsVisibly_iff {s : Stream σ} {i : Nat} :
    s.endsVisibly i = true ↔ i < s.size ∧ s.isVisible (s.size - 1) = true := by
  simp [endsVisibly]

theorem visibleBefore?_lt {s : Stream σ} {i j : Nat} (h : s.visibleBefore? i = some j) : j < i := by
  induction i with
  | zero => cases h
  | succ i ih =>
    rw [visibleBefore?] at h
    split at h
    · cases h
      exact Nat.lt_succ_self _
    · exact Nat.lt_succ_of_lt (ih h)

theorem stepsBack?_lt {s : Stream σ} {k i j : Nat} (h : s.stepsBack? (k + 1) i = some j) :
    j < i := by
  induction k generalizing i with
  | zero =>
    rw [stepsBack?] at h
    split at h
    · next m before =>
      cases h
      exact visibleBefore?_lt before
    · cases h
  | succ k ih =>
    rw [stepsBack?] at h
    split at h
    · next m before => exact Nat.lt_trans (ih h) (visibleBefore?_lt before)
    · cases h

/-! ## Equal buffers -/

section

variable {τ : Type} {s : Stream σ} {t : Stream τ}

theorem isVisible_congr (buffer : t.buffer = s.buffer)
    (channel : t.policy.channel = s.policy.channel) (i : Nat) : t.isVisible i = s.isVisible i := by
  rw [isVisible, isVisible, buffer, channel]

theorem visibleFrom?_congr (buffer : t.buffer = s.buffer)
    (channel : t.policy.channel = s.policy.channel) (i : Nat) :
    t.visibleFrom? i = s.visibleFrom? i := by
  have among (n i : Nat) : t.visibleAmong? i n = s.visibleAmong? i n := by
    induction n generalizing i with
    | zero => rfl
    | succ n ih => rw [visibleAmong?, visibleAmong?, isVisible_congr buffer channel, ih]
  rw [visibleFrom?, visibleFrom?, size, size, buffer, among]

theorem stepsBack?_congr (buffer : t.buffer = s.buffer)
    (channel : t.policy.channel = s.policy.channel) (k i : Nat) :
    t.stepsBack? k i = s.stepsBack? k i := by
  have before (i : Nat) : t.visibleBefore? i = s.visibleBefore? i := by
    induction i with
    | zero => rfl
    | succ i ih => rw [visibleBefore?, visibleBefore?, isVisible_congr buffer channel, ih]
  induction k generalizing i with
  | zero => rfl
  | succ k ih =>
    rw [stepsBack?, stepsBack?, before]
    split
    · exact ih _
    · rfl

end

/-! ## Growing buffers -/

/-- Whatever `s` has buffered is in the same slots of `t`, and both are tuned to one channel. -/
structure Within (s t : Stream σ) : Prop where
  channel : t.policy.channel = s.policy.channel
  isPrefix : s.buffer.toList <+: t.buffer.toList

namespace Within

variable {s t u : Stream σ}

theorem refl (s : Stream σ) : s.Within s := ⟨rfl, List.prefix_refl _⟩

theorem trans (h : s.Within t) (k : t.Within u) : s.Within u :=
  ⟨k.channel.trans h.channel, h.isPrefix.trans k.isPrefix⟩

theorem size_le (h : s.Within t) : s.size ≤ t.size := by
  simpa [size] using h.isPrefix.length_le

theorem getElem?_eq (h : s.Within t) {i : Nat} (hi : i < s.size) : t.buffer[i]? = s.buffer[i]? := by
  obtain ⟨rest, hrest⟩ := h.isPrefix
  have hi' : i < s.buffer.toList.length := by simpa [size] using hi
  rw [← Array.getElem?_toList, ← Array.getElem?_toList, ← hrest, List.getElem?_append_left hi']

theorem isVisible_eq (h : s.Within t) {i : Nat} (hi : i < s.size) :
    t.isVisible i = s.isVisible i := by
  rw [isVisible, isVisible, h.getElem?_eq hi, h.channel]

theorem isVisible (h : s.Within t) {i : Nat} (visible : s.isVisible i = true) :
    t.isVisible i = true := by
  rw [h.isVisible_eq (lt_size_of_isVisible visible), visible]

/-- What the search forward has found stays found. -/
theorem visibleFrom?_eq (h : s.Within t) {i j : Nat} (found : s.visibleFrom? i = some j) :
    t.visibleFrom? i = some j := by
  obtain ⟨h₁, visible, hidden⟩ := visibleFrom?_eq_some.1 found
  have hj := lt_size_of_isVisible visible
  refine visibleFrom?_eq_some.2 ⟨h₁, h.isVisible visible, fun k hk₁ hk₂ => ?_⟩
  rw [h.isVisible_eq (by omega)]
  exact hidden k hk₁ hk₂

/-- The search backward from a buffered slot does not see how far the buffer goes on. -/
theorem visibleBefore?_eq (h : s.Within t) {i : Nat} (hi : i ≤ s.size) :
    t.visibleBefore? i = s.visibleBefore? i := by
  induction i with
  | zero => rfl
  | succ i ih => rw [visibleBefore?, visibleBefore?, h.isVisible_eq hi, ih (by omega)]

theorem stepsBack?_eq (h : s.Within t) (k : Nat) {i : Nat} (hi : i ≤ s.size) :
    t.stepsBack? k i = s.stepsBack? k i := by
  induction k generalizing i with
  | zero => rfl
  | succ k ih =>
    rw [stepsBack?, stepsBack?, h.visibleBefore?_eq hi]
    split
    · next j before =>
      have lower := visibleBefore?_lt before
      exact ih (by omega)
    · rfl

/-- What is found so many steps back is found there for good. -/
theorem readBack_eq (h : s.Within t) (k : Nat) {i : Nat} (hi : i ≤ s.size) :
    ((t.stepsBack? (k + 1) i).bind fun j => t.buffer[j]?) =
      (s.stepsBack? (k + 1) i).bind fun j => s.buffer[j]? := by
  rw [h.stepsBack?_eq (k + 1) hi]
  rcases back : s.stepsBack? (k + 1) i with _ | j
  · rfl
  · have below : j < s.size := Nat.lt_of_lt_of_le (stepsBack?_lt back) hi
    exact h.getElem?_eq below

end Within

/-- A stream that is ready stays ready however its buffer grows, and what is read off it stays the
same. It is read off the buffer and the tuned channel. -/
structure Lasting {α : Type} (ready : Stream σ → Bool) (read : Stream σ → α) : Prop where
  ready_grown : ∀ {s t}, s.Within t → ready s = true → ready t = true
  read_grown : ∀ {s t}, s.Within t → ready s = true → read t = read s
  read_same : ∀ {s t : Stream σ}, t.buffer = s.buffer → t.policy.channel = s.policy.channel →
    read t = read s

/-! ## Settled slots -/

theorem endToken_of_wet {s : Stream σ} (wet : s.isDry = false) : s.endToken = none := by
  rwa [isDry, Option.isSome_eq_false_iff, Option.isNone_iff_eq_none] at wet

/-- Slot `i` is visible, or the source has ended and `i` is the size of the buffer. -/
def Settled (s : Stream σ) (i : Nat) : Prop :=
  s.isVisible i = true ∨ i = s.size ∧ s.isDry = true

/-- Whether a slot is settled is decided by the buffer, the tuned channel and the end. -/
theorem Settled.congr {τ : Type} {s : Stream σ} {t : Stream τ} {i : Nat} (h : s.Settled i)
    (buffer : t.buffer = s.buffer) (channel : t.policy.channel = s.policy.channel)
    (endToken : t.endToken = s.endToken) : t.Settled i := by
  unfold Settled isDry size at h ⊢
  rw [isVisible_congr buffer channel, buffer, endToken]
  exact h

theorem Settled.le_size {s : Stream σ} {i : Nat} (h : s.Settled i) : i ≤ s.size := by
  rcases h with visible | ⟨rfl, -⟩
  · exact Nat.le_of_lt (lt_size_of_isVisible visible)
  · exact Nat.le_refl _

/-- At the end of a settled search the source has ended. -/
theorem Settled.isDry {s : Stream σ} {i : Nat} (h : s.Settled i) (hi : ¬ i < s.size) :
    i = s.size ∧ s.isDry = true := by
  rcases h with visible | ended
  · exact absurd (lt_size_of_isVisible visible) hi
  · exact ended

/-! ## Streams that extend one another -/

/-- What `s` has buffered is in the same slots of `t`. If the source has ended for `s` already,
there is nothing else in `t`, and the end-of-stream token is the same. -/
structure Extends (s t : Stream σ) : Prop where
  within : s.Within t
  ended : s.isDry = true → t.buffer = s.buffer ∧ t.endToken = s.endToken

namespace Extends

variable {s t u : Stream σ}

theorem of_same (buffer : t.buffer = s.buffer) (channel : t.policy.channel = s.policy.channel)
    (endToken : t.endToken = s.endToken) : s.Extends t :=
  ⟨⟨channel, buffer ▸ List.prefix_refl _⟩, fun _ => ⟨buffer, endToken⟩⟩

theorem refl (s : Stream σ) : s.Extends s := of_same rfl rfl rfl

theorem isDry (h : s.Extends t) (dry : s.isDry = true) : t.isDry = true := by
  rw [Stream.isDry, (h.ended dry).2]
  exact dry

theorem trans (h : s.Extends t) (k : t.Extends u) : s.Extends u where
  within := h.within.trans k.within
  ended := by
    intro dry
    obtain ⟨buffer, endToken⟩ := h.ended dry
    obtain ⟨buffer', endToken'⟩ := k.ended (h.isDry dry)
    exact ⟨buffer'.trans buffer, endToken'.trans endToken⟩

theorem size_eq (h : s.Extends t) (dry : s.isDry = true) : t.size = s.size :=
  congrArg Array.size (h.ended dry).1

theorem settled (h : s.Extends t) {i : Nat} (settled : s.Settled i) : t.Settled i := by
  rcases settled with visible | ⟨rfl, dry⟩
  · exact Or.inl (h.within.isVisible visible)
  · exact Or.inr ⟨(h.size_eq dry).symm, h.isDry dry⟩

/-- What is in a settled slot, or the end-of-stream token at the end, is there for good. -/
theorem read_eq (h : s.Extends t) {i : Nat} (settled : s.Settled i) :
    (t.buffer[i]? <|> t.endToken) = (s.buffer[i]? <|> s.endToken) := by
  by_cases hi : i < s.size
  · obtain ⟨token, held⟩ : ∃ token, s.buffer[i]? = some token :=
      Option.isSome_iff_exists.1 (by simpa [size] using hi)
    rw [h.within.getElem?_eq hi, held]
    rfl
  · obtain ⟨buffer, endToken⟩ := h.ended (settled.isDry hi).2
    rw [buffer, endToken]

end Extends

/-- What is read off a stream that is ready or dry is read off every stream that extends it. -/
theorem Lasting.read_extends {α : Type} {ready : Stream σ → Bool} {read : Stream σ → α}
    (lasting : Lasting ready read) {s t : Stream σ} (h : s.Extends t)
    (stops : (s.isDry || ready s) = true) :
    (t.isDry || ready t) = true ∧ read t = read s := by
  rw [Bool.or_eq_true] at stops ⊢
  rcases stops with dry | there
  · exact ⟨Or.inl (h.isDry dry), lasting.read_same (h.ended dry).1 h.within.channel⟩
  · exact ⟨Or.inr (lasting.ready_grown h.within there), lasting.read_grown h.within there⟩

end Lookahead.Stream
