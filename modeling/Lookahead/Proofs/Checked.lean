import Lookahead.Proofs.Ranges

/-!
# Checked slots and words

The operations once more, loop by loop, as a machine with 64-bit words and a buffer that is read by
slots carries them out: every access to a slot, every sum, every difference and every slice is
checked, and a check that fails ends the operation with a `Slip`. `exec_checked` says that this
changes nothing. A check fails only if the buffer holds as many tokens as there are words, whatever
the source, the cursor, the marker and the arguments are; otherwise the checked operation does what
the other does.
-/

namespace Lookahead.Stream

/-- What a check can find. -/
inductive Slip
  /-- The slot is not in the buffer. -/
  | noSlot (i : Nat)
  /-- The sum is not a word. -/
  | overflow
  /-- The difference is below zero. -/
  | underflow
  /-- The slice is not one of the buffer. -/
  | noSlice (first last : Nat)
  deriving DecidableEq, Repr

/-- Operations that may slip. -/
abbrev CheckedM (σ : Type) := ExceptT Slip (StreamM σ)

namespace Checked

variable {σ : Type}

/-! ## Checks -/

/-- The token in slot `i`, which has to be there. -/
def slot (s : Stream σ) (i : Nat) : Except Slip Token :=
  match s.buffer[i]? with
  | some t => .ok t
  | none => .error (.noSlot i)

/-- The next word. -/
def next (i : Nat) : Except Slip Nat :=
  if i + 1 < UInt64.size then .ok (i + 1) else .error .overflow

/-- The word before. -/
def previous : Nat → Except Slip Nat
  | 0 => .error .underflow
  | i + 1 => .ok i

/-- The tokens in slots `first` to `last`, which have to be there. -/
def slice (s : Stream σ) (first last : Nat) : Except Slip (List Token) :=
  if first ≤ last ∧ last < s.size then .ok (s.slots first last) else .error (.noSlice first last)

/-! ## Scans of the buffer -/

/-- Goes back over the first `n` slots, and stops at a visible one. -/
def scanBack (s : Stream σ) : (n : Nat) → Except Slip (Option Nat)
  | 0 => pure none
  | n + 1 => do
    let t ← slot s n
    if t.channel == s.policy.channel then pure (some n) else scanBack s n

/-- The last visible slot up to `i`, which need not be in the buffer. -/
def skipBack (s : Stream σ) (i : Nat) : Except Slip (Option Nat) :=
  match s.size with
  | 0 => pure none
  | size + 1 => scanBack s (min i size + 1)

/-- The slot that `k` steps back over visible tokens lead to, if there are so many. -/
def stepsBack (s : Stream σ) : (k i : Nat) → Except Slip (Option Nat)
  | 0, i => pure (some i)
  | _ + 1, 0 => pure none
  | k + 1, i + 1 => do
    match ← skipBack s i with
    | some j => stepsBack s k j
    | none => pure none

/-! ## Operations -/

variable [TokenSource σ]

/-- Makes sure that slot `i` is filled, as `reach` does, and tells how many pulls are left then, or
nothing if the source ends first. -/
def sync (i limit : Nat) : CheckedM σ (Option Nat) := do
  let s ← getThe (Stream σ)
  if i < s.size then pure (some limit)
  else if s.isDry then pure none
  else
    match limit with
    | 0 => liftM (throw .outOfPulls : StreamM σ (Option Nat))
    | limit + 1 => do
      liftM (pull : StreamM σ Unit)
      sync i limit

/-- The first visible slot from `i` on, or the size of the buffer if the source ends first, found in
at most `steps` steps. Every slot is made sure of before it is read. -/
def skipFrom : (steps limit i : Nat) → CheckedM σ Nat
  | 0, _, _ => liftM (throw .outOfPulls : StreamM σ Nat)
  | steps + 1, limit, i => do
    match ← sync i limit with
    | none => do
      let s ← getThe (Stream σ)
      pure s.size
    | some left => do
      let s ← getThe (Stream σ)
      let t ← slot s i
      if t.channel == s.policy.channel then pure i
      else do
        let j ← next i
        skipFrom steps left j

/-- The first visible slot from `i` on, or the size of the buffer if the source ends first. There
are no more steps to take than slots that are filled or may be. -/
def skip (limit i : Nat) : CheckedM σ Nat := do
  let s ← getThe (Stream σ)
  skipFrom (s.size + limit + 1) limit i

/-- The slot of the cursor, which is positioned now if it has not been before. -/
def position (limit : Nat) : CheckedM σ Nat := do
  let s ← getThe (Stream σ)
  match s.cursor with
  | some p => pure p
  | none => do
    let p ← skip limit 0
    liftM (place p : StreamM σ Unit)
    pure p

/-- Moves the cursor to the first visible token from slot `i` on. -/
def seek (limit i : Nat) : CheckedM σ Unit := do
  let p ← skip limit i
  liftM (place p : StreamM σ Unit)

/-- Moves the cursor past the token it stands on; at the end it stays. -/
def consume (limit : Nat) : CheckedM σ Unit := do
  let p ← position limit
  let s ← getThe (Stream σ)
  if p < s.size then do
    let i ← next p
    seek limit i
  else pure ()

/-- Remembers where the cursor stands. -/
def mark (limit : Nat) : CheckedM σ Nat := do
  let p ← position limit
  liftM (modify fun s => { s with lastMark := p } : StreamM σ Unit)
  pure p

/-- Moves the cursor back to the last marker. -/
def rewindToMark (limit : Nat) : CheckedM σ Unit := do
  let s ← getThe (Stream σ)
  seek limit s.lastMark

/-- The slot that `k` steps over visible tokens lead to from slot `i`, or the size of the buffer if
there are not so many. -/
def stepsAhead (limit : Nat) : (k i : Nat) → CheckedM σ Nat
  | 0, i => pure i
  | k + 1, i => do
    let s ← getThe (Stream σ)
    if i < s.size then do
      let above ← next i
      let j ← skip limit above
      stepsAhead limit k j
    else pure i

/-- The `k`-th visible token from the cursor on, or back from the cursor if `k` is negative. -/
def lookahead (limit : Nat) : (k : Int) → CheckedM σ (Option Token)
  | .ofNat 0 => pure none
  | .ofNat (k + 1) => do
    let p ← position limit
    let i ← stepsAhead limit k p
    let s ← getThe (Stream σ)
    pure (s.buffer[i]? <|> s.endToken)
  | .negSucc k => do
    let p ← position limit
    let s ← getThe (Stream σ)
    let i ← stepsBack s (k + 1) p
    pure (i.bind fun i => s.buffer[i]?)

/-- The texts of the visible tokens from the cursor on, consuming them one by one. -/
def drainTexts (limit : Nat) : (count : Nat) → CheckedM σ (List String)
  | 0 => liftM (throw .outOfPulls : StreamM σ (List String))
  | count + 1 => do
    match ← lookahead limit 1 with
    | none => pure []
    | some t =>
      if t.isEnd then pure []
      else do
        consume limit
        let texts ← drainTexts limit count
        pure (t.text :: texts)

/-- Consumes all visible tokens that are left, and collects their texts. -/
def drain (limit : Nat) : CheckedM σ (List String) := do
  let s ← getThe (Stream σ)
  drainTexts limit (s.size + limit + 1)

/-- The tokens in slots `first` to `last`, as far as there are any. -/
def range (limit first last : Nat) : CheckedM σ (List Token) :=
  if last < first then pure []
  else do
    liftM (reach limit last : StreamM σ Unit)
    let s ← getThe (Stream σ)
    if s.size ≤ first then pure []
    else do
      let top ← previous s.size
      slice s first (min last top)

/-- Carries out a command. What moves no cursor and cuts no slice has nothing to check. -/
def exec (limit : Nat) : Command σ → CheckedM σ (Answer σ)
  | .consume => do consume limit; pure .nothing
  | .peekKind k => do pure (.kind ((← lookahead limit k).elim .absent Token.kind))
  | .lookahead k => do pure (.token? (← lookahead limit k))
  | .mark => do pure (.slot (← mark limit))
  | .rewind marker => do seek limit marker; pure .nothing
  | .rewindToMark => do rewindToMark limit; pure .nothing
  | .seek i => do seek limit i; pure .nothing
  | .isAtEnd => do pure (.flag ((← lookahead limit 1).elim true Token.isEnd))
  | .range first last => do pure (.tokens (← range limit first last))
  | .rangeInSet first last kinds => do
    pure (.tokens ((← range limit first last).filter fun t => kinds.contains t.kind))
  | .rangeOfKinds first last kinds => do
    pure (.tokens ((← range limit first last).filter fun t => kinds.contains t.kind))
  | .rangeOfKind first last kind => do
    pure (.tokens ((← range limit first last).filter fun t => t.kind == kind))
  | .textRange first last => do pure (.text (joinTexts (← range limit first last)))
  | .textBetween first last =>
    match first.index, last.index with
    | some i, some j => do pure (.text (joinTexts (← range limit i j)))
    | _, _ => pure (.text "")
  | .drain => do pure (.texts (← drain limit))
  | c => liftM (Stream.exec limit c)

/-! ## Checked operations and others -/

/-- What the checked operation comes to, and what the other does: it is the same, or a check has
failed at a buffer of as many tokens as there are words, and the other ends with no fewer. -/
inductive Guarded {α : Type} :
    Except Interrupt (Except Slip α) × Stream σ → Except Interrupt α × Stream σ → Prop
  | answered {a : α} {t : Stream σ} : Guarded (.ok (.ok a), t) (.ok a, t)
  | interrupted {i : Interrupt} {t : Stream σ} : Guarded (.error i, t) (.error i, t)
  | slipped {slip : Slip} {t : Stream σ} {r : Except Interrupt α × Stream σ} :
    UInt64.size ≤ t.size → t.size ≤ r.2.size → Guarded (.ok (.error slip), t) r

/-- Carried out on `s` the checked operation comes to what the other does, which takes nothing from
the buffer. -/
structure Guards {α : Type} (checked : CheckedM σ α) (op : StreamM σ α) (s : Stream σ) : Prop where
  guarded : Guarded (checked.run.perform s) (op.perform s)
  grows : s.size ≤ (op.perform s).2.size

section

omit [TokenSource σ]

variable {α β : Type} {s : Stream σ}

theorem guarded_lift (op : StreamM σ α) (s : Stream σ) :
    Guarded ((liftM op : CheckedM σ α).run.perform s) (op.perform s) := by
  have performed : (liftM op : CheckedM σ α).run.perform s =
      (op >>= fun a => pure (Except.ok a)).perform s := rfl
  rw [performed, StreamM.perform_bind]
  rcases op.perform s with ⟨i | a, t⟩
  · exact .interrupted
  · exact .answered

theorem guards_lift {op : StreamM σ α} (grows : s.size ≤ (op.perform s).2.size) :
    Guards (liftM op) op s :=
  ⟨guarded_lift op s, grows⟩

theorem guards_throw {i : Interrupt} :
    Guards (liftM (throw i : StreamM σ α)) (throw i) s :=
  guards_lift (Nat.le_refl _)

theorem guards_pure (a : α) : Guards (pure a) (pure a) s := ⟨.answered, Nat.le_refl _⟩

theorem guards_bind {checked : CheckedM σ α} {op : StreamM σ α} {next : α → CheckedM σ β}
    {next' : α → StreamM σ β} (first : Guards checked op s)
    (then_ : ∀ {a t}, op.perform s = (.ok a, t) → Guards (next a) (next' a) t) :
    Guards (checked >>= next) (op >>= next') s := by
  obtain ⟨guarded, grows⟩ := first
  have further : (op.perform s).2.size ≤ ((op >>= next').perform s).2.size := by
    rcases performed : op.perform s with ⟨i | a, t⟩
    · rw [StreamM.perform_bind_of_error performed]
    · rw [StreamM.perform_bind_of_ok performed]
      exact (then_ performed).grows
  refine ⟨?_, Nat.le_trans grows further⟩
  rw [StreamM.perform_bind] at further ⊢
  rw [ExceptT.run_bind, StreamM.perform_bind]
  generalize checked.run.perform s = r at guarded ⊢
  generalize performed : op.perform s = r' at guarded further ⊢
  cases guarded with
  | answered => exact (then_ performed).guarded
  | interrupted => exact .interrupted
  | slipped large grown => exact .slipped large (Nat.le_trans grown further)

theorem guards_bind_pure {checked : CheckedM σ α} {op : StreamM σ α} (f : α → β)
    (first : Guards checked op s) :
    Guards (checked >>= fun a => pure (f a)) (op >>= fun a => pure (f a)) s :=
  guards_bind first fun _ => guards_pure _

theorem Guards.congr {checked : CheckedM σ α} {op op' : StreamM σ α} (h : Guards checked op s)
    (same : op'.perform s = op.perform s) : Guards checked op' s :=
  ⟨same ▸ h.guarded, same ▸ h.grows⟩

theorem guards_of_perform {op : StreamM σ α} {a : α} (performed : op.perform s = (.ok a, s)) :
    Guards (pure a) op s :=
  (guards_pure a).congr performed

/-- What is done after the stream has been looked at. -/
theorem guards_get {next : Stream σ → CheckedM σ α} {next' : Stream σ → StreamM σ α}
    (h : Guards (next s) (next' s) s) : Guards (getThe (Stream σ) >>= next) (get >>= next') s :=
  ⟨h.guarded, h.grows⟩

/-- What is done after the stream has been looked at, which the other operation does not do. -/
theorem guards_look {next : Stream σ → CheckedM σ α} {op : StreamM σ α}
    (h : Guards (next s) op s) : Guards (getThe (Stream σ) >>= next) op s :=
  ⟨h.guarded, h.grows⟩

/-- What is done after a check that the other operation does not make. -/
theorem guards_check {check : Except Slip β} {b : β} {next : β → CheckedM σ α} {op : StreamM σ α}
    (checks : check = .ok b ∨ ∃ slip, check = .error slip ∧ UInt64.size ≤ s.size)
    (h : Guards (next b) op s) : Guards (liftM check >>= next) op s := by
  rcases checks with rfl | ⟨slip, rfl, large⟩
  · exact h
  · exact ⟨.slipped large h.grows, h.grows⟩

theorem guards_of_check {check : Except Slip α} {a : α} (passes : check = .ok a) :
    Guards (liftM check) (pure a) s := by
  rw [passes]
  exact guards_pure a

end

/-! ### Scans -/

section

omit [TokenSource σ]

variable {s : Stream σ}

theorem slot_of_lt {i : Nat} (below : i < s.size) :
    ∃ t, slot s i = .ok t ∧ s.isVisible i = (t.channel == s.policy.channel) := by
  have held : s.buffer[i]? = some s.buffer[i] := Array.getElem?_eq_getElem below
  exact ⟨s.buffer[i], by rw [slot, held], by rw [isVisible, held]; rfl⟩

/-- Below the size of the buffer the next word is there, unless the buffer is as large as there are
words. -/
theorem next_of_lt {i : Nat} (below : i < s.size) :
    next i = .ok (i + 1) ∨ ∃ slip, next i = .error slip ∧ UInt64.size ≤ s.size := by
  unfold next
  split
  · exact Or.inl rfl
  · exact Or.inr ⟨.overflow, rfl, by omega⟩

theorem scanBack_eq {n : Nat} (inside : n ≤ s.size) : scanBack s n = .ok (s.visibleBefore? n) := by
  induction n with
  | zero => rfl
  | succ n ih =>
    obtain ⟨t, held, visible⟩ := slot_of_lt (s := s) inside
    have step : scanBack s (n + 1) = if s.isVisible n then .ok (some n) else scanBack s n := by
      rw [scanBack, held, visible]
      rfl
    rw [step, visibleBefore?]
    cases s.isVisible n with
    | true => rfl
    | false => exact ih (by omega)

/-- There is nothing to be seen above the buffer. -/
theorem visibleBefore?_of_size_le {i : Nat} (beyond : s.size ≤ i) :
    s.visibleBefore? i = s.visibleBefore? s.size := by
  induction i, beyond using Nat.le_induction with
  | base => rfl
  | succ i beyond ih =>
    have hidden : ¬ s.isVisible i = true := fun visible =>
      absurd (lt_size_of_isVisible visible) (by omega)
    rw [visibleBefore?, if_neg hidden, ih]

theorem skipBack_eq (i : Nat) : skipBack s i = .ok (s.visibleBefore? (i + 1)) := by
  unfold skipBack
  split
  · next empty =>
    rw [visibleBefore?_of_size_le (by omega), empty]
    rfl
  · next size filled =>
    rw [scanBack_eq (by omega)]
    rcases Nat.le_total i size with below | beyond
    · rw [Nat.min_eq_left below]
    · rw [Nat.min_eq_right beyond, visibleBefore?_of_size_le (i := i + 1) (by omega), filled]

theorem stepsBack_eq (k i : Nat) : stepsBack s k i = .ok (s.stepsBack? k i) := by
  induction k generalizing i with
  | zero => rfl
  | succ k ih =>
    cases i with
    | zero => rfl
    | succ i =>
      have step : stepsBack s (k + 1) (i + 1) = (skipBack s i).bind fun
          | some j => stepsBack s k j
          | none => .ok none := rfl
      rw [step, skipBack_eq, Stream.stepsBack?]
      cases s.visibleBefore? (i + 1) with
      | none => rfl
      | some j => exact ih j

end

/-! ### Searches -/

section

omit [TokenSource σ]

variable {s t : Stream σ} {i j : Nat}

/-- The slots from `i` up to `j` are filled and hidden. -/
def Hidden (s : Stream σ) (i j : Nat) : Prop :=
  ∀ k, i ≤ k → k < j → k < s.size ∧ s.isVisible k = false

theorem hidden_refl (s : Stream σ) (i : Nat) : Hidden s i i :=
  fun _ above below => absurd below (Nat.not_lt_of_le above)

theorem Hidden.within (h : Hidden s i j) (grown : s.Within t) : Hidden t i j := by
  intro k above below
  obtain ⟨filled, hidden⟩ := h k above below
  exact ⟨Nat.lt_of_lt_of_le filled grown.size_le, (grown.isVisible_eq filled).trans hidden⟩

theorem Hidden.succ (h : Hidden s i j) (filled : j < s.size) (hidden : s.isVisible j = false) :
    Hidden s i (j + 1) := by
  intro k above below
  rcases Nat.lt_or_eq_of_le (Nat.le_of_lt_succ below) with earlier | rfl
  · exact h k above earlier
  · exact ⟨filled, hidden⟩

/-- The search ends at a visible slot below which all are hidden. -/
theorem Hidden.found (h : Hidden s i j) (le : i ≤ j) (visible : s.isVisible j = true) :
    s.visibleFrom? i = some j :=
  visibleFrom?_eq_some.2 ⟨le, visible, fun k above below => (h k above below).2⟩

/-- There is nothing to be found if all that is filled is hidden. -/
theorem Hidden.unseen (h : Hidden s i j) (unfilled : ¬ j < s.size) : s.visibleFrom? i = none := by
  refine visibleFrom?_eq_none.2 fun k above => Bool.eq_false_iff.2 fun visible => ?_
  have filled : k < s.size := lt_size_of_isVisible visible
  have hidden : s.isVisible k = false := (h k above (by omega)).2
  rw [hidden] at visible
  cases visible

end

theorem guards_pull {s : Stream σ} (wet : s.isDry = false) :
    Guards (liftM (pull : StreamM σ Unit)) pull s := by
  refine guards_lift ?_
  rcases pulled : TokenSource.next s.source with ⟨e | token, source⟩
  · rw [perform_pull_error pulled]
    exact Nat.le_refl _
  · have step : PullStep s (receive { s with source } token) := ⟨wet, perform_pull_ok pulled⟩
    rw [perform_pull_ok pulled]
    exact step.within.size_le

/-- What is done at a stream where the search is over. -/
theorem guards_target {i j limit : Nat} {s : Stream σ} (stops : (s.isDry || sees i s) = true)
    (here : target i s = j) : Guards (pure j) (search (sees i) (target i) limit) s :=
  guards_of_perform (by rw [perform_search, perform_pullUntil_of_ready stops, ← here])

omit [TokenSource σ] in
/-- What is done when it has been tried whether slot `j` is filled: it goes on if it is or if the
source has ended, and otherwise after what fills it. -/
theorem guards_try {α : Type} {j limit : Nat} {s : Stream σ} {more : CheckedM σ (Option Nat)}
    {next : Option Nat → CheckedM σ α} {op : StreamM σ α}
    (filled : j < s.size → Guards (next (some limit)) op s)
    (ended : ¬ j < s.size → s.isDry = true → Guards (next none) op s)
    (waits : ¬ j < s.size → s.isDry = false → Guards (more >>= next) op s) :
    Guards
      ((if j < s.size then pure (some limit) else if s.isDry then pure none else more) >>= next)
      op s := by
  by_cases inside : j < s.size
  · rw [if_pos inside, pure_bind]
    exact filled inside
  · rw [if_neg inside]
    cases dry : s.isDry with
    | true =>
      rw [if_pos rfl, pure_bind]
      exact ended inside dry
    | false =>
      rw [if_neg Bool.false_ne_true]
      exact waits inside dry

/-- A search for a visible slot from `i` on that has come to slot `j` goes on when the slot is
filled, with as many pulls as are left, or when the source has ended. -/
theorem guards_sync {i j limit : Nat} {s : Stream σ} {next : Option Nat → CheckedM σ Nat}
    (hidden : Hidden s i j)
    (filled : ∀ {left t}, Hidden t i j → j < t.size → t.size + left ≤ s.size + limit →
      Guards (next (some left)) (search (sees i) (target i) left) t)
    (ended : ∀ {left t}, Hidden t i j → ¬ j < t.size → t.isDry = true →
      Guards (next none) (search (sees i) (target i) left) t) :
    Guards (sync j limit >>= next) (search (sees i) (target i) limit) s := by
  have waits {t : Stream σ} (hidden : Hidden t i j) (outside : ¬ j < t.size)
      (wet : t.isDry = false) : (t.isDry || sees i t) = false := by
    rw [wet, sees, hidden.unseen outside, Option.isSome_none, Bool.or_false]
  induction limit generalizing s with
  | zero =>
    rw [sync, bind_assoc]
    refine guards_look (guards_try (fun inside => filled hidden inside (Nat.le_refl _))
      (ended hidden) fun outside wet => ?_)
    have stuck : Guards (liftM (throw .outOfPulls : StreamM σ (Option Nat)) >>= next)
        (throw .outOfPulls) s := ⟨.interrupted, Nat.le_refl _⟩
    refine stuck.congr ?_
    rw [perform_search, perform_pullUntil_zero (waits hidden outside wet)]
    rfl
  | succ limit ih =>
    rw [sync, bind_assoc]
    refine guards_look (guards_try (fun inside => filled hidden inside (Nat.le_refl _))
      (ended hidden) fun outside wet => ?_)
    rw [bind_assoc]
    refine (guards_bind (guards_pull wet) fun {_ t} pulled => ?_).congr
      (perform_pullUntil_succ_bind (waits hidden outside wet) limit _)
    have step : PullStep s t := ⟨wet, pulled⟩
    have room : t.size ≤ s.size + 1 := step.size_le
    exact ih (hidden.within step.within) fun hidden inside more => filled hidden inside (by omega)

theorem guards_skipFrom {steps limit i j : Nat} {s : Stream σ} (le : i ≤ j) (hidden : Hidden s i j)
    (enough : s.size + limit - j < steps) :
    Guards (skipFrom steps limit j) (search (sees i) (target i) limit) s := by
  induction steps generalizing j limit s with
  | zero => exact absurd enough (Nat.not_lt_zero _)
  | succ steps ih =>
    -- Every step leaves a slot behind that is filled, so there are enough for those that are left.
    refine guards_sync hidden (fun {left t} hidden inside room => guards_look ?_)
      fun {left t} hidden outside dry => guards_look ?_
    · obtain ⟨token, held, visible⟩ := slot_of_lt inside
      refine guards_check (Or.inl held) ?_
      rw [← visible]
      cases shown : t.isVisible j with
      | true =>
        have found := hidden.found le shown
        rw [if_pos rfl]
        exact guards_target (by rw [sees, found, Option.isSome_some, Bool.or_true])
          (by rw [target, found, Option.getD_some])
      | false =>
        rw [if_neg Bool.false_ne_true]
        exact guards_check (next_of_lt inside)
          (ih (Nat.le_succ_of_le le) (hidden.succ inside shown) (by omega))
    · exact guards_target (by rw [dry, Bool.true_or])
        (by rw [target, hidden.unseen outside, Option.getD_none])

theorem guards_nextVisible (limit i : Nat) (s : Stream σ) :
    Guards (skip limit i) (nextVisible limit i) s :=
  (guards_look (guards_skipFrom (Nat.le_refl i) (hidden_refl s i) (by omega))).congr
    (perform_nextVisible limit i s)

/-! ### Operations with the cursor -/

theorem guards_seek (limit i : Nat) (s : Stream σ) :
    Guards (seek limit i) (Stream.seek limit i) s :=
  guards_bind (guards_nextVisible limit i s) fun _ => guards_lift (Nat.le_refl _)

theorem guards_position (limit : Nat) (s : Stream σ) :
    Guards (position limit) (Stream.position limit) s := by
  refine guards_get ?_
  cases s.cursor with
  | some p => exact guards_pure p
  | none =>
    exact guards_bind (guards_nextVisible limit 0 s) fun {p t} _ =>
      guards_bind (guards_lift (Nat.le_refl _)) fun _ => guards_pure p

theorem guards_consume (limit : Nat) (s : Stream σ) :
    Guards (consume limit) (Stream.consume limit) s := by
  refine guards_bind (guards_position limit s) fun {p t} _ => guards_get ?_
  by_cases below : p < t.size
  · rw [if_pos below, if_pos below]
    exact guards_check (next_of_lt below) (guards_seek limit (p + 1) t)
  · rw [if_neg below, if_neg below]
    exact guards_pure ()

theorem guards_mark (limit : Nat) (s : Stream σ) : Guards (mark limit) (Stream.mark limit) s :=
  guards_bind (guards_position limit s) fun {p _} _ =>
    guards_bind (guards_lift (Nat.le_refl _)) fun _ => guards_pure p

theorem guards_rewindToMark (limit : Nat) (s : Stream σ) :
    Guards (rewindToMark limit) (Stream.rewindToMark limit) s :=
  guards_get (guards_seek limit s.lastMark s)

theorem guards_stepsAhead (limit k i : Nat) (s : Stream σ) :
    Guards (stepsAhead limit k i) (Stream.stepsAhead limit k i) s := by
  induction k generalizing i s with
  | zero => exact guards_pure i
  | succ k ih =>
    refine guards_get ?_
    by_cases below : i < s.size
    · rw [if_pos below, if_pos below]
      exact guards_check (next_of_lt below)
        (guards_bind (guards_nextVisible limit (i + 1) s) fun _ => ih _ _)
    · rw [if_neg below, if_neg below]
      exact guards_pure i

theorem guards_lookahead (limit : Nat) (k : Int) (s : Stream σ) :
    Guards (lookahead limit k) (Stream.lookahead limit k) s := by
  match k with
  | .ofNat 0 => exact guards_pure none
  | .ofNat (k + 1) =>
    exact guards_bind (guards_position limit s) fun {p t} _ =>
      guards_bind (guards_stepsAhead limit k p t) fun _ => guards_get (guards_pure _)
  | .negSucc k =>
    refine guards_bind (guards_position limit s) fun {p t} _ => guards_get ?_
    rw [stepsBack_eq]
    exact guards_pure _

theorem guards_drainTexts (limit count : Nat) (s : Stream σ) :
    Guards (drainTexts limit count) (Stream.drainTexts limit count) s := by
  induction count generalizing s with
  | zero => exact guards_throw
  | succ count ih =>
    refine guards_bind (guards_lookahead limit 1 s) fun {found t} _ => ?_
    cases found with
    | none => exact guards_pure []
    | some token =>
      dsimp only
      split
      · exact guards_pure []
      · exact guards_bind (guards_consume limit t) fun {_ u} _ => guards_bind_pure _ (ih u)

theorem guards_drain (limit : Nat) (s : Stream σ) : Guards (drain limit) (Stream.drain limit) s :=
  guards_get (guards_drainTexts limit _ s)

/-! ### Slices -/

omit [TokenSource σ] in
theorem slice_eq {s : Stream σ} {first last : Nat} (ordered : ¬ last < first)
    (below : first < s.size) :
    slice s first (min last (s.size - 1)) = .ok (s.slots first last) := by
  rw [slice, if_pos (by omega)]
  rcases Nat.le_total last (s.size - 1) with within | beyond
  · rw [Nat.min_eq_left within]
  · rw [Nat.min_eq_right beyond, slots_of_size_le (by omega), slots_of_size_le (by omega)]

omit [TokenSource σ] in
theorem previous_eq {n : Nat} (positive : 0 < n) : previous n = .ok (n - 1) := by
  cases n with
  | zero => cases positive
  | succ n => rfl

theorem guards_range (limit first last : Nat) (s : Stream σ) :
    Guards (range limit first last) (Stream.range limit first last) s := by
  unfold range Stream.range
  split
  · exact guards_pure []
  · next ordered =>
    refine guards_bind (guards_lift (operates_pullUntil _ limit s).extends.within.size_le)
      fun {_ t} _ => guards_get ?_
    by_cases beyond : t.size ≤ first
    · have empty : t.slots first last = [] := by
        rw [slots_eq, List.drop_eq_nil_of_le (by rwa [Array.length_toList]), List.take_nil]
      rw [if_pos beyond, empty]
      exact guards_pure []
    · rw [if_neg beyond]
      exact guards_check (Or.inl (previous_eq (by omega)))
        (guards_of_check (slice_eq ordered (Nat.lt_of_not_le beyond)))

/-! ### Commands -/

theorem guarded_exec (limit : Nat) (c : Command σ) (s : Stream σ) :
    Guarded ((exec limit c).run.perform s) ((Stream.exec limit c).perform s) := by
  have looks (k : Int) := guards_lookahead limit k s
  have ranges (first last : Nat) := guards_range limit first last s
  have wrap {α β : Type} {checked : CheckedM σ α} {op : StreamM σ α} (f : α → β)
      (h : Guards checked op s) := (guards_bind_pure f h).guarded
  have twice {α β γ : Type} {checked : CheckedM σ α} {op : StreamM σ α} (f : α → β) (g : β → γ)
      (h : Guards checked op s) : Guarded ((checked >>= fun a => pure (g (f a))).run.perform s)
        (((op >>= fun a => pure (f a)) >>= fun b => pure (g b)).perform s) :=
    ((guards_bind_pure (fun a => g (f a)) h).congr (by rw [bind_assoc]; rfl)).guarded
  cases c with
  | consume => exact wrap _ (guards_consume limit s)
  | peekKind k => exact twice _ _ (looks k)
  | lookahead k => exact wrap _ (looks k)
  | mark => exact wrap _ (guards_mark limit s)
  | rewind marker => exact wrap _ (guards_seek limit marker s)
  | rewindToMark => exact wrap _ (guards_rewindToMark limit s)
  | seek i => exact wrap _ (guards_seek limit i s)
  | isAtEnd => exact twice _ _ (looks 1)
  | range first last => exact wrap _ (ranges first last)
  | rangeInSet first last kinds => exact twice _ _ (ranges first last)
  | rangeOfKinds first last kinds => exact twice _ _ (ranges first last)
  | rangeOfKind first last kind => exact twice _ _ (ranges first last)
  | textRange first last => exact twice _ _ (ranges first last)
  | textBetween first last =>
    simp only [exec, Stream.exec, textBetween]
    cases first.index with
    | none => exact .answered
    | some i =>
      cases last.index with
      | none => exact .answered
      | some j => exact twice _ _ (ranges i j)
  | drain => exact wrap _ (guards_drain limit s)
  | _ => exact guarded_lift _ s

end Checked

/-- No check of an operation fails as long as the buffer holds fewer tokens than there are words,
whatever the source, the cursor, the marker and the arguments are: a command that is carried out
with checks does what it does without them, or has come to a buffer that is as large, which it comes
to without them as well. -/
theorem exec_checked {σ : Type} [TokenSource σ] (limit : Nat) (c : Command σ) (s : Stream σ) :
    (Checked.exec limit c).run.perform s =
        (((exec limit c).perform s).1.map .ok, ((exec limit c).perform s).2) ∨
      ∃ slip t, (Checked.exec limit c).run.perform s = (.ok (.error slip), t) ∧
        UInt64.size ≤ t.size ∧ t.size ≤ ((exec limit c).perform s).2.size := by
  have guarded := Checked.guarded_exec limit c s
  generalize (Checked.exec limit c).run.perform s = r, (exec limit c).perform s = r' at guarded ⊢
  cases guarded with
  | answered => exact Or.inl rfl
  | interrupted => exact Or.inl rfl
  | slipped large grown => exact Or.inr ⟨_, _, rfl, large, grown⟩

end Lookahead.Stream
