import Lookahead.Stream.Basic

/-!
# The cursor

A parser sees the buffered tokens on the channel the stream is tuned to, from the cursor on. The
cursor stands on such a token or, once the source has ended, past the last buffered one. It is
first positioned when a request needs it, on the first visible token.

`nextVisible` is the one search that pulls: it pulls nothing if a visible slot is buffered already,
and otherwise stops at the first token that is both visible and far enough.
-/

namespace Lookahead.Stream

variable {σ : Type}

/-! ## Visible slots -/

/-- Whether slot `i` holds a token on the tuned channel. -/
def isVisible (s : Stream σ) (i : Nat) : Bool :=
  s.buffer[i]?.any fun t => t.channel == s.policy.channel

/-- The first visible slot among the `n` slots from `i` on. -/
def visibleAmong? (s : Stream σ) (i : Nat) : (n : Nat) → Option Nat
  | 0 => none
  | n + 1 => if s.isVisible i then some i else visibleAmong? s (i + 1) n

/-- The first visible slot from `i` on. -/
def visibleFrom? (s : Stream σ) (i : Nat) : Option Nat := s.visibleAmong? i (s.size - i)

/-- The last visible slot before `i`. -/
def visibleBefore? (s : Stream σ) : (i : Nat) → Option Nat
  | 0 => none
  | i + 1 => if s.isVisible i then some i else visibleBefore? s i

/-- The slot that `k` steps back over visible tokens lead to, if there are so many. -/
def stepsBack? (s : Stream σ) : (k i : Nat) → Option Nat
  | 0, i => some i
  | k + 1, i =>
    match s.visibleBefore? i with
    | some j => stepsBack? s k j
    | none => none

/-- Whether the token buffered last is in slot `i` or later, and visible. -/
def endsVisibly (s : Stream σ) (i : Nat) : Bool := i < s.size && s.isVisible (s.size - 1)

/-- Puts the cursor on a slot. -/
def place (i : Nat) : StreamM σ Unit := modify fun s => { s with cursor := some i }

variable [TokenSource σ]

/-! ## Moving -/

/-- The first visible slot from `i` on, or the size of the buffer if the source ends without
one. -/
def nextVisible (limit i : Nat) : StreamM σ Nat := do
  let s ← get
  match s.visibleFrom? i with
  | some j => pure j
  | none => do
    pullUntil (fun s => s.endsVisibly i) limit
    let s ← get
    pure ((s.visibleFrom? i).getD s.size)

/-- The slot of the cursor, which is positioned now if it has not been before. -/
def position (limit : Nat) : StreamM σ Nat := do
  let s ← get
  match s.cursor with
  | some p => pure p
  | none => do
    let p ← nextVisible limit 0
    place p
    pure p

/-- Moves the cursor to the first visible token from slot `i` on. -/
def seek (limit i : Nat) : StreamM σ Unit := do
  let p ← nextVisible limit i
  place p

/-- Moves the cursor past the token it stands on; at the end it stays. -/
def consume (limit : Nat) : StreamM σ Unit := do
  let p ← position limit
  let s ← get
  if p < s.size then seek limit (p + 1) else pure ()

/-- Remembers where the cursor stands. -/
def mark (limit : Nat) : StreamM σ Nat := do
  let p ← position limit
  modify fun s => { s with lastMark := p }
  pure p

/-- Moves the cursor back to a marker, or to the next visible token if it holds none. -/
def rewind (limit marker : Nat) : StreamM σ Unit := seek limit marker

/-- Moves the cursor back to the last marker, which is the first slot until one is set. The marker
stays set. -/
def rewindToMark (limit : Nat) : StreamM σ Unit := do
  let s ← get
  seek limit s.lastMark

/-! ## Looking -/

/-- The slot that `k` steps over visible tokens lead to from slot `i`, or the size of the buffer if
there are not so many. -/
def stepsAhead (limit : Nat) : (k i : Nat) → StreamM σ Nat
  | 0, i => pure i
  | k + 1, i => do
    let s ← get
    if i < s.size then do
      let j ← nextVisible limit (i + 1)
      stepsAhead limit k j
    else pure i

/-- The `k`-th visible token from the cursor on, counting the one it stands on as first; past the
last one it is the end-of-stream token. A negative `k` counts back from the cursor, and zero looks
at nothing. -/
def lookahead (limit : Nat) : (k : Int) → StreamM σ (Option Token)
  | .ofNat 0 => pure none
  | .ofNat (k + 1) => do
    let p ← position limit
    let i ← stepsAhead limit k p
    let s ← get
    pure (s.buffer[i]? <|> s.endToken)
  | .negSucc k => do
    let p ← position limit
    let s ← get
    pure ((s.stepsBack? (k + 1) p).bind fun i => s.buffer[i]?)

/-- The kind of the token that `lookahead` finds. -/
def peekKind (limit : Nat) (k : Int) : StreamM σ Kind := do
  let t ← lookahead limit k
  pure (t.elim .absent Token.kind)

/-- Whether the cursor stands at the end of the source. -/
def isAtEnd (limit : Nat) : StreamM σ Bool := do
  let t ← lookahead limit 1
  pure (t.elim true Token.isEnd)

/-- The texts of the visible tokens from the cursor on, of which there are fewer than `count`,
consuming them one by one. -/
def drainTexts (limit : Nat) : (count : Nat) → StreamM σ (List String)
  | 0 => throw .outOfPulls
  | count + 1 => do
    match ← lookahead limit 1 with
    | none => pure []
    | some t =>
      if t.isEnd then pure []
      else do
        consume limit
        let texts ← drainTexts limit count
        pure (t.text :: texts)

/-- Consumes all visible tokens that are left, and collects their texts. -/
def drain (limit : Nat) : StreamM σ (List String) := do
  let s ← get
  drainTexts limit (s.size + limit + 1)

end Lookahead.Stream
