import Lookahead.KindSet
import Lookahead.Stream.Basic

/-!
# Slots by number

Requests that name slots of the buffer and take no notice of the cursor or the tuned channel. They
pull until the last slot they name is filled or the source ends, and no further; ranges include
both ends.
-/

namespace Lookahead.Stream

variable {σ : Type}

/-- The texts of tokens, one after the other. -/
def joinTexts (tokens : List Token) : String := String.join (tokens.map Token.text)

/-- The buffered tokens in slots `first` to `last`. -/
def slots (s : Stream σ) (first last : Nat) : List Token :=
  (s.buffer.extract first (last + 1)).toList

variable [TokenSource σ]

/-- The token in slot `i`, if the source has so many. -/
def get? (limit i : Nat) : StreamM σ (Option Token) := do
  reach limit i
  let s ← get
  pure s.buffer[i]?

/-- All tokens of the source that are kept. -/
def tokens (limit : Nat) : StreamM σ (List Token) := do
  fill limit
  let s ← get
  pure s.buffer.toList

/-- The tokens in slots `first` to `last`. A range that ends before it starts is empty, and
nothing is pulled for it. -/
def range (limit first last : Nat) : StreamM σ (List Token) :=
  if last < first then pure []
  else do
    reach limit last
    let s ← get
    pure (s.slots first last)

/-- The tokens of a range whose kinds pass a test. -/
def rangeWhere (limit first last : Nat) (test : Kind → Bool) : StreamM σ (List Token) := do
  let tokens ← range limit first last
  pure (tokens.filter fun t => test t.kind)

/-- The tokens of a range whose kinds are members of a set. -/
def rangeInSet (limit first last : Nat) (kinds : KindSet) : StreamM σ (List Token) :=
  rangeWhere limit first last kinds.contains

/-- The tokens of a range whose kinds are in a list. -/
def rangeOfKinds (limit first last : Nat) (kinds : List Kind) : StreamM σ (List Token) :=
  rangeWhere limit first last kinds.contains

/-- The tokens of a range of one kind. -/
def rangeOfKind (limit first last : Nat) (kind : Kind) : StreamM σ (List Token) :=
  rangeWhere limit first last (· == kind)

/-- The text of the whole source, as far as it is kept. -/
def text (limit : Nat) : StreamM σ String := do
  let all ← tokens limit
  pure (joinTexts all)

/-- The text of a range. -/
def textRange (limit first last : Nat) : StreamM σ String := do
  let tokens ← range limit first last
  pure (joinTexts tokens)

/-- The text from one token to another, which say themselves in which slots they are; there is
none if one of them is in no slot. -/
def textBetween (limit : Nat) (first last : Token) : StreamM σ String :=
  match first.index, last.index with
  | some i, some j => textRange limit i j
  | _, _ => pure ""

end Lookahead.Stream
