/-!
# Places in the input

A `Position` is a place in the text a lexer reads, a `Span` the stretch a token covers. All
coordinates count from zero and are 64-bit words, the widest that the written forms of a token
(`Lookahead.Json`, `Lookahead.Binary`) can carry.
-/

namespace Lookahead

/-- A place in the input: the line, the number of characters before it on that line, and the
number of bytes before it in the whole input. -/
structure Position where
  line : UInt64
  column : UInt64
  byteOffset : UInt64
  deriving DecidableEq, Repr, Inhabited

/-- The place before the first character. -/
def Position.origin : Position := ⟨0, 0, 0⟩

/-- A half-open stretch of input: `start` is the place of its first character, `stop` the place
right after its last one. -/
structure Span where
  start : Position
  stop : Position
  deriving DecidableEq, Repr, Inhabited

namespace Span

/-- The stretch that a token without a place in the input covers. -/
def unplaced : Span := ⟨.origin, .origin⟩

/-- How many bytes the stretch covers; one whose end lies before its start covers none. -/
def byteLength (s : Span) : Nat :=
  s.stop.byteOffset.toNat - s.start.byteOffset.toNat

end Span

end Lookahead
