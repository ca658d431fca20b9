import Lookahead.Position

/-!
# Tokens

A `Token` carries the code of its kind, the channel it is routed to, the text it covers with its
span, and, once a stream has kept it, its slot in that stream's buffer. A few codes are reserved:
`Kind.absent` is carried by no token, `Kind.endOfStream` by the token that ends a source.
-/

namespace Lookahead

/-- The code of a kind of token, as a lexer numbers them. -/
abbrev Kind := UInt32

namespace Kind

/-- The kind of no token: what a lookahead reports where there is nothing to see. -/
def absent : Kind := 0

/-- The first code that a lexer may give a meaning of its own. -/
def firstFree : Kind := 4

/-- The kind of the token that ends a source. -/
def endOfStream : Kind := 4294967295

end Kind

/-- The number of a channel. A parser sees the tokens of one channel only. -/
abbrev Channel := UInt32

namespace Channel

/-- The channel parsers listen on unless told otherwise. -/
def standard : Channel := 0

/-- The customary channel for blanks and comments, on which no stream listens by default. -/
def hidden : Channel := 99

end Channel

/-- A token. `index` is the slot of the stream's buffer that holds it, unset until a stream has
kept it. -/
structure Token where
  kind : Kind
  channel : Channel
  index : Option Nat
  text : String
  span : Span
  deriving DecidableEq, Repr, Inhabited

namespace Token

/-- A fresh token on the standard channel. -/
def plain (kind : Kind) (text : String) (span : Span) : Token :=
  { kind, channel := .standard, index := none, text, span }

/-- A fresh token on a channel of its own. -/
def onChannel (kind : Kind) (channel : Channel) (text : String) (span : Span) : Token :=
  { plain kind text span with channel }

/-- The customary token that ends a source. -/
def endOfStream (span : Span) : Token :=
  plain .endOfStream "<EOF>" span

/-- Whether the token ends its source. The kind alone decides. -/
def isEnd (t : Token) : Bool := t.kind == .endOfStream

/-- The same token, routed to another channel. -/
def moveTo (t : Token) (channel : Channel) : Token := { t with channel }

/-- The same token, held in slot `i` of a buffer, whatever index it had before. -/
def stamp (t : Token) (i : Nat) : Token := { t with index := some i }

end Token

end Lookahead
