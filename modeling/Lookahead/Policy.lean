import Lookahead.Policy.Overrides
import Lookahead.Policy.Discards

/-!
# Fetch policies

A `Policy` says what a stream does with a token it has taken from its source: first the token is
moved to the channel its kind is rerouted to, then it is dropped if its kind is discarded, then
it is dropped if off-channel tokens are dropped and it is on another channel than the one the
stream is tuned to. `judge` is that rule, its result a `Verdict`.
-/

namespace Lookahead

/-- How a stream treats the tokens it takes. `channel` is the one that it is tuned to. -/
structure Policy where
  channel : Channel
  dropsOffChannel : Bool
  overrides : Overrides
  discards : Discards
  deriving DecidableEq, Inhabited

/-- What becomes of a token: it is kept, on a channel, or dropped for one of two reasons. -/
inductive Verdict
  | keep (channel : Channel)
  | dropKind
  | dropOffChannel (channel : Channel)
  deriving DecidableEq, Repr

namespace Policy

/-- Tuned to the standard channel, everything is kept where it is. -/
def standard : Policy :=
  { channel := .standard, dropsOffChannel := false, overrides := .empty, discards := .empty }

/-- The policy tuned to a channel. -/
def tune (p : Policy) (channel : Channel) : Policy := { p with channel }

/-- The policy that drops off-channel tokens, or keeps them. -/
def dropOffChannel (p : Policy) (drop : Bool) : Policy := { p with dropsOffChannel := drop }

/-- The policy that discards one more kind. -/
def discard (p : Policy) (kind : Kind) : Policy := { p with discards := p.discards.insert kind }

/-- The policy that reroutes a kind to a channel. -/
def reroute (p : Policy) (kind : Kind) (channel : Channel) : Policy :=
  { p with overrides := p.overrides.insert kind channel }

/-- Whether two policies treat all tokens alike: the order of their entries does not matter. -/
def same (p q : Policy) : Bool :=
  p.channel == q.channel && p.dropsOffChannel == q.dropsOffChannel
    && p.overrides.same q.overrides && p.discards.same q.discards

/-- The channel that a token is on after rerouting. -/
def route (p : Policy) (t : Token) : Channel := (p.overrides.find? t.kind).getD t.channel

/-- What becomes of a token that does not end the source. -/
def judge (p : Policy) (t : Token) : Verdict :=
  if p.discards.contains t.kind then .dropKind
  else if p.dropsOffChannel && p.route t != p.channel then .dropOffChannel (p.route t)
  else .keep (p.route t)

end Policy

end Lookahead
