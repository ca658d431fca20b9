import Lookahead.Stream.Cursor
import Lookahead.Stream.Range
import Lookahead.Token.Display

/-!
# Commands

Everything that can be asked of a stream or done to it, as data: `exec` carries out a `Command` and
gives an `Answer`. The commands that change the policy act on tokens pulled from then on; those
that are buffered stay as they are.
-/

namespace Lookahead

/-- A request to a stream. -/
inductive Command (σ : Type)
  /-- Moves past the current token. -/
  | consume
  /-- Asks for the kind of the `k`-th visible token. -/
  | peekKind (k : Int)
  /-- Asks for the `k`-th visible token. -/
  | lookahead (k : Int)
  /-- Asks for the token in a slot. -/
  | get (i : Nat)
  /-- Asks for the display form of the token in a slot. -/
  | display (i : Nat)
  /-- Remembers the cursor. -/
  | mark
  /-- Gives a marker back, which changes nothing as all tokens are kept. -/
  | release (marker : Nat)
  /-- Returns to a marker. -/
  | rewind (marker : Nat)
  /-- Returns to the last marker. -/
  | rewindToMark
  /-- Moves to the first visible token from a slot on. -/
  | seek (i : Nat)
  /-- Asks for the name of the source. -/
  | sourceName
  /-- Pulls all there is. -/
  | fill
  /-- Asks whether the visible tokens are used up. -/
  | isAtEnd
  /-- Asks for the tuned channel. -/
  | channel
  /-- Asks where a kind is rerouted to. -/
  | routeOf (kind : Kind)
  /-- Asks whether off-channel tokens are dropped. -/
  | dropsOffChannel
  /-- Asks whether a kind is discarded. -/
  | isDiscarded (kind : Kind)
  /-- Discards a kind from now on. -/
  | discard (kind : Kind)
  /-- Reroutes a kind from now on. -/
  | reroute (kind : Kind) (channel : Channel)
  /-- Drops off-channel tokens from now on, or keeps them. -/
  | dropOffChannel (drop : Bool)
  /-- Asks for all tokens. -/
  | tokens
  /-- Asks for the tokens of a range. -/
  | range (first last : Nat)
  /-- Asks for the tokens of a range with kinds in a set. -/
  | rangeInSet (first last : Nat) (kinds : KindSet)
  /-- Asks for the tokens of a range with kinds in a list. -/
  | rangeOfKinds (first last : Nat) (kinds : List Kind)
  /-- Asks for the tokens of a range of one kind. -/
  | rangeOfKind (first last : Nat) (kind : Kind)
  /-- Asks for the whole text. -/
  | text
  /-- Asks for the text of a range. -/
  | textRange (first last : Nat)
  /-- Asks for the text from one token to another. -/
  | textBetween (first last : Token)
  /-- Consumes the visible tokens that are left, and asks for their texts. -/
  | drain
  /-- Pulls the source behind the stream's back. -/
  | pullSource
  /-- Installs another source. -/
  | replace (source : σ)

/-- What a stream answers. -/
inductive Answer (σ : Type)
  | nothing
  | kind (kind : Kind)
  | channel (channel : Channel)
  | channel? (channel : Option Channel)
  | slot (i : Nat)
  | flag (b : Bool)
  | token? (token : Option Token)
  | tokens (tokens : List Token)
  | text (text : String)
  | text? (text : Option String)
  | texts (texts : List String)
  | source (source : σ)
  deriving DecidableEq

namespace Stream

variable {σ : Type}

/-! ## Policy and source -/

/-- Discards a kind from now on. It is an event only if the kind was not discarded before. -/
def discard (s : Stream σ) (kind : Kind) : Stream σ :=
  if s.policy.discards.contains kind then s
  else { s.note (.discarding kind) with policy := s.policy.discard kind }

/-- Reroutes a kind from now on. -/
def reroute (s : Stream σ) (kind : Kind) (channel : Channel) : Stream σ :=
  { s.note (.rerouting kind channel) with policy := s.policy.reroute kind channel }

/-- Drops off-channel tokens from now on, or keeps them. -/
def dropOffChannel (s : Stream σ) (drop : Bool) : Stream σ :=
  { s.note (.droppingOffChannel drop) with policy := s.policy.dropOffChannel drop }

/-- The stream over another source: it starts afresh, but keeps its policy and its journal. -/
def replaceSource (s : Stream σ) (source : σ) : Stream σ :=
  { start s.policy source with journal := (s.note (.replacing s.size)).journal }

variable [TokenSource σ]

/-- Pulls the source without the stream taking notice. -/
def pullSource : StreamM σ Token := do
  let s ← get
  let r := TokenSource.next s.source
  set { s with source := r.2 }
  match r.1 with
  | .ok t => pure t
  | .error e => throw (.failed e)

/-- Carries out a command. Each search within it may take up to `limit` pulls. -/
def exec (limit : Nat) : Command σ → StreamM σ (Answer σ)
  | .consume => do consume limit; pure .nothing
  | .peekKind k => do pure (.kind (← peekKind limit k))
  | .lookahead k => do pure (.token? (← lookahead limit k))
  | .get i => do pure (.token? (← get? limit i))
  | .display i => do pure (.text? ((← get? limit i).map Token.display))
  | .mark => do pure (.slot (← mark limit))
  | .release _ => pure .nothing
  | .rewind marker => do rewind limit marker; pure .nothing
  | .rewindToMark => do rewindToMark limit; pure .nothing
  | .seek i => do seek limit i; pure .nothing
  | .sourceName => do pure (.text? (TokenSource.name (← getThe (Stream σ)).source))
  | .fill => do fill limit; pure .nothing
  | .isAtEnd => do pure (.flag (← isAtEnd limit))
  | .channel => do pure (.channel (← getThe (Stream σ)).policy.channel)
  | .routeOf kind => do pure (.channel? ((← getThe (Stream σ)).policy.overrides.find? kind))
  | .dropsOffChannel => do pure (.flag (← getThe (Stream σ)).policy.dropsOffChannel)
  | .isDiscarded kind => do pure (.flag ((← getThe (Stream σ)).policy.discards.contains kind))
  | .discard kind => do modify (discard · kind); pure .nothing
  | .reroute kind channel => do modify (reroute · kind channel); pure .nothing
  | .dropOffChannel drop => do modify (dropOffChannel · drop); pure .nothing
  | .tokens => do pure (.tokens (← tokens limit))
  | .range first last => do pure (.tokens (← range limit first last))
  | .rangeInSet first last kinds => do pure (.tokens (← rangeInSet limit first last kinds))
  | .rangeOfKinds first last kinds => do pure (.tokens (← rangeOfKinds limit first last kinds))
  | .rangeOfKind first last kind => do pure (.tokens (← rangeOfKind limit first last kind))
  | .text => do pure (.text (← text limit))
  | .textRange first last => do pure (.text (← textRange limit first last))
  | .textBetween first last => do pure (.text (← textBetween limit first last))
  | .drain => do pure (.texts (← drain limit))
  | .pullSource => do pure (.token? (some (← pullSource)))
  | .replace source => do
    let s ← get
    set (s.replaceSource source)
    pure (.source s.source)

end Stream

end Lookahead
