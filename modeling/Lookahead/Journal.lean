import Lookahead.Policy
import Lookahead.Source

/-!
# Journals

A stream writes down every pull with what became of the token, every change of its policy and
every change of its source. Some of these events are told to people, as `Record`s of a level;
tokens that were kept and pulls that failed are not.
-/

namespace Lookahead

/-- Something that happened to a stream. -/
inductive Event
  /-- A token was pulled, and the policy in force judged it. -/
  | received (token : Token) (verdict : Verdict)
  /-- The end-of-stream token was pulled when that many tokens were buffered. -/
  | ended (token : Token) (buffered : Nat)
  /-- A pull failed. -/
  | failed (error : SourceError)
  /-- A kind that was not discarded before is from now on. -/
  | discarding (kind : Kind)
  /-- From now on off-channel tokens are dropped, or no longer are. -/
  | droppingOffChannel (drop : Bool)
  /-- A kind is rerouted from now on. -/
  | rerouting (kind : Kind) (channel : Channel)
  /-- Another source was installed, and that many buffered tokens were let go. -/
  | replacing (buffered : Nat)
  deriving DecidableEq, Repr

/-- How much a record matters: what the owner of the stream did, or what a pull did. -/
inductive Level
  | debug
  | trace
  deriving DecidableEq, Repr

/-- The name of a level. -/
def Level.label : Level → String
  | debug => "DEBUG"
  | trace => "TRACE"

/-- A line of the log. -/
structure Record where
  level : Level
  message : String
  deriving DecidableEq, Repr

/-- The line as it is written. -/
def Record.line (r : Record) : String := r.level.label ++ " " ++ r.message

namespace Event

/-- The log line of an event, if it has one. -/
def record? : Event → Option Record
  | received _ (.keep _) => none
  | received t .dropKind =>
    some ⟨.trace, "Dropped token of discarded type " ++ toString t.kind ++ "."⟩
  | received t (.dropOffChannel channel) =>
    some ⟨.trace, "Dropped off-channel token of type " ++ toString t.kind ++ " (channel "
      ++ toString channel ++ ")."⟩
  | ended _ buffered =>
    some ⟨.trace, "Token source reached end-of-stream after " ++ toString buffered
      ++ " buffered token(s)."⟩
  | failed _ => none
  | discarding kind =>
    some ⟨.debug, "Discarding token type " ++ toString kind ++ " from now on."⟩
  | droppingOffChannel drop =>
    some ⟨.debug, "Discard off-channel tokens: " ++ toString drop ++ "."⟩
  | rerouting kind channel =>
    some ⟨.debug, "Overriding channel of token type " ++ toString kind ++ " to "
      ++ toString channel ++ "."⟩
  | replacing buffered =>
    some ⟨.debug, "Replacing token source; dropping " ++ toString buffered
      ++ " buffered token(s)."⟩

end Event

end Lookahead
