import Lookahead.Token

/-!
# Sources of tokens

A stream takes its tokens from a source, one pull at a time. `TokenSource` says what that takes:
a pull gives a token or a `SourceError`, and leaves the source in its next state either way, so a
pull that failed can be tried again. What a source does after its end-of-stream token is its own
affair; a stream does not ask it again.
-/

namespace Lookahead

/-- Why a pull gave no token. -/
inductive SourceError
  /-- The source ran dry without an end-of-stream token, after that many tokens. -/
  | missingEnd (produced : Nat)
  /-- The lexer behind the source refused its input. -/
  | lexical (message : String)
  deriving DecidableEq, Repr

namespace SourceError

/-- The error as it is told to people. -/
def message : SourceError → String
  | missingEnd produced =>
    "token source ended after " ++ toString produced
      ++ " token(s) without producing an end-of-stream token"
  | lexical message => message

end SourceError

/-- The result of a pull. -/
abbrev Pulled := Except SourceError Token

/-- What can be pulled for tokens. -/
class TokenSource (σ : Type) where
  /-- One pull: its result, and the source after it. -/
  next : σ → Pulled × σ
  /-- What the input is called, if it has a name. -/
  name : σ → Option String

end Lookahead
