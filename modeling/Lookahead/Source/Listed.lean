import Lookahead.Source

/-!
# Sources over a list

A `ListedSource` hands out the tokens of a list up to the first end-of-stream token and from then
on only that one; what follows it in the list is never looked at. If the list holds none, every
pull after the last token fails.
-/

namespace Lookahead

/-- A source over a list: the tokens still to come, the end-of-stream token once it has come, and
the number of other tokens handed out so far. -/
structure ListedSource where
  pending : List Token
  endToken : Option Token
  produced : Nat
  name : Option String
  deriving DecidableEq, Repr

namespace ListedSource

/-- The source that hands out the tokens of a list. -/
def ofList (tokens : List Token) : ListedSource :=
  { pending := tokens, endToken := none, produced := 0, name := none }

/-- The same source under a name. -/
def named (s : ListedSource) (name : String) : ListedSource := { s with name := some name }

/-- One pull. -/
def next (s : ListedSource) : Pulled × ListedSource :=
  match s.endToken, s.pending with
  | some t, _ => (.ok t, s)
  | none, [] => (.error (.missingEnd s.produced), s)
  | none, t :: rest =>
    if t.isEnd then (.ok t, { s with pending := rest, endToken := some t })
    else (.ok t, { s with pending := rest, produced := s.produced + 1 })

instance : TokenSource ListedSource := ⟨next, name⟩

end ListedSource

end Lookahead
