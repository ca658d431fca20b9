import Lookahead.Source

/-!
# Sources that follow a script

A `ScriptedSource` plays a list of results, failures among them, and then the same last result
for ever. It takes no notice of end-of-stream tokens: that is left to whoever pulls it.
-/

namespace Lookahead

/-- A script: the results still to come, and the one that follows them for ever. -/
structure ScriptedSource where
  pending : List Pulled
  tail : Pulled
  name : Option String

namespace ScriptedSource

/-- One pull. -/
def next (s : ScriptedSource) : Pulled × ScriptedSource :=
  match s.pending with
  | [] => (s.tail, s)
  | r :: rest => (r, { s with pending := rest })

instance : TokenSource ScriptedSource := ⟨next, name⟩

end ScriptedSource

end Lookahead
