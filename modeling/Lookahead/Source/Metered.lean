import Lookahead.Source.Listed
import Lookahead.Source.Scripted

/-!
# Counted pulls, and sources of either kind

`Metered` counts the pulls of a source, failing ones included. `Source` is a listed or a scripted
source, so that a stream can be handed one and later the other.
-/

namespace Lookahead

/-- A source and the number of pulls it has answered. -/
structure Metered (σ : Type) where
  source : σ
  pulls : Nat

namespace Metered

/-- A source that has not been pulled yet. -/
def fresh {σ : Type} (source : σ) : Metered σ := ⟨source, 0⟩

/-- One pull, counted whatever its result. -/
def next {σ : Type} [TokenSource σ] (m : Metered σ) : Pulled × Metered σ :=
  let r := TokenSource.next m.source
  (r.1, ⟨r.2, m.pulls + 1⟩)

instance {σ : Type} [TokenSource σ] : TokenSource (Metered σ) :=
  ⟨next, fun m => TokenSource.name m.source⟩

theorem next_eq {σ : Type} [TokenSource σ] {m : Metered σ} {result : Pulled} {rest : σ}
    (h : TokenSource.next m.source = (result, rest)) :
    TokenSource.next m = (result, ⟨rest, m.pulls + 1⟩) := by
  show Metered.next m = _
  rw [Metered.next, h]

/-- A pull of a metered source is one of the source in it. -/
theorem next_inv {σ : Type} [TokenSource σ] {m rest : Metered σ} {result : Pulled}
    (h : TokenSource.next m = (result, rest)) :
    (TokenSource.next m.source).1 = result ∧
      rest = ⟨(TokenSource.next m.source).2, m.pulls + 1⟩ := by
  cases h
  exact ⟨rfl, rfl⟩

end Metered

/-- A source of one of the two kinds. -/
inductive Source
  | listed (source : ListedSource)
  | scripted (source : ScriptedSource)

namespace Source

/-- One pull. -/
def next : Source → Pulled × Source
  | listed s => let r := s.next; (r.1, listed r.2)
  | scripted s => let r := s.next; (r.1, scripted r.2)

/-- What the input is called. -/
def name : Source → Option String
  | listed s => s.name
  | scripted s => s.name

/-- How many tokens other than the end-of-stream token a listed source has handed out. Scripted
sources do not keep that count. -/
def produced? : Source → Option Nat
  | listed s => some s.produced
  | scripted _ => none

instance : TokenSource Source := ⟨next, name⟩

end Source

end Lookahead
