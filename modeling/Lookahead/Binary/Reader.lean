/-!
# Reading bytes

A `Reader` takes a value from the front of a list of bytes and leaves the rest. Faults are found
in reading order: the first one met is the one reported.
-/

namespace Lookahead.Binary

/-- Why bytes could not be read. -/
inductive Fault
  /-- The bytes end in the middle of a value. -/
  | unexpectedEnd
  /-- The first byte of an integer announces a wider one than fits. -/
  | integerTooWide
  /-- A truth value is neither 0 nor 1. -/
  | notABool
  /-- The byte before an optional value is neither 0 nor 1. -/
  | notAnOption
  /-- The bytes of a text are not UTF-8. -/
  | notUtf8
  deriving DecidableEq, Repr

/-- Takes a value from the front of some bytes. -/
abbrev Reader := StateT (List UInt8) (Except Fault)

namespace Reader

/-- Takes one byte. -/
def byte : Reader UInt8 := do
  match ← get with
  | [] => throw .unexpectedEnd
  | b :: rest =>
    set rest
    pure b

/-- Takes `n` bytes. -/
def bytes (n : Nat) : Reader (List UInt8) := do
  let all ← get
  if n ≤ all.length then
    set (all.drop n)
    pure (all.take n)
  else throw .unexpectedEnd

/-- Takes `n` values, each of which changes a state. -/
def times {α : Type} (next : α → Reader α) : (n : Nat) → α → Reader α
  | 0, a => pure a
  | n + 1, a => do
    let b ← next a
    times next n b

/-- Reads the value at the front of some bytes, and counts the bytes it takes. The others are
left alone. -/
def decode {α : Type} (reader : Reader α) (input : List UInt8) : Except Fault (α × Nat) :=
  match reader.run input with
  | .ok (a, rest) => .ok (a, input.length - rest.length)
  | .error fault => .error fault

end Reader

end Lookahead.Binary
