import Lookahead.Binary.Integer
import Lookahead.Policy

/-!
# The binary form of tokens and policies

The fields of a record follow each other without names. A truth value is a byte, an optional value
is preceded by a byte that tells whether it is there, a text is its length in bytes followed by its
UTF-8 form, and a table or a set is its size followed by its entries in order. An entry that names
a kind anew acts as if it had been entered by hand.
-/

namespace Lookahead.Binary

/-! ## Parts -/

/-- Writes a truth value. -/
def encodeBool (b : Bool) : List UInt8 := [if b then 1 else 0]

/-- Reads a truth value. -/
def readBool : Reader Bool := do
  match ← Reader.byte with
  | 0 => pure false
  | 1 => pure true
  | _ => throw .notABool

/-- Writes an optional value. -/
def encodeOption {α : Type} (encode : α → List UInt8) : Option α → List UInt8
  | none => [0]
  | some a => 1 :: encode a

/-- Reads an optional value. -/
def readOption {α : Type} (read : Reader α) : Reader (Option α) := do
  match ← Reader.byte with
  | 0 => pure none
  | 1 => do
    let a ← read
    pure (some a)
  | _ => throw .notAnOption

/-- Writes a text. -/
def encodeText (s : String) : List UInt8 :=
  let bytes := s.toUTF8.data.toList
  Integer.encode bytes.length ++ bytes

/-- Reads a text. -/
def readText : Reader String := do
  let n ← readCount
  let bytes ← Reader.bytes n
  match String.fromUTF8? ⟨bytes.toArray⟩ with
  | some s => pure s
  | none => throw .notUtf8

/-! ## Records -/

/-- Writes a place in the input. -/
def encodePosition (p : Position) : List UInt8 :=
  encodeWord p.line ++ encodeWord p.column ++ encodeWord p.byteOffset

/-- Reads a place in the input. -/
def readPosition : Reader Position := do
  let line ← readWord
  let column ← readWord
  let byteOffset ← readWord
  pure { line, column, byteOffset }

/-- Writes a stretch of input. -/
def encodeSpan (s : Span) : List UInt8 := encodePosition s.start ++ encodePosition s.stop

/-- Reads a stretch of input. -/
def readSpan : Reader Span := do
  let start ← readPosition
  let stop ← readPosition
  pure { start, stop }

/-- Writes a token. -/
def encodeToken (t : Token) : List UInt8 :=
  encodeCode t.kind ++ encodeCode t.channel ++ encodeOption Integer.encode t.index
    ++ encodeText t.text ++ encodeSpan t.span

/-- Reads a token. -/
def readToken : Reader Token := do
  let kind ← readCode
  let channel ← readCode
  let index ← readOption readCount
  let text ← readText
  let span ← readSpan
  pure { kind, channel, index, text, span }

/-- Writes a table of overrides. -/
def encodeOverrides (o : Overrides) : List UInt8 :=
  Integer.encode o.entries.length
    ++ o.entries.flatMap fun e => encodeCode e.1 ++ encodeCode e.2

/-- Reads a table of overrides, entering one pair after the other. -/
def readOverrides : Reader Overrides := do
  let n ← readCount
  Reader.times
    (fun o => do
      let kind ← readCode
      let channel ← readCode
      pure (o.insert kind channel))
    n .empty

/-- Writes the discarded kinds. -/
def encodeDiscards (d : Discards) : List UInt8 :=
  Integer.encode d.kinds.length ++ d.kinds.flatMap encodeCode

/-- Reads discarded kinds, entering one after the other. -/
def readDiscards : Reader Discards := do
  let n ← readCount
  Reader.times
    (fun d => do
      let kind ← readCode
      pure (d.insert kind))
    n .empty

/-- Writes a policy. -/
def encodePolicy (p : Policy) : List UInt8 :=
  encodeCode p.channel ++ encodeBool p.dropsOffChannel ++ encodeOverrides p.overrides
    ++ encodeDiscards p.discards

/-- Reads a policy. -/
def readPolicy : Reader Policy := do
  let channel ← readCode
  let dropsOffChannel ← readBool
  let overrides ← readOverrides
  let discards ← readDiscards
  pure { channel, dropsOffChannel, overrides, discards }

end Lookahead.Binary
