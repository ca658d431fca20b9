import Lookahead.Binary.Reader

/-!
# Integers of variable width

An integer up to 250 is a byte. A larger one is a byte that tells its width, 251 for two bytes, 252
for four and 253 for eight, followed by so many bytes, the least significant first. The writer
takes the smallest width that fits; the reader also accepts a wider one than needed, but not one
beyond the widest that the integer's type allows.
-/

namespace Lookahead.Binary

namespace Integer

/-- The `width` lowest bytes of a number, the least significant first. -/
def lowBytes : (width n : Nat) → List UInt8
  | 0, _ => []
  | width + 1, n => UInt8.ofNat n :: lowBytes width (n / 256)

/-- The number that bytes spell, the least significant first. -/
def ofLowBytes : List UInt8 → Nat
  | [] => 0
  | b :: rest => b.toNat + 256 * ofLowBytes rest

/-- The byte that tells that two bytes follow. -/
def twoBytes : UInt8 := 251

/-- The byte that tells that four bytes follow. -/
def fourBytes : UInt8 := 252

/-- The byte that tells that eight bytes follow. -/
def eightBytes : UInt8 := 253

/-- Writes a number below `2 ^ 64`. -/
def encode (n : Nat) : List UInt8 :=
  if n < 251 then [UInt8.ofNat n]
  else if n < 65536 then twoBytes :: lowBytes 2 n
  else if n < 4294967296 then fourBytes :: lowBytes 4 n
  else eightBytes :: lowBytes 8 n

/-- How many bytes follow the first byte of an integer of at most `widest` bytes, none if it is
the integer itself. -/
def following (widest : Nat) (b : UInt8) : Except Fault Nat :=
  let width := if b < twoBytes then 0 else if b = twoBytes then 2 else if b = fourBytes then 4
    else if b = eightBytes then 8 else 16
  if width ≤ widest then .ok width else .error .integerTooWide

/-- Reads an integer of at most `widest` bytes. -/
def read (widest : Nat) : Reader Nat := do
  let b ← Reader.byte
  match ← (following widest b : Except Fault Nat) with
  | 0 => pure b.toNat
  | width => do
    let low ← Reader.bytes width
    pure (ofLowBytes low)

end Integer

/-! ## The types of integers -/

/-- Writes a 32-bit code. -/
def encodeCode (n : UInt32) : List UInt8 := Integer.encode n.toNat

/-- Reads a 32-bit code. -/
def readCode : Reader UInt32 := do
  let n ← Integer.read 4
  pure (UInt32.ofNat n)

/-- Writes a 64-bit word. -/
def encodeWord (n : UInt64) : List UInt8 := Integer.encode n.toNat

/-- Reads a 64-bit word. -/
def readWord : Reader UInt64 := do
  let n ← Integer.read 8
  pure (UInt64.ofNat n)

/-- Reads the length of a collection or text, or a slot of a buffer. -/
def readCount : Reader Nat := Integer.read 8

end Lookahead.Binary
