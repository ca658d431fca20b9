/-!
# String literals

What stands between the quotes of a JSON string, piece by piece: characters that stand for
themselves, two-character escapes, and code units of UTF-16 in hexadecimal. A literal keeps its
spelling; `text?` reads it, which fails if its code units do not pair up, and `ofText` spells a
text with as few escapes as JSON allows.
-/

namespace Lookahead.Json

/-- A piece of a string literal. -/
inductive Piece
  /-- A character that stands for itself. -/
  | plain (c : Char)
  /-- A character spelled by a backslash and a letter or mark. -/
  | escaped (c : Char)
  /-- A code unit of UTF-16, spelled by a backslash, the letter u and four digits. -/
  | unit (code : Nat)
  deriving DecidableEq, Repr

/-- The pieces between the quotes. -/
abbrev Literal := List Piece

/-! ## Escapes -/

/-- The character that a backslash and a letter or mark stand for. -/
def escapeMeaning? : Char → Option Char
  | '"' => some '"'
  | '\\' => some '\\'
  | '/' => some '/'
  | 'b' => some '\x08'
  | 'f' => some '\x0c'
  | 'n' => some '\n'
  | 'r' => some '\r'
  | 't' => some '\t'
  | _ => none

/-- The letter or mark that stands for a character after a backslash. -/
def escapeMark : Char → Char
  | '\x08' => 'b'
  | '\x0c' => 'f'
  | '\n' => 'n'
  | '\r' => 'r'
  | '\t' => 't'
  | c => c

/-- The value of a hexadecimal digit. -/
def hexValue? (c : Char) : Option Nat :=
  if '0' ≤ c ∧ c ≤ '9' then some (c.toNat - 48)
  else if 'a' ≤ c ∧ c ≤ 'f' then some (c.toNat - 87)
  else if 'A' ≤ c ∧ c ≤ 'F' then some (c.toNat - 55)
  else none

/-- The code unit that four hexadecimal digits spell. -/
def unitValue? (a b c d : Char) : Option Nat := do
  let a ← hexValue? a
  let b ← hexValue? b
  let c ← hexValue? c
  let d ← hexValue? d
  pure (((a * 16 + b) * 16 + c) * 16 + d)

/-- The four hexadecimal digits that spell a code unit. -/
def unitDigits (code : Nat) : List Char :=
  [code / 4096, code / 256, code / 16, code].map fun n => Nat.digitChar (n % 16)

/-- Characters that a literal may not hold as they are. -/
def isControl (c : Char) : Bool := c.toNat < 32

namespace Literal

/-! ## Spelling -/

/-- How a piece is spelled. -/
def spellPiece : Piece → List Char
  | .plain c => [c]
  | .escaped c => ['\\', escapeMark c]
  | .unit code => '\\' :: 'u' :: unitDigits code

/-- How the pieces are spelled, with the closing quote. -/
def spell (pieces : Literal) : List Char := pieces.flatMap spellPiece ++ ['"']

/-- Reads pieces up to and over the closing quote. -/
def scan? : List Char → Option (Literal × List Char)
  | [] => none
  | '"' :: rest => some ([], rest)
  | '\\' :: 'u' :: a :: b :: c :: d :: rest =>
    match unitValue? a b c d, scan? rest with
    | some code, some (pieces, rest) => some (.unit code :: pieces, rest)
    | _, _ => none
  | '\\' :: mark :: rest =>
    match escapeMeaning? mark, scan? rest with
    | some c, some (pieces, rest) => some (.escaped c :: pieces, rest)
    | _, _ => none
  | c :: rest =>
    if c = '\\' ∨ isControl c then none
    else
      match scan? rest with
      | some (pieces, rest) => some (.plain c :: pieces, rest)
      | none => none

/-- A literal takes at least its closing quote. -/
theorem length_of_scan? {cs : List Char} {r : Literal × List Char} (h : scan? cs = some r) :
    r.2.length < cs.length := by
  fun_induction scan? cs generalizing r with
  | case1 => cases h
  | case2 tail =>
    cases h
    simp
  | case3 a b c d tail code more after htail hcode ih =>
    cases h
    have := ih htail
    simp only [List.length_cons] at *
    omega
  | case4 => cases h
  | case5 mark tail _ c more after htail hmark ih =>
    cases h
    have := ih htail
    simp only [List.length_cons] at *
    omega
  | case6 => cases h
  | case7 => cases h
  | case8 c tail _ _ _ _ more after htail ih =>
    cases h
    have := ih htail
    simp only [List.length_cons] at *
    omega
  | case9 => cases h

/-! ## Meaning -/

/-- Whether a code unit is the first of a pair. -/
def isHigh (code : Nat) : Bool := 0xD800 ≤ code && code < 0xDC00

/-- Whether a code unit is the second of a pair. -/
def isLow (code : Nat) : Bool := 0xDC00 ≤ code && code < 0xE000

/-- The character that a pair of code units stands for. -/
def paired (high low : Nat) : Char :=
  Char.ofNat (0x10000 + (high - 0xD800) * 0x400 + (low - 0xDC00))

/-- The characters that the pieces stand for, if every code unit is a character or one of a
pair. -/
def chars? : Literal → Option (List Char)
  | [] => some []
  | .plain c :: rest => (chars? rest).map (c :: ·)
  | .escaped c :: rest => (chars? rest).map (c :: ·)
  | .unit high :: .unit low :: rest =>
    if isHigh high && isLow low then (chars? rest).map (paired high low :: ·)
    else if isHigh high || isLow high then none
    else (chars? (.unit low :: rest)).map (Char.ofNat high :: ·)
  | .unit code :: rest =>
    if isHigh code || isLow code then none
    else (chars? rest).map (Char.ofNat code :: ·)

/-- The text that the pieces stand for. -/
def text? (pieces : Literal) : Option String := (chars? pieces).map String.ofList

/-- The characters of a literal without escapes. -/
def plain? : Literal → Option (List Char)
  | [] => some []
  | .plain c :: rest => (plain? rest).map (c :: ·)
  | _ :: _ => none

/-- The piece that spells a character: it is escaped only if it has to be, by a letter if it has
one. -/
def pieceOf (c : Char) : Piece :=
  if c = '"' ∨ c = '\\' ∨ escapeMark c ≠ c then .escaped c
  else if isControl c then .unit c.toNat
  else .plain c

/-- The literal that spells a text. -/
def ofText (s : String) : Literal := s.toList.map pieceOf

end Literal

end Lookahead.Json
