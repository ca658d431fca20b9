import Lookahead.Token

/-!
# The display form of a token

One line for reading by people: `[@3,'if',<7>,channel=2,5:0]` is the token in slot 3 with text
`if`, kind 7, channel 2, that starts in the first column of the fifth line. Line breaks and tabs
of the text are spelled as escapes, so the form never spans lines; quotes are left alone.
-/

namespace Lookahead.Token

/-- How a character of a token's text is shown. -/
def shownChar : Char → List Char
  | '\n' => ['\\', 'n']
  | '\r' => ['\\', 'r']
  | '\t' => ['\\', 't']
  | c => [c]

/-- The text of a token as it is shown. -/
def shownText (text : String) : List Char :=
  text.toList.flatMap shownChar

/-- The decimal digits of a number. -/
def digits (n : Nat) : List Char := Nat.toDigits 10 n

/-- The slot of a token, `-1` while it has none. -/
def shownIndex : Option Nat → List Char
  | some i => digits i
  | none => ['-', '1']

/-- The kind of a token; the end of the stream is shown by name. -/
def shownKind (kind : Kind) : List Char :=
  if kind = .endOfStream then "<EOF>".toList else '<' :: digits kind.toNat ++ ['>']

/-- The channel of a token, left out for the standard one. -/
def shownChannel (channel : Channel) : List Char :=
  if channel = .standard then [] else ",channel=".toList ++ digits channel.toNat

/-- Where a token starts: lines are counted from one, columns from zero. -/
def shownStart (start : Position) : List Char :=
  digits (start.line.toNat + 1) ++ ':' :: digits start.column.toNat

/-- The characters of the display form. -/
def displayChars (t : Token) : List Char :=
  "[@".toList ++ shownIndex t.index ++ ",'".toList ++ shownText t.text ++ "',".toList
    ++ shownKind t.kind ++ shownChannel t.channel ++ ',' :: shownStart t.span.start ++ [']']

/-- The display form. -/
def display (t : Token) : String := String.ofList t.displayChars

end Lookahead.Token
