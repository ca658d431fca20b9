import Lookahead.Json.Literal
import Lookahead.Json.Number

/-!
# Lexemes

A JSON document is a sequence of marks, words, numbers and strings with blanks between them.
`Lexeme.scan?` takes a text apart into lexemes and drops the blanks; `Lexeme.spell` spells one.
-/

namespace Lookahead.Json

/-- A lexeme. Strings and numbers are kept as they are spelled. -/
inductive Lexeme
  | openBrace
  | closeBrace
  | openBracket
  | closeBracket
  | comma
  | colon
  | null
  | bool (b : Bool)
  | number (literal : List Char)
  | string (pieces : Literal)
  deriving DecidableEq, Repr

/-- The characters that separate lexemes and mean nothing. -/
def isBlank (c : Char) : Bool := c == ' ' || c == '\t' || c == '\n' || c == '\r'

namespace Lexeme

/-- How a lexeme is spelled. -/
def spell : Lexeme → List Char
  | openBrace => ['{']
  | closeBrace => ['}']
  | openBracket => ['[']
  | closeBracket => [']']
  | comma => [',']
  | colon => [':']
  | null => ['n', 'u', 'l', 'l']
  | bool true => ['t', 'r', 'u', 'e']
  | bool false => ['f', 'a', 'l', 's', 'e']
  | number literal => literal
  | string pieces => '"' :: Literal.spell pieces

/-- Takes a lexeme from the front of a text that starts with no blank. -/
def first? : List Char → Option (Lexeme × List Char)
  | '{' :: rest => some (openBrace, rest)
  | '}' :: rest => some (closeBrace, rest)
  | '[' :: rest => some (openBracket, rest)
  | ']' :: rest => some (closeBracket, rest)
  | ',' :: rest => some (comma, rest)
  | ':' :: rest => some (colon, rest)
  | 'n' :: 'u' :: 'l' :: 'l' :: rest => some (null, rest)
  | 't' :: 'r' :: 'u' :: 'e' :: rest => some (bool true, rest)
  | 'f' :: 'a' :: 'l' :: 's' :: 'e' :: rest => some (bool false, rest)
  | '"' :: rest => (Literal.scan? rest).map fun r => (string r.1, r.2)
  | cs => (Number.scan? cs).map fun r => (number r.1, r.2)

/-- A lexeme takes at least one character. -/
theorem length_of_first? {cs rest : List Char} {l : Lexeme} (h : first? cs = some (l, rest)) :
    rest.length < cs.length := by
  unfold first? at h
  split at h
  case h_10 =>
    obtain ⟨r, hr, e⟩ := Option.map_eq_some_iff.1 h
    cases e
    have := Literal.length_of_scan? hr
    simp only [List.length_cons]
    omega
  case h_11 =>
    obtain ⟨r, hr, e⟩ := Option.map_eq_some_iff.1 h
    cases e
    exact Number.length_of_scan? hr
  all_goals
    cases h
    simp only [List.length_cons]
    omega

/-- Takes a text apart into lexemes. -/
def scan? : List Char → Option (List Lexeme)
  | [] => some []
  | c :: cs =>
    if isBlank c then scan? cs
    else
      match h : first? (c :: cs) with
      | none => none
      | some (l, rest) =>
        have : rest.length < cs.length + 1 := length_of_first? h
        (scan? rest).map (l :: ·)
termination_by cs => cs.length

end Lexeme

end Lookahead.Json
