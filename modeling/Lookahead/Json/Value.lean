import Lookahead.Json.Lexeme

/-!
# JSON values

A `Value` is the tree of a JSON document. `Value.lexemes` writes it down, and a `Machine` that
keeps the open arrays and objects on a stack reads it back, lexeme by lexeme: a document is a
sequence of lexemes that takes the machine from awaiting a value to having it, with nothing open.
The stack has no bound, so neither has the depth of a document.

`Value.ofText?` reads a text and `Value.toText` writes one without blanks.
-/

namespace Lookahead.Json

/-- A JSON value. Objects keep their members in order, repeated keys included. -/
inductive Value
  | null
  | bool (b : Bool)
  | number (literal : List Char)
  | string (pieces : Literal)
  | array (items : List Value)
  | object (members : List (Literal × Value))
  deriving Inhabited, Repr

/-! ## Writing -/

mutual

/-- The lexemes of a value. -/
def Value.lexemes : Value → List Lexeme
  | .null => [.null]
  | .bool b => [.bool b]
  | .number literal => [.number literal]
  | .string pieces => [.string pieces]
  | .array items => .openBracket :: itemLexemes items
  | .object members => .openBrace :: memberLexemes members

/-- The lexemes of the items of an array, with the closing bracket. -/
def itemLexemes : List Value → List Lexeme
  | [] => [.closeBracket]
  | v :: rest => v.lexemes ++ moreItemLexemes rest

/-- The lexemes of further items, with the closing bracket. -/
def moreItemLexemes : List Value → List Lexeme
  | [] => [.closeBracket]
  | v :: rest => .comma :: v.lexemes ++ moreItemLexemes rest

/-- The lexemes of the members of an object, with the closing brace. -/
def memberLexemes : List (Literal × Value) → List Lexeme
  | [] => [.closeBrace]
  | (key, v) :: rest => .string key :: .colon :: v.lexemes ++ moreMemberLexemes rest

/-- The lexemes of further members, with the closing brace. -/
def moreMemberLexemes : List (Literal × Value) → List Lexeme
  | [] => [.closeBrace]
  | (key, v) :: rest => .comma :: .string key :: .colon :: v.lexemes ++ moreMemberLexemes rest

end

/-- The text of a value, without blanks. -/
def Value.toText (v : Value) : String := String.ofList (v.lexemes.flatMap Lexeme.spell)

/-! ## Reading -/

/-- An array or object that is open around the value being read: what it holds so far, the last
first. -/
inductive Frame
  | array (done : List Value)
  | object (done : List (Literal × Value)) (key : Literal)

/-- What the machine awaits. -/
inductive Phase
  /-- A value. -/
  | value
  /-- A value, or the end of the array just opened. -/
  | firstItem
  /-- A key, or the end of the object just opened. -/
  | firstKey
  /-- A key of the object that holds these members. -/
  | key (done : List (Literal × Value))
  /-- The colon after a key. -/
  | colon (done : List (Literal × Value)) (key : Literal)
  /-- A comma or a closing mark after a value, or the end of the document. -/
  | after (v : Value)

/-- A reader of lexemes. -/
structure Machine where
  frames : List Frame
  phase : Phase

namespace Machine

/-- The machine that awaits a document. -/
def start : Machine := ⟨[], .value⟩

/-- Starts a value. -/
def enter? (frames : List Frame) : Lexeme → Option Machine
  | .null => some ⟨frames, .after .null⟩
  | .bool b => some ⟨frames, .after (.bool b)⟩
  | .number literal => some ⟨frames, .after (.number literal)⟩
  | .string pieces => some ⟨frames, .after (.string pieces)⟩
  | .openBracket => some ⟨frames, .firstItem⟩
  | .openBrace => some ⟨frames, .firstKey⟩
  | _ => none

/-- Goes on after a value. -/
def leave? (frames : List Frame) (v : Value) : Lexeme → Option Machine
  | .comma =>
    match frames with
    | .array done :: outer => some ⟨.array (v :: done) :: outer, .value⟩
    | .object done key :: outer => some ⟨outer, .key ((key, v) :: done)⟩
    | [] => none
  | .closeBracket =>
    match frames with
    | .array done :: outer => some ⟨outer, .after (.array (v :: done).reverse)⟩
    | _ => none
  | .closeBrace =>
    match frames with
    | .object done key :: outer => some ⟨outer, .after (.object ((key, v) :: done).reverse)⟩
    | _ => none
  | _ => none

/-- Reads one lexeme. -/
def step? (m : Machine) (l : Lexeme) : Option Machine :=
  match m.phase, l with
  | .value, l => enter? m.frames l
  | .firstItem, .closeBracket => some ⟨m.frames, .after (.array [])⟩
  | .firstItem, l => enter? (.array [] :: m.frames) l
  | .firstKey, .closeBrace => some ⟨m.frames, .after (.object [])⟩
  | .firstKey, .string key => some ⟨m.frames, .colon [] key⟩
  | .key done, .string key => some ⟨m.frames, .colon done key⟩
  | .colon done key, .colon => some ⟨.object done key :: m.frames, .value⟩
  | .after v, l => leave? m.frames v l
  | _, _ => none

/-- Reads lexemes. -/
def run? (m : Machine) : List Lexeme → Option Machine
  | [] => some m
  | l :: rest => (m.step? l).bind fun m => run? m rest

/-- The value that has been read, if nothing is open. -/
def result? : Machine → Option Value
  | ⟨[], .after v⟩ => some v
  | _ => none

end Machine

/-- The value that lexemes spell. -/
def Value.ofLexemes? (ls : List Lexeme) : Option Value :=
  (Machine.start.run? ls).bind Machine.result?

/-- The value that a text spells. -/
def Value.ofText? (s : String) : Option Value :=
  (Lexeme.scan? s.toList).bind Value.ofLexemes?

end Lookahead.Json
