import Lookahead.Json.Value

/-!
# Fields of records

A record is written as an object with its fields by name, in any order, or as an array of its
fields in order. `Value.fields?` reads either way: a field that is not there is absent, members
with other names are ignored whatever they hold, and a field that is there twice or an array
longer than the record is refused. What an absent field means is left to the record.
-/

namespace Lookahead.Json

namespace Value

/-! ## Plain values -/

/-- A truth value. -/
def bool? : Value → Option Bool
  | bool b => some b
  | _ => none

/-- A text. -/
def text? : Value → Option String
  | string pieces => pieces.text?
  | _ => none

/-- A number that is spelled as a natural number below a bound. -/
def natural? (bound : Nat) : Value → Option Nat
  | number literal => (Number.natural? literal).filter (· < bound)
  | _ => none

/-- A 32-bit code. -/
def code? (v : Value) : Option UInt32 := (v.natural? UInt32.size).map UInt32.ofNat

/-- A 64-bit word. -/
def word? (v : Value) : Option UInt64 := (v.natural? UInt64.size).map UInt64.ofNat

/-- The slot of a buffer, or null. -/
def slot? : Value → Option (Option Nat)
  | null => some none
  | v => (v.natural? UInt64.size).map some

/-- The items of an array. -/
def items? : Value → Option (List Value)
  | array items => some items
  | _ => none

/-- The members of an object. -/
def members? : Value → Option (List (Literal × Value))
  | object members => some members
  | _ => none

/-- The value that spells a natural number. -/
def ofNat (n : Nat) : Value := number (Number.ofNat n)

/-- The value that spells a text. -/
def ofString (s : String) : Value := string (Literal.ofText s)

/-! ## Records -/

/-- The object with these members. -/
def record (members : List (String × Value)) : Value :=
  object (members.map fun m => (Literal.ofText m.1, m.2))

/-- Members with their keys read. -/
def named? (members : List (Literal × Value)) : Option (List (String × Value)) :=
  members.mapM fun m => m.1.text?.map fun key => (key, m.2)

/-- The member of a name: absent, there once, or refused. -/
def member? (members : List (String × Value)) (name : String) : Option (Option Value) :=
  match members.filter fun m => m.1 == name with
  | [] => some none
  | [m] => some (some m.2)
  | _ => none

/-- The fields of a record, in the order of their names. -/
def fields? (names : List String) : Value → Option (List (Option Value))
  | array items =>
    if items.length ≤ names.length then
      some (items.map some ++ List.replicate (names.length - items.length) none)
    else none
  | object members => (named? members).bind fun members => names.mapM (member? members)
  | _ => none

end Value

end Lookahead.Json
