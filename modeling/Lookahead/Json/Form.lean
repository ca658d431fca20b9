import Lookahead.Json.Field
import Lookahead.Policy

/-!
# The JSON form of tokens and policies

Tokens, spans and positions need all their fields, except that the index of a token may be null or
left out, which leaves it unset. Every field of a policy may be left out and has its standard value
then. Overrides are an object whose keys are decimal codes, spelled without escapes, and discards
an array of codes; an entry that names a kind anew acts as if it had been entered by hand.
-/

namespace Lookahead.Json

/-! ## Positions and spans -/

/-- The JSON form of a place in the input. -/
def ofPosition (p : Position) : Value :=
  .record
    [("line", .ofNat p.line.toNat), ("column", .ofNat p.column.toNat),
      ("byte_offset", .ofNat p.byteOffset.toNat)]

/-- Reads a place in the input. -/
def position? (v : Value) : Option Position := do
  match ← v.fields? ["line", "column", "byte_offset"] with
  | [some line, some column, some byteOffset] =>
    let line ← line.word?
    let column ← column.word?
    let byteOffset ← byteOffset.word?
    pure { line, column, byteOffset }
  | _ => none

/-- The JSON form of a stretch of input. -/
def ofSpan (s : Span) : Value :=
  .record [("start_inclusive", ofPosition s.start), ("end_exclusive", ofPosition s.stop)]

/-- Reads a stretch of input. -/
def span? (v : Value) : Option Span := do
  match ← v.fields? ["start_inclusive", "end_exclusive"] with
  | [some start, some stop] =>
    let start ← position? start
    let stop ← position? stop
    pure { start, stop }
  | _ => none

/-! ## Tokens -/

/-- The JSON form of a token. -/
def ofToken (t : Token) : Value :=
  .record
    [("token_type", .ofNat t.kind.toNat), ("channel", .ofNat t.channel.toNat),
      ("index", t.index.elim .null .ofNat), ("text", .ofString t.text), ("span", ofSpan t.span)]

/-- Reads a token. -/
def token? (v : Value) : Option Token := do
  match ← v.fields? ["token_type", "channel", "index", "text", "span"] with
  | [some kind, some channel, index, some text, some span] =>
    let kind ← kind.code?
    let channel ← channel.code?
    let index ← (index.getD .null).slot?
    let text ← text.text?
    let span ← span? span
    pure { kind, channel, index, text, span }
  | _ => none

/-! ## Policies -/

/-- The JSON form of overrides. -/
def ofOverrides (o : Overrides) : Value :=
  .object (o.entries.map fun e =>
    ((Number.ofNat e.1.toNat).map Piece.plain, .ofNat e.2.toNat))

/-- Reads the key of an override. -/
def overrideKey? (key : Literal) : Option Kind := do
  let cs ← key.plain?
  let n ← Number.canonical? cs
  if n < UInt32.size then pure (UInt32.ofNat n) else none

/-- Reads one override. -/
def override? (m : Literal × Value) : Option (Kind × Channel) := do
  let kind ← overrideKey? m.1
  let channel ← m.2.code?
  pure (kind, channel)

/-- Reads overrides. -/
def overrides? (v : Value) : Option Overrides := do
  let members ← v.members?
  let pairs ← members.mapM override?
  pure (.ofList pairs)

/-- The JSON form of discarded kinds. -/
def ofDiscards (d : Discards) : Value := .array (d.kinds.map fun kind => .ofNat kind.toNat)

/-- Reads discarded kinds. -/
def discards? (v : Value) : Option Discards := do
  let items ← v.items?
  let kinds ← items.mapM Value.code?
  pure (.ofList kinds)

/-- The JSON form of a policy. -/
def ofPolicy (p : Policy) : Value :=
  .record
    [("channel", .ofNat p.channel.toNat), ("discard_off_channel", .bool p.dropsOffChannel),
      ("channel_overrides", ofOverrides p.overrides),
      ("discarded_token_types", ofDiscards p.discards)]

/-- Reads a field that may be left out. -/
def fieldOr {α : Type} (standard : α) (read? : Value → Option α) : Option Value → Option α
  | none => some standard
  | some v => read? v

/-- Reads a policy. -/
def policy? (v : Value) : Option Policy := do
  match ← v.fields?
      ["channel", "discard_off_channel", "channel_overrides", "discarded_token_types"] with
  | [channel, drops, overrides, discards] =>
    let channel ← fieldOr Policy.standard.channel Value.code? channel
    let dropsOffChannel ← fieldOr Policy.standard.dropsOffChannel Value.bool? drops
    let overrides ← fieldOr Policy.standard.overrides overrides? overrides
    let discards ← fieldOr Policy.standard.discards discards? discards
    pure { channel, dropsOffChannel, overrides, discards }
  | _ => none

/-! ## Documents -/

/-- The JSON document of a token. -/
def encodeToken (t : Token) : String := (ofToken t).toText

/-- Reads the JSON document of a token. -/
def decodeToken? (s : String) : Option Token := (Value.ofText? s).bind token?

/-- The JSON document of a policy. -/
def encodePolicy (p : Policy) : String := (ofPolicy p).toText

/-- Reads the JSON document of a policy. -/
def decodePolicy? (s : String) : Option Policy := (Value.ofText? s).bind policy?

end Lookahead.Json
