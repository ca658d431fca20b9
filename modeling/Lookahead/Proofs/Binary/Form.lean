import Mathlib.Data.Fintype.Card
import Mathlib.Data.UInt
import Lookahead.Binary.Form
import Lookahead.Proofs.Binary.Integer

/-!
# Tokens and policies survive being written as bytes

What is written of a record is read back, field by field, and the reader knows where it ends: it
leaves what follows alone and refuses a form that is cut off (`decode_encode_append`). Texts are
counted in bytes. Overrides and discards are counted by entries, of which there are no more than
kinds, and keep their order.
-/

namespace Lookahead.Binary

/-! ## Parts -/

theorem reads_bool (b : Bool) : Reads readBool (encodeBool b) b := by
  cases b with
  | false => exact (reads_byte 0).bind (reads_pure false)
  | true => exact (reads_byte 1).bind (reads_pure true)

theorem reads_option {α : Type} {read : Reader α} {encode : α → List UInt8} {a : Option α}
    (some_ : ∀ v, a = some v → Reads read (encode v) v) :
    Reads (readOption read) (encodeOption encode a) a := by
  cases a with
  | none => exact (reads_byte 0).bind (reads_pure none)
  | some v => exact (reads_byte 1).bind ((some_ v rfl).map some)

theorem fromUTF8?_bytes (s : String) :
    String.fromUTF8? ⟨s.toUTF8.data.toList.toArray⟩ = some s := by
  have valid : s.toUTF8.IsValidUTF8 := s.isValidUTF8
  rw [Array.toArray_toList, String.fromUTF8?, dif_pos valid]
  rfl

/-- A text is read back if the count of its bytes is a 64-bit word. -/
theorem reads_text {s : String} (fits : s.utf8ByteSize < UInt64.size) :
    Reads readText (encodeText s) s := by
  have counted : s.toUTF8.data.toList.length < UInt64.size := fits
  refine (reads_count counted).bind ?_
  refine (reads_bytes s.toUTF8.data.toList).bind_nil ?_
  rw [fromUTF8?_bytes]
  exact reads_pure s

/-! ## Records -/

theorem reads_position (p : Position) : Reads readPosition (encodePosition p) p := by
  rw [encodePosition, List.append_assoc]
  refine (reads_word p.line).bind ?_
  refine (reads_word p.column).bind ?_
  exact (reads_word p.byteOffset).map (Position.mk p.line p.column)

theorem reads_span (s : Span) : Reads readSpan (encodeSpan s) s :=
  (reads_position s.start).bind ((reads_position s.stop).map (Span.mk s.start))

/-- A token is read back if its index and the count of its text's bytes are 64-bit words. -/
theorem reads_token {t : Token} (index : ∀ i, t.index = some i → i < UInt64.size)
    (text : t.text.utf8ByteSize < UInt64.size) : Reads readToken (encodeToken t) t := by
  simp only [encodeToken, List.append_assoc]
  refine (reads_code t.kind).bind ?_
  refine (reads_code t.channel).bind ?_
  refine (reads_option fun i hi => reads_count (index i hi)).bind ?_
  refine (reads_text text).bind ?_
  exact (reads_span t.span).map (Token.mk t.kind t.channel t.index t.text)

/-! ## Policies -/

/-- There are no more entries than kinds. -/
theorem length_lt_of_nodup {kinds : List Kind} (nodup : kinds.Nodup) :
    kinds.length < UInt64.size := by
  have distinct : (kinds.map UInt32.toFin).Nodup :=
    nodup.map fun _ _ same => UInt32.toFin_inj.1 same
  have most : (kinds.map UInt32.toFin).length ≤ UInt32.size := by
    have card := distinct.length_le_card
    rwa [Fintype.card_fin] at card
  rw [List.length_map] at most
  exact Nat.lt_of_le_of_lt most (by decide)

/-- Overrides are read back in their order. -/
theorem reads_overrides (o : Overrides) : Reads readOverrides (encodeOverrides o) o := by
  have counted : o.entries.length < UInt64.size := by
    have kinds := length_lt_of_nodup o.nodup
    rwa [List.length_map] at kinds
  have entry (o : Overrides) (e : Kind × Channel) :
      Reads (readCode >>= fun kind => readCode >>= fun channel => pure (o.insert kind channel))
        (encodeCode e.1 ++ encodeCode e.2) (o.insert e.1 e.2) :=
    (reads_code e.1).bind ((reads_code e.2).map (o.insert e.1))
  have entries := reads_times entry o.entries .empty
  rw [← Overrides.ofList, o.ofList_entries] at entries
  exact (reads_count counted).bind entries

/-- Discards are read back in their order. -/
theorem reads_discards (d : Discards) : Reads readDiscards (encodeDiscards d) d := by
  have entry (d : Discards) (kind : Kind) :
      Reads (readCode >>= fun kind => pure (d.insert kind)) (encodeCode kind) (d.insert kind) :=
    (reads_code kind).map d.insert
  have kinds := reads_times entry d.kinds .empty
  rw [← Discards.ofList, d.ofList_kinds] at kinds
  exact (reads_count (length_lt_of_nodup d.nodup)).bind kinds

theorem reads_policy (p : Policy) : Reads readPolicy (encodePolicy p) p := by
  simp only [encodePolicy, List.append_assoc]
  refine (reads_code p.channel).bind ?_
  refine (reads_bool p.dropsOffChannel).bind ?_
  refine (reads_overrides p.overrides).bind ?_
  exact (reads_discards p.discards).map (Policy.mk p.channel p.dropsOffChannel p.overrides)

/-! ## Bytes -/

/-- A token with an index and a text length that are 64-bit words, and any policy, are read back
from the bytes written of them, entries in their order, whatever bytes follow, and the count of
bytes taken is that of the bytes written. A form that is cut off is refused, as its end is
missed. -/
theorem decode_encode_append {t : Token} (index : ∀ i, t.index = some i → i < UInt64.size)
    (text : t.text.utf8ByteSize < UInt64.size) (p : Policy) :
    ((∀ rest, Reader.decode readToken (encodeToken t ++ rest) = .ok (t, (encodeToken t).length)) ∧
      ∀ front, front <+: encodeToken t → front ≠ encodeToken t →
        Reader.decode readToken front = .error .unexpectedEnd) ∧
    (∀ rest, Reader.decode readPolicy (encodePolicy p ++ rest) =
        .ok (p, (encodePolicy p).length)) ∧
      ∀ front, front <+: encodePolicy p → front ≠ encodePolicy p →
        Reader.decode readPolicy front = .error .unexpectedEnd := by
  have token := reads_token index text
  have policy := reads_policy p
  exact ⟨⟨token.decode_append, fun _ => token.decode_cut⟩, policy.decode_append,
    fun _ => policy.decode_cut⟩

/-- Integers next to the bounds of every width and a text whose characters take one to four bytes,
followed by bytes that would go on, or cut off within the index. -/
theorem decode_encode_append_widths :
    let t : Token :=
      { kind := 250, channel := 65536, index := some 18446744073709551615, text := "aé€😀"
        span := ⟨⟨251, 65535, 4294967295⟩, ⟨4294967296, 0, 1⟩⟩ }
    let p := ((Policy.standard.reroute 251 1).reroute 4 65535).discard 4294967295
    (∀ i, t.index = some i → i < UInt64.size) ∧ t.text.utf8ByteSize < UInt64.size ∧
      [250, 252, 0, 0, 1, 0, 1, 253, 255] <+: encodeToken t ∧
      Reader.decode readToken (encodeToken t ++ [255, 0]) = .ok (t, (encodeToken t).length) ∧
      Reader.decode readToken [250, 252, 0, 0, 1, 0, 1, 253, 255] = .error .unexpectedEnd ∧
      Reader.decode readPolicy (encodePolicy p ++ [1]) = .ok (p, (encodePolicy p).length) := by
  intro t p
  have index : ∀ i, t.index = some i → i < UInt64.size := by
    intro i hi
    cases hi
    decide
  have text : t.text.utf8ByteSize < UInt64.size := by decide +kernel
  have begins : [250, 252, 0, 0, 1, 0, 1, 253, 255] <+: encodeToken t := by decide +kernel
  have proper : [250, 252, 0, 0, 1, 0, 1, 253, 255] ≠ encodeToken t := by decide +kernel
  have token := (decode_encode_append index text p).1
  have policy := (decode_encode_append index text p).2
  exact ⟨index, text, begins, token.1 _, token.2 _ begins proper, policy.1 _⟩

end Lookahead.Binary
