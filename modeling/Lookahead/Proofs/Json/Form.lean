import Mathlib.Data.List.Nodup
import Lookahead.Json.Form
import Lookahead.Proofs.Json.Value

/-!
# Tokens and policies survive being written as JSON

What is read from the form of a record is what was written (`fields?_record`), and so are numbers,
texts, overrides and discards, the last two in their order. All forms are valid values, so they are
read back from their texts as well (`decode_encode`).
-/

namespace Lookahead.Json

namespace Value

/-! ## Plain values -/

theorem natural?_ofNat {n bound : Nat} (h : n < bound) : (ofNat n).natural? bound = some n := by
  rw [ofNat, natural?, Number.natural?_ofNat, Option.filter_some, if_pos (decide_eq_true h)]

theorem code?_ofNat (code : UInt32) : (ofNat code.toNat).code? = some code := by
  rw [code?, natural?_ofNat code.toNat_lt, Option.map_some, UInt32.ofNat_toNat]

theorem word?_ofNat (word : UInt64) : (ofNat word.toNat).word? = some word := by
  rw [word?, natural?_ofNat word.toNat_lt, Option.map_some, UInt64.ofNat_toNat]

theorem slot?_elim {index : Option Nat} (h : ∀ i, index = some i → i < UInt64.size) :
    (index.elim null ofNat).slot? = some index := by
  cases index with
  | none => rfl
  | some i =>
    show ((ofNat i).natural? UInt64.size).map some = _
    rw [natural?_ofNat (h i rfl), Option.map_some]

theorem text?_ofString (s : String) : (ofString s).text? = some s := Literal.text?_ofText s

theorem valid_ofNat (n : Nat) : (ofNat n).Valid := valid_number (Number.valid_ofNat n)

theorem valid_ofString (s : String) : (ofString s).Valid := valid_string (Literal.valid_ofText s)

theorem valid_null : null.Valid := by
  intro l hl
  rw [lexemes, List.mem_singleton] at hl
  subst hl
  trivial

theorem valid_bool (b : Bool) : (bool b).Valid := by
  intro l hl
  rw [lexemes, List.mem_singleton] at hl
  subst hl
  trivial

/-! ## Records -/

theorem valid_record {members : List (String × Value)} (valid : ∀ m ∈ members, m.2.Valid) :
    (record members).Valid := by
  apply valid_object
  intro m hm
  obtain ⟨n, hn, rfl⟩ := List.mem_map.1 hm
  exact ⟨Literal.valid_ofText n.1, valid n hn⟩

/-- Reading a list item by item, where it is known what every item is read as. -/
theorem mapM_eq_some {α β : Type} {read? : α → Option β} {value : α → β} {items : List α}
    (h : ∀ a ∈ items, read? a = some (value a)) : items.mapM read? = some (items.map value) := by
  induction items with
  | nil => rfl
  | cons a items ih =>
    rw [List.mapM_cons, h a List.mem_cons_self, ih fun b hb => h b (List.mem_cons_of_mem a hb)]
    rfl

theorem named?_map_ofText (members : List (String × Value)) :
    named? (members.map fun m => (Literal.ofText m.1, m.2)) = some members := by
  have read (m : String × Value) : (Literal.ofText m.1).text?.map (fun key => (key, m.2)) =
      some m := by
    rw [Literal.text?_ofText, Option.map_some]
  rw [named?, List.mapM_map]
  exact (mapM_eq_some fun m _ => read m).trans (congrArg some (List.map_id' members))

/-- A member whose name is taken once is found. -/
theorem member?_of_mem {members : List (String × Value)} (nodup : (members.map Prod.fst).Nodup)
    {m : String × Value} (hm : m ∈ members) : member? members m.1 = some (some m.2) := by
  have once : members.filter (fun n => n.1 == m.1) = [m] := by
    induction members with
    | nil => cases hm
    | cons n members ih =>
      rw [List.map_cons, List.nodup_cons] at nodup
      rcases List.mem_cons.1 hm with rfl | later
      · have others : ∀ n ∈ members, ¬(n.1 == m.1) = true := by
          intro n hn same
          exact nodup.1 (beq_iff_eq.1 same ▸ List.mem_map_of_mem hn)
        rw [List.filter_cons, if_pos (beq_self_eq_true _), List.filter_eq_nil_iff.2 others]
      · have other : ¬(n.1 == m.1) = true := by
          intro same
          exact nodup.1 (beq_iff_eq.1 same ▸ List.mem_map_of_mem later)
        rw [List.filter_cons, if_neg other, ih nodup.2 later]
  rw [member?, once]

/-- The fields of a record are those that were written, in order. -/
theorem fields?_record {members : List (String × Value)} {names : List String}
    (named : members.map Prod.fst = names) (nodup : names.Nodup) :
    (record members).fields? names = some (members.map fun m => some m.2) := by
  subst named
  rw [record, fields?, named?_map_ofText, Option.bind_some, List.mapM_map]
  exact mapM_eq_some fun m hm => member?_of_mem nodup hm

end Value

open Value

/-! ## Positions and spans -/

theorem position?_ofPosition (p : Position) : position? (ofPosition p) = some p := by
  rw [position?, ofPosition, fields?_record (by rfl) (by decide)]
  simp only [List.map_cons, List.map_nil, bind, Option.bind_some, word?_ofNat, pure]

theorem span?_ofSpan (s : Span) : span? (ofSpan s) = some s := by
  rw [span?, ofSpan, fields?_record (by rfl) (by decide)]
  simp only [List.map_cons, List.map_nil, bind, Option.bind_some, position?_ofPosition, pure]

theorem valid_ofPosition (p : Position) : (ofPosition p).Valid := by
  apply valid_record
  intro m hm
  simp only [List.mem_cons, List.not_mem_nil, or_false] at hm
  rcases hm with rfl | rfl | rfl
  · exact valid_ofNat _
  · exact valid_ofNat _
  · exact valid_ofNat _

theorem valid_ofSpan (s : Span) : (ofSpan s).Valid := by
  apply valid_record
  intro m hm
  simp only [List.mem_cons, List.not_mem_nil, or_false] at hm
  rcases hm with rfl | rfl
  · exact valid_ofPosition s.start
  · exact valid_ofPosition s.stop

/-! ## Tokens -/

/-- What is written of a token is read back, if its index is a 64-bit word. -/
theorem token?_ofToken {t : Token} (index : ∀ i, t.index = some i → i < UInt64.size) :
    token? (ofToken t) = some t := by
  rw [token?, ofToken, fields?_record (by rfl) (by decide)]
  simp only [List.map_cons, List.map_nil, bind, Option.bind_some, Option.getD_some, code?_ofNat,
    slot?_elim index, text?_ofString, span?_ofSpan, pure]

theorem valid_ofToken (t : Token) : (ofToken t).Valid := by
  apply valid_record
  intro m hm
  simp only [List.mem_cons, List.not_mem_nil, or_false] at hm
  rcases hm with rfl | rfl | rfl | rfl | rfl
  · exact valid_ofNat _
  · exact valid_ofNat _
  · cases t.index with
    | none => exact valid_null
    | some i => exact valid_ofNat i
  · exact valid_ofString t.text
  · exact valid_ofSpan t.span

/-! ## Policies -/

theorem overrideKey?_plain (kind : Kind) :
    overrideKey? ((Number.ofNat kind.toNat).map Piece.plain) = some kind := by
  rw [overrideKey?, Literal.plain?_map_plain]
  simp only [bind, Option.bind_some, Number.canonical?_ofNat, if_pos kind.toNat_lt,
    UInt32.ofNat_toNat, pure]

theorem override?_plain (e : Kind × Channel) :
    override? ((Number.ofNat e.1.toNat).map .plain, .ofNat e.2.toNat) = some e := by
  rw [override?]
  simp only [bind, overrideKey?_plain, Option.bind_some, code?_ofNat, pure]

theorem mapM_override?_plain (pairs : List (Kind × Channel)) :
    (pairs.map fun e => ((Number.ofNat e.1.toNat).map .plain, .ofNat e.2.toNat)).mapM override? =
      some pairs := by
  rw [List.mapM_map]
  exact (mapM_eq_some fun e _ => override?_plain e).trans (congrArg some (List.map_id' pairs))

theorem mapM_code?_ofNat (kinds : List Kind) :
    (kinds.map fun kind => ofNat kind.toNat).mapM code? = some kinds := by
  rw [List.mapM_map]
  exact (mapM_eq_some fun kind _ => code?_ofNat kind).trans (congrArg some (List.map_id' kinds))

/-- Overrides are read back in their order. -/
theorem overrides?_ofOverrides (o : Overrides) : overrides? (ofOverrides o) = some o := by
  rw [overrides?, ofOverrides, members?]
  simp only [bind, Option.bind_some, mapM_override?_plain, Overrides.ofList_entries, pure]

/-- Discards are read back in their order. -/
theorem discards?_ofDiscards (d : Discards) : discards? (ofDiscards d) = some d := by
  rw [discards?, ofDiscards, items?]
  simp only [bind, Option.bind_some, mapM_code?_ofNat, Discards.ofList_kinds, pure]

theorem valid_ofOverrides (o : Overrides) : (ofOverrides o).Valid := by
  apply valid_object
  intro m hm
  obtain ⟨e, -, rfl⟩ := List.mem_map.1 hm
  exact ⟨Literal.valid_digits (Number.isDigit_ofNat e.1.toNat), valid_ofNat e.2.toNat⟩

theorem valid_ofDiscards (d : Discards) : (ofDiscards d).Valid := by
  apply valid_array
  intro v hv
  obtain ⟨kind, -, rfl⟩ := List.mem_map.1 hv
  exact valid_ofNat kind.toNat

theorem policy?_ofPolicy (p : Policy) : policy? (ofPolicy p) = some p := by
  rw [policy?, ofPolicy, fields?_record (by rfl) (by decide)]
  simp only [List.map_cons, List.map_nil, bind, Option.bind_some, fieldOr, code?_ofNat, bool?,
    overrides?_ofOverrides, discards?_ofDiscards, pure]

theorem valid_ofPolicy (p : Policy) : (ofPolicy p).Valid := by
  apply valid_record
  intro m hm
  simp only [List.mem_cons, List.not_mem_nil, or_false] at hm
  rcases hm with rfl | rfl | rfl | rfl
  · exact valid_ofNat _
  · exact valid_bool p.dropsOffChannel
  · exact valid_ofOverrides p.overrides
  · exact valid_ofDiscards p.discards

/-! ## Documents -/

/-- A token with an index that is a 64-bit word, and any policy, are read back from the documents
that are written of them: the texts to the last character, the entries in their order. -/
theorem decode_encode {t : Token} (index : ∀ i, t.index = some i → i < UInt64.size) (p : Policy) :
    decodeToken? (encodeToken t) = some t ∧ decodePolicy? (encodePolicy p) = some p := by
  have token : Value.ofText? (encodeToken t) = some (ofToken t) := ofText?_toText (valid_ofToken t)
  have policy : Value.ofText? (encodePolicy p) = some (ofPolicy p) :=
    ofText?_toText (valid_ofPolicy p)
  constructor
  · rw [decodeToken?, token, Option.bind_some, token?_ofToken index]
  · rw [decodePolicy?, policy, Option.bind_some, policy?_ofPolicy]

/-- A text with a quote, a backslash, a line break, another control character and a character
beyond the first plane, and kinds that are named in no order. -/
theorem decode_encode_escapes :
    let t : Token :=
      { kind := 7, channel := 0, index := some 18446744073709551615
        text := "\"\\\n\x01é😀", span := .unplaced }
    let p := ((Policy.standard.reroute 9 1).reroute 4 2).discard 6
    (∀ i, t.index = some i → i < UInt64.size) ∧
      decodeToken? (encodeToken t) = some t ∧ decodePolicy? (encodePolicy p) = some p := by
  intro t p
  have index : ∀ i, t.index = some i → i < UInt64.size := by
    intro i hi
    cases hi
    decide
  exact ⟨index, decode_encode index p⟩

end Lookahead.Json
