import Lookahead.Proofs.Json.Grammar
import Lookahead.Proofs.Json.Record
import Lookahead.Proofs.Policy

/-!
# Documents of tokens and policies

What a JSON value has to look like to show a position, a span, a token or a policy: at every level
an object or an array, with the fields in any order, with members that mean nothing, and with the
fields left out that may be. Overrides and discards may name a kind more than once. Whatever shows a
token or a policy is read as it, from a text with any escapes and blanks, and what has a field too
many at some level is refused (`decode_of_document`).
-/

namespace Lookahead.Json

open Value

/-! ## Values that show something -/

namespace Value

/-- The value shows a text: a string that means it. -/
def ShowsText (v : Value) (text : String) : Prop :=
  ∃ pieces : Literal, v = .string pieces ∧ pieces.Means text.toList

/-- The value shows a place in the input. -/
def ShowsPosition (v : Value) (p : Position) : Prop :=
  Shows
    [("line", some (.ofNat p.line.toNat)), ("column", some (.ofNat p.column.toNat)),
      ("byte_offset", some (.ofNat p.byteOffset.toNat))] v

/-- The value shows a stretch of input. -/
def ShowsSpan (v : Value) (s : Span) : Prop :=
  ∃ start stop : Value,
    Shows [("start_inclusive", some start), ("end_exclusive", some stop)] v ∧
      start.ShowsPosition s.start ∧ stop.ShowsPosition s.stop

/-- The index of a token is shown by a number, or if it is unset by null or by nothing. -/
inductive ShowsIndex : Option Value → Option Nat → Prop
  | set {i : Nat} : i < UInt64.size → ShowsIndex (some (.ofNat i)) (some i)
  | null : ShowsIndex (some .null) none
  | absent : ShowsIndex none none

/-- The value shows a token. -/
def ShowsToken (v : Value) (t : Token) : Prop :=
  ∃ (index : Option Value) (text span : Value),
    Shows
        [("token_type", some (.ofNat t.kind.toNat)), ("channel", some (.ofNat t.channel.toNat)),
          ("index", index), ("text", some text), ("span", some span)] v ∧
      ShowsIndex index t.index ∧ text.ShowsText t.text ∧ span.ShowsSpan t.span

/-- The value shows overrides: an object with a member for each entry ever made. The last channel
that a kind is given counts, and the first place that it has. -/
def ShowsOverrides (v : Value) (o : Overrides) : Prop :=
  ∃ pairs : List (Kind × Channel),
    v = .object (pairs.map fun e => ((Number.ofNat e.1.toNat).map .plain, .ofNat e.2.toNat)) ∧
      o.kinds = (pairs.map Prod.fst).eraseDups ∧ ∀ kind, o.find? kind = pairs.reverse.lookup kind

/-- The value shows discarded kinds: an array of them, in which a kind may occur again. -/
def ShowsDiscards (v : Value) (d : Discards) : Prop :=
  ∃ kinds : List Kind,
    v = .array (kinds.map fun kind => .ofNat kind.toNat) ∧ d.kinds = kinds.eraseDups

/-- A field that may be left out if it has its standard value. -/
def ShowsOr {α : Type} (standard : α) (shows_ : Value → α → Prop) : Option Value → α → Prop
  | none, a => a = standard
  | some v, a => shows_ v a

/-- The value shows a policy. -/
def ShowsPolicy (v : Value) (p : Policy) : Prop :=
  ∃ channel drops overrides discards : Option Value,
    Shows
        [("channel", channel), ("discard_off_channel", drops), ("channel_overrides", overrides),
          ("discarded_token_types", discards)] v ∧
      ShowsOr Policy.standard.channel (fun v c => v = .ofNat c.toNat) channel p.channel ∧
      ShowsOr Policy.standard.dropsOffChannel (fun v b => v = .bool b) drops p.dropsOffChannel ∧
      ShowsOr Policy.standard.overrides ShowsOverrides overrides p.overrides ∧
      ShowsOr Policy.standard.discards ShowsDiscards discards p.discards

/-! ## Values with too many fields -/

/-- The names of the fields of a position. -/
abbrev positionNames : List String := ["line", "column", "byte_offset"]

/-- The names of the fields of a span. -/
abbrev spanNames : List String := ["start_inclusive", "end_exclusive"]

/-- The names of the fields of a token. -/
abbrev tokenNames : List String := ["token_type", "channel", "index", "text", "span"]

/-- The names of the fields of a policy. -/
abbrev policyNames : List String :=
  ["channel", "discard_off_channel", "channel_overrides", "discarded_token_types"]

/-- A field too many in the value of a span, or in one of its positions. -/
def OverfullSpan (v : Value) : Prop :=
  Overfull spanNames v ∨
    ∃ name position, Gives spanNames name position v ∧ Overfull positionNames position

/-- A field too many in the value of a token, in its span, or in a position of that. -/
def OverfullToken (v : Value) : Prop :=
  Overfull tokenNames v ∨ ∃ span, Gives tokenNames "span" span v ∧ OverfullSpan span

end Value

/-! ## What is shown is read -/

theorem text?_of_shows {v : Value} {text : String} (h : v.ShowsText text) : v.text? = some text := by
  obtain ⟨pieces, rfl, means⟩ := h
  exact Literal.text?_of_means means

theorem position?_of_shows {v : Value} {p : Position} (h : v.ShowsPosition p) :
    position? v = some p := by
  rw [position?, fields?_of_shows (by rfl) (by decide) h]
  simp only [List.map_cons, List.map_nil, bind, Option.bind_some, word?_ofNat, pure]

theorem span?_of_shows {v : Value} {s : Span} (h : v.ShowsSpan s) : span? v = some s := by
  obtain ⟨start, stop, fields, showsStart, showsStop⟩ := h
  rw [span?, fields?_of_shows (by rfl) (by decide) fields]
  simp only [List.map_cons, List.map_nil, bind, Option.bind_some, position?_of_shows showsStart,
    position?_of_shows showsStop, pure]

theorem slot?_of_shows {shown : Option Value} {index : Option Nat} (h : ShowsIndex shown index) :
    (shown.getD .null).slot? = some index := by
  cases h with
  | @set i small =>
    show ((ofNat i).natural? UInt64.size).map some = _
    rw [natural?_ofNat small, Option.map_some]
  | null => rfl
  | absent => rfl

theorem token?_of_shows {v : Value} {t : Token} (h : v.ShowsToken t) : token? v = some t := by
  obtain ⟨index, text, span, fields, showsIndex, showsText, showsSpan⟩ := h
  rw [token?, fields?_of_shows (by rfl) (by decide) fields]
  simp only [List.map_cons, List.map_nil, bind, Option.bind_some, code?_ofNat,
    slot?_of_shows showsIndex, text?_of_shows showsText, span?_of_shows showsSpan, pure]

theorem overrides?_of_shows {v : Value} {o : Overrides} (h : v.ShowsOverrides o) :
    overrides? v = some o := by
  obtain ⟨pairs, rfl, kinds, channels⟩ := h
  have entered : o = .ofList pairs := by
    refine Overrides.eq_of_kinds (kinds.trans (Overrides.kinds_ofList pairs).symm) fun kind => ?_
    rw [channels, Overrides.find?_ofList]
  rw [overrides?, members?]
  simp only [bind, Option.bind_some, mapM_override?_plain, entered, pure]

theorem discards?_of_shows {v : Value} {d : Discards} (h : v.ShowsDiscards d) :
    discards? v = some d := by
  obtain ⟨kinds, rfl, first⟩ := h
  have entered : d = .ofList kinds := Discards.ext (first.trans (Discards.kinds_ofList kinds).symm)
  rw [discards?, items?]
  simp only [bind, Option.bind_some, mapM_code?_ofNat, entered, pure]

theorem fieldOr_of_shows {α : Type} {standard a : α} {shows_ : Value → α → Prop}
    {read? : Value → Option α} {shown : Option Value} (h : ShowsOr standard shows_ shown a)
    (read : ∀ v a, shows_ v a → read? v = some a) : fieldOr standard read? shown = some a := by
  cases shown with
  | none => exact congrArg some h.symm
  | some v => exact read v a h

theorem policy?_of_shows {v : Value} {p : Policy} (h : v.ShowsPolicy p) : policy? v = some p := by
  obtain ⟨channel, drops, overrides, discards, fields, showsChannel, showsDrops, showsOverrides,
    showsDiscards⟩ := h
  have readChannel : fieldOr Policy.standard.channel code? channel = some p.channel :=
    fieldOr_of_shows showsChannel fun _ c same => same ▸ code?_ofNat c
  have readDrops : fieldOr Policy.standard.dropsOffChannel bool? drops = some p.dropsOffChannel :=
    fieldOr_of_shows showsDrops fun _ _ same => same ▸ rfl
  have readOverrides := fieldOr_of_shows showsOverrides fun _ _ => overrides?_of_shows
  have readDiscards := fieldOr_of_shows showsDiscards fun _ _ => discards?_of_shows
  rw [policy?, fields?_of_shows (by rfl) (by decide) fields]
  simp only [List.map_cons, List.map_nil, bind, Option.bind_some, readChannel, readDrops,
    readOverrides, readDiscards, pure]

/-! ## What has a field too many is refused -/

theorem span?_of_overfull {v : Value} (h : v.OverfullSpan) : span? v = none := by
  rcases h with overfull | ⟨name, position, given, overfull⟩
  · rw [span?, fields?_of_overfull overfull]
    rfl
  · have refused : position? position = none := by
      rw [position?, fields?_of_overfull overfull]
      rfl
    refine Option.eq_none_iff_forall_ne_some.2 fun s read => ?_
    obtain ⟨values, fields, rest⟩ := Option.bind_eq_some_iff.1 read
    have there := mem_zip_of_gives given fields
    split at rest
    · next start stop =>
      simp only [List.zip_cons_cons, List.zip_nil_left, List.mem_cons, List.not_mem_nil, or_false,
        Prod.mk.injEq, Option.some.injEq] at there
      rcases there with ⟨-, rfl⟩ | ⟨-, rfl⟩
      · simp [refused] at rest
      · simp [refused] at rest
    · cases rest

theorem token?_of_overfull {v : Value} (h : v.OverfullToken) : token? v = none := by
  rcases h with overfull | ⟨span, given, overfull⟩
  · rw [token?, fields?_of_overfull overfull]
    rfl
  · refine Option.eq_none_iff_forall_ne_some.2 fun t read => ?_
    obtain ⟨values, fields, rest⟩ := Option.bind_eq_some_iff.1 read
    have there := mem_zip_of_gives given fields
    split at rest
    · next kind channel index text _ =>
      simp only [List.zip_cons_cons, List.zip_nil_right, List.mem_cons, Prod.mk.injEq,
        String.reduceEq, Option.some.injEq, false_and, true_and, List.not_mem_nil, or_false,
        false_or] at there
      subst there
      simp [span?_of_overfull overfull] at rest
    · cases rest

/-! ## What is written -/

theorem showsPosition_ofPosition (p : Position) : (ofPosition p).ShowsPosition p := shows_record rfl

theorem showsSpan_ofSpan (s : Span) : (ofSpan s).ShowsSpan s :=
  ⟨ofPosition s.start, ofPosition s.stop, shows_record rfl, showsPosition_ofPosition s.start,
    showsPosition_ofPosition s.stop⟩

/-- What is written of a token shows it, if its index is a 64-bit word. -/
theorem showsToken_ofToken {t : Token} (index : ∀ i, t.index = some i → i < UInt64.size) :
    (ofToken t).ShowsToken t := by
  refine ⟨some (t.index.elim .null .ofNat), .ofString t.text, ofSpan t.span, shows_record rfl, ?_,
    ⟨_, rfl, Literal.means_ofText t.text⟩, showsSpan_ofSpan t.span⟩
  cases set : t.index with
  | none => exact .null
  | some i => exact .set (index i set)

/-- What is written of a policy shows it. -/
theorem showsPolicy_ofPolicy (p : Policy) : (ofPolicy p).ShowsPolicy p := by
  refine ⟨some (.ofNat p.channel.toNat), some (.bool p.dropsOffChannel),
    some (ofOverrides p.overrides), some (ofDiscards p.discards), shows_record rfl, rfl, rfl,
    ⟨p.overrides.entries, rfl, ?_, fun kind => ?_⟩, ⟨p.discards.kinds, rfl, ?_⟩⟩
  · rw [← Overrides.kinds_ofList, Overrides.ofList_entries]
  · rw [← Overrides.find?_ofList, Overrides.ofList_entries]
  · rw [← Discards.kinds_ofList, Discards.ofList_kinds]

/-! ## Documents -/

/-- Every document of a value that shows a token or a policy is read as it, and no document of a
value with a field too many is read. -/
theorem decode_of_document {v : Value} {s : String} (document : v.Document s) :
    (∀ t : Token, v.ShowsToken t → decodeToken? s = some t) ∧
      (∀ p : Policy, v.ShowsPolicy p → decodePolicy? s = some p) ∧
      (v.OverfullToken → decodeToken? s = none) ∧
      (v.Overfull policyNames → decodePolicy? s = none) := by
  have read : Value.ofText? s = some v := ofText?_of_document document
  refine ⟨fun t h => ?_, fun p h => ?_, fun h => ?_, fun h => ?_⟩
  · rw [decodeToken?, read, Option.bind_some, token?_of_shows h]
  · rw [decodePolicy?, read, Option.bind_some, policy?_of_shows h]
  · rw [decodeToken?, read, Option.bind_some, token?_of_overfull h]
  · rw [decodePolicy?, read, Option.bind_some, policy?, fields?_of_overfull h]
    rfl

/-- A token without its index, with another member and with positions written either way, and a
policy with kinds that are named again. A token with its span given twice and a policy with an item
too many are refused. -/
theorem decode_of_document_mixed :
    let note : Value := .array [.number "-1.5e+3".toList, .null, .object []]
    let start : Value := .array [.ofNat 1, .ofNat 2, .ofNat 30]
    let stop : Value := .record [("byte_offset", .ofNat 33), ("column", .ofNat 4), ("line", .ofNat 1)]
    let text : Value := .string [.plain 'a', .unit 0xD83D, .unit 0xDE00]
    let token : Value :=
      .record
        [("note", note), ("span", .array [start, stop]), ("text", text), ("channel", .ofNat 0),
          ("token_type", .ofNat 7)]
    let t : Token :=
      { kind := 7, channel := 0, index := none, text := "a😀", span := ⟨⟨1, 2, 30⟩, ⟨1, 4, 33⟩⟩ }
    let overrides : Value :=
      .object [([.plain '7'], .ofNat 1), ([.plain '8'], .ofNat 2), ([.plain '7'], .ofNat 3)]
    let discards : Value := .array [.ofNat 5, .ofNat 6, .ofNat 5]
    let policy : Value :=
      .record
        [("note", note), ("discarded_token_types", discards), ("channel_overrides", overrides)]
    let p := (((Policy.standard.reroute 7 3).reroute 8 2).discard 5).discard 6
    let twice : Value := .record [("span", .null), ("channel", .ofNat 0), ("span", start)]
    let long : Value := .array [.ofNat 0, .bool false, .object [], .array [], .null]
    let written (v : Value) := v.blankedText [' ', '\n']
    token.Document (written token) ∧ token.ShowsToken t ∧
      decodeToken? (written token) = some t ∧
      policy.Document (written policy) ∧ policy.ShowsPolicy p ∧
      decodePolicy? (written policy) = some p ∧
      twice.Document (written twice) ∧ twice.OverfullToken ∧
      decodeToken? (written twice) = none ∧
      long.Document (written long) ∧ long.Overfull policyNames ∧
      decodePolicy? (written long) = none := by
  intro note start stop text token t overrides discards policy p twice long written
  have blank : ∀ c ∈ [' ', '\n'], isBlank c = true := by simp [isBlank]
  have documentToken : token.Document (written token) :=
    document_blankedText (by decide +kernel) blank
  have documentPolicy : policy.Document (written policy) :=
    document_blankedText (by decide +kernel) blank
  have documentTwice : twice.Document (written twice) :=
    document_blankedText (by decide +kernel) blank
  have documentLong : long.Document (written long) :=
    document_blankedText (by decide +kernel) blank
  have showsText : text.ShowsText t.text := by
    have means : Literal.Means [.plain 'a', .unit 0xD83D, .unit 0xDE00] "a😀".toList :=
      .plain 'a' (Literal.Means.pair (c := '😀') (by decide) .nil)
    exact ⟨_, rfl, means⟩
  have showsSpan : Value.ShowsSpan (.array [start, stop]) t.span :=
    ⟨start, stop, .array 0 rfl, .array 0 rfl,
      shows_record_of_perm (List.reverse_perm _).symm (List.forall_mem_nil _)⟩
  have showsToken : token.ShowsToken t := by
    let fields : List (String × Option Value) :=
      [("token_type", some (.ofNat 7)), ("channel", some (.ofNat 0)), ("index", none),
        ("text", some text), ("span", some (.array [start, stop]))]
    have arranged : List.Perm
        [("note", note), ("span", .array [start, stop]), ("text", text), ("channel", .ofNat 0),
          ("token_type", .ofNat 7)] (present fields ++ [("note", note)]) :=
      (List.reverse_perm _).symm
    exact ⟨none, text, .array [start, stop], shows_record_of_perm arranged (by simp), .absent,
      showsText, showsSpan⟩
  have showsPolicy : policy.ShowsPolicy p := by
    let fields : List (String × Option Value) :=
      [("channel", none), ("discard_off_channel", none), ("channel_overrides", some overrides),
        ("discarded_token_types", some discards)]
    have arranged : List.Perm
        [("note", note), ("discarded_token_types", discards), ("channel_overrides", overrides)]
        (present fields ++ [("note", note)]) :=
      (List.reverse_perm _).symm
    have entered : p.overrides = .ofList [(7, 1), (8, 2), (7, 3)] := by decide +kernel
    have showsOverrides : overrides.ShowsOverrides p.overrides := by
      rw [entered]
      exact ⟨[(7, 1), (8, 2), (7, 3)], rfl, Overrides.kinds_ofList _, Overrides.find?_ofList _⟩
    exact ⟨none, none, some overrides, some discards,
      shows_record_of_perm arranged (by simp), rfl, rfl, showsOverrides, [5, 6, 5], rfl,
      by decide +kernel⟩
  have overfullTwice : twice.OverfullToken := by
    have both : [(Literal.ofText "span", Value.null), (Literal.ofText "span", start)].Sublist
        [(.ofText "span", .null), (.ofText "channel", .ofNat 0), (.ofText "span", start)] :=
      .cons_cons _ (.cons _ (.refl _))
    exact Or.inl (.object both (by decide) (Literal.means_ofText "span")
      (Literal.means_ofText "span"))
  have overfullLong : long.Overfull policyNames := .array (by decide)
  exact ⟨documentToken, showsToken, (decode_of_document documentToken).1 t showsToken,
    documentPolicy, showsPolicy, (decode_of_document documentPolicy).2.1 p showsPolicy,
    documentTwice, overfullTwice, (decode_of_document documentTwice).2.2.1 overfullTwice,
    documentLong, overfullLong, (decode_of_document documentLong).2.2.2 overfullLong⟩

end Lookahead.Json
