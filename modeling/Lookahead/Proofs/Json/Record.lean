import Mathlib.Data.List.Perm.Basic
import Lookahead.Proofs.Json.Form

/-!
# Records in all their forms

A literal means a text, however its characters are escaped (`Means`). A value shows the fields of a
record if it is an object with the fields that are there as members, in any order and among members
of other names, or an array of the fields in their order (`Shows`). Then these fields are read
(`fields?_of_shows`). A value with a field too many is refused (`fields?_of_overfull`).
-/

namespace Lookahead.Json

/-! ## Texts -/

namespace Literal

/-- The characters that the pieces of a literal stand for. A character beyond the first plane is
written as two code units of UTF-16. -/
inductive Means : Literal → List Char → Prop
  | nil : Means [] []
  | plain {pieces : Literal} {cs : List Char} (c : Char) : Means pieces cs →
    Means (.plain c :: pieces) (c :: cs)
  | escaped {pieces : Literal} {cs : List Char} (c : Char) : Means pieces cs →
    Means (.escaped c :: pieces) (c :: cs)
  | unit {pieces : Literal} {cs : List Char} {c : Char} : c.toNat < 0x10000 → Means pieces cs →
    Means (.unit c.toNat :: pieces) (c :: cs)
  | pair {pieces : Literal} {cs : List Char} {c : Char} : 0x10000 ≤ c.toNat → Means pieces cs →
    Means (.unit (0xD800 + (c.toNat - 0x10000) / 0x400) ::
      .unit (0xDC00 + (c.toNat - 0x10000) % 0x400) :: pieces) (c :: cs)

/-- No character is a code unit of a pair. -/
theorem not_surrogate (c : Char) : isHigh c.toNat = false ∧ isLow c.toNat = false := by
  have valid : c.toNat < 0xD800 ∨ 0xDFFF < c.toNat ∧ c.toNat < 0x110000 := c.valid
  simp only [isHigh, isLow, Bool.and_eq_false_iff, decide_eq_false_iff_not]
  omega

/-- A literal is read as the characters that it means. -/
theorem chars?_of_means {pieces : Literal} {cs : List Char} (h : pieces.Means cs) :
    chars? pieces = some cs := by
  induction h with
  | nil => rfl
  | plain c _ ih => rw [chars?, ih, Option.map_some]
  | escaped c _ ih => rw [chars?, ih, Option.map_some]
  | @unit _ _ c _ _ ih =>
    obtain ⟨high, low⟩ := not_surrogate c
    rw [chars?_unit high low, ih, Option.map_some, Char.ofNat_toNat]
  | @pair _ _ c beyond _ ih =>
    have bound : c.toNat < 0x110000 := by
      have valid : c.toNat < 0xD800 ∨ 0xDFFF < c.toNat ∧ c.toNat < 0x110000 := c.valid
      omega
    have pair : isHigh (0xD800 + (c.toNat - 0x10000) / 0x400) = true ∧
        isLow (0xDC00 + (c.toNat - 0x10000) % 0x400) = true := by
      simp only [isHigh, isLow, Bool.and_eq_true, decide_eq_true_eq]
      omega
    have character : paired (0xD800 + (c.toNat - 0x10000) / 0x400)
        (0xDC00 + (c.toNat - 0x10000) % 0x400) = c := by
      rw [paired]
      have number : 0x10000 + (0xD800 + (c.toNat - 0x10000) / 0x400 - 0xD800) * 0x400 +
          (0xDC00 + (c.toNat - 0x10000) % 0x400 - 0xDC00) = c.toNat := by omega
      rw [number, Char.ofNat_toNat]
    rw [chars?, if_pos (by rw [pair.1, pair.2]; rfl), ih, Option.map_some, character]

theorem text?_of_means {pieces : Literal} {s : String} (h : pieces.Means s.toList) :
    pieces.text? = some s := by
  rw [text?, chars?_of_means h, Option.map_some, String.ofList_toList]

/-- The literal that spells a text means it. -/
theorem means_ofText (s : String) : (ofText s).Means s.toList := by
  rw [ofText]
  induction s.toList with
  | nil => exact .nil
  | cons c cs ih =>
    rw [List.map_cons, pieceOf]
    split
    · exact .escaped c ih
    · split
      · next control =>
        have small : c.toNat < 32 := of_decide_eq_true control
        exact .unit (by omega) ih
      · exact .plain c ih

end Literal

/-! ## Fields -/

/-- A member of an object whose key means a name. -/
structure Member where
  key : Literal
  name : String
  value : Value
  means : key.Means name.toList

namespace Value

/-- The members for the fields that are there. -/
def present (fields : List (String × Option Value)) : List (String × Value) :=
  fields.filterMap fun f => f.2.map fun v => (f.1, v)

/-- The value is an object or an array with these fields of a record, and no others of the record.
An array may leave out fields at its end. -/
inductive Shows (fields : List (String × Option Value)) : Value → Prop
  | object {members : List Member} {others : List (String × Value)} :
    (members.map fun m => (m.name, m.value)).Perm (present fields ++ others) →
    (∀ m ∈ others, m.1 ∉ fields.map Prod.fst) →
    Shows fields (.object (members.map fun m => (m.key, m.value)))
  | array {items : List Value} (absent : Nat) :
    fields.map Prod.snd = items.map some ++ List.replicate absent none → Shows fields (.array items)

/-- The value is an object in which two members have the name of one field, or an array with more
items than there are fields. -/
inductive Overfull (names : List String) : Value → Prop
  | object {members : List (Literal × Value)} {name : String} {key key' : Literal} {v v' : Value} :
    [(key, v), (key', v')].Sublist members → name ∈ names → key.Means name.toList →
    key'.Means name.toList → Overfull names (.object members)
  | array {items : List Value} : names.length < items.length → Overfull names (.array items)

/-- The value is an object or an array with `v` as the field of a name. -/
inductive Gives (names : List String) (name : String) (v : Value) : Value → Prop
  | object {members : List (Literal × Value)} {key : Literal} : (key, v) ∈ members →
    name ∈ names → key.Means name.toList → Gives names name v (.object members)
  | array {items : List Value} {i : Nat} : names[i]? = some name → items[i]? = some v →
    Gives names name v (.array items)

/-! ### Members by name -/

theorem named?_members (members : List Member) :
    named? (members.map fun m => (m.key, m.value)) =
      some (members.map fun m => (m.name, m.value)) := by
  rw [named?, List.mapM_map]
  refine mapM_eq_some fun m _ => ?_
  show m.key.text?.map (fun key => (key, m.value)) = _
  rw [Literal.text?_of_means m.means, Option.map_some]

/-- The members of a name are those whose keys mean it. -/
theorem filter_named? {members : List (Literal × Value)} {named : List (String × Value)}
    (h : named? members = some named) (name : String) :
    named.filter (fun m => m.1 == name) =
      (members.filter fun m => m.1.text? == some name).map fun m => (name, m.2) := by
  induction members generalizing named with
  | nil =>
    cases h
    rfl
  | cons m members ih =>
    rw [named?, List.mapM_cons] at h
    simp only [bind, Option.bind_eq_some_iff, pure, Option.some.injEq] at h
    obtain ⟨n, read, rest, later, rfl⟩ := h
    obtain ⟨key, text, rfl⟩ := Option.map_eq_some_iff.1 read
    rw [List.filter_cons, List.filter_cons, text, ih later]
    by_cases same : key = name
    · subst same
      simp
    · simp [same]

/-! ### What is shown is read -/

theorem present_cons (f : String × Option Value) (fields : List (String × Option Value)) :
    present (f :: fields) = (f.2.map fun v => (f.1, v)).toList ++ present fields := by
  rw [present, List.filterMap_cons]
  cases f.2 <;> rfl

theorem filter_present_of_not_mem {fields : List (String × Option Value)} {name : String}
    (absent : name ∉ fields.map Prod.fst) :
    (present fields).filter (fun m => m.1 == name) = [] := by
  refine List.filter_eq_nil_iff.2 fun m hm same => absent ?_
  obtain ⟨f, hf, there⟩ := List.mem_filterMap.1 hm
  obtain ⟨v, -, rfl⟩ := Option.map_eq_some_iff.1 there
  exact List.mem_map.2 ⟨f, hf, beq_iff_eq.1 same⟩

/-- A field that is there is there once. -/
theorem filter_present {fields : List (String × Option Value)}
    (nodup : (fields.map Prod.fst).Nodup) {f : String × Option Value} (hf : f ∈ fields) :
    (present fields).filter (fun m => m.1 == f.1) = (f.2.map fun v => (f.1, v)).toList := by
  induction fields with
  | nil => cases hf
  | cons g fields ih =>
    rw [List.map_cons, List.nodup_cons] at nodup
    rw [present_cons, List.filter_append]
    rcases List.mem_cons.1 hf with rfl | later
    · rw [filter_present_of_not_mem nodup.1, List.append_nil]
      cases f.2 <;> simp
    · have other : ¬(g.1 == f.1) = true := fun same =>
        nodup.1 (beq_iff_eq.1 same ▸ List.mem_map_of_mem later)
      rw [ih nodup.2 later]
      cases g.2 <;> simp [other]

/-- Whichever way the fields of a record are shown, they are read. -/
theorem fields?_of_shows {fields : List (String × Option Value)} {names : List String} {v : Value}
    (named : fields.map Prod.fst = names) (nodup : names.Nodup) (h : Shows fields v) :
    v.fields? names = some (fields.map Prod.snd) := by
  subst named
  cases h with
  | @object members others arranged foreign =>
    rw [fields?, named?_members, Option.bind_some, List.mapM_map]
    refine mapM_eq_some fun f hf => ?_
    have taken := arranged.filter fun m => m.1 == f.1
    have unrelated : others.filter (fun m => m.1 == f.1) = [] :=
      List.filter_eq_nil_iff.2 fun m hm same =>
        foreign m hm (beq_iff_eq.1 same ▸ List.mem_map_of_mem hf)
    rw [List.filter_append, filter_present nodup hf, unrelated, List.append_nil] at taken
    show member? _ f.1 = some f.2
    rw [member?]
    cases there : f.2 with
    | none =>
      rw [there] at taken
      rw [List.perm_nil.1 taken]
    | some v =>
      rw [there] at taken
      rw [List.perm_singleton.1 taken]
  | @array items absent ordered =>
    have length := congrArg List.length ordered
    simp only [List.length_map, List.length_append, List.length_replicate] at length
    have left : fields.length - items.length = absent := by omega
    rw [fields?, List.length_map, if_pos (by omega), left, ordered]

/-- A record that is written with its fields in any order, and with members of other names. -/
theorem shows_record_of_perm {fields : List (String × Option Value)}
    {members others : List (String × Value)} (arranged : members.Perm (present fields ++ others))
    (foreign : ∀ m ∈ others, m.1 ∉ fields.map Prod.fst) : Shows fields (record members) := by
  let written : List Member :=
    members.map fun m => ⟨Literal.ofText m.1, m.1, m.2, Literal.means_ofText m.1⟩
  have keys : members.map (fun m => (Literal.ofText m.1, m.2)) =
      written.map fun m => (m.key, m.value) := by
    rw [List.map_map]
    rfl
  have names : written.map (fun m => (m.name, m.value)) = members := by
    rw [List.map_map]
    exact List.map_id' members
  rw [record, keys]
  exact .object (names ▸ arranged) foreign

/-- The object that is written of a record shows its fields. -/
theorem shows_record {members : List (String × Value)} {fields : List (String × Option Value)}
    (there : members.map (fun m => (m.1, some m.2)) = fields) : Shows fields (record members) := by
  have all : present fields = members := by
    rw [← there, present, List.filterMap_map]
    exact List.filterMap_some
  refine shows_record_of_perm ?_ (List.forall_mem_nil _)
  rw [all, List.append_nil]

/-! ### What is refused -/

/-- What is read item by item is read of every item. -/
theorem mem_zip_of_mapM {α β : Type} {read? : α → Option β} {items : List α} {values : List β}
    (h : items.mapM read? = some values) {a : α} (ha : a ∈ items) :
    ∃ b, read? a = some b ∧ (a, b) ∈ items.zip values := by
  induction items generalizing values with
  | nil => cases ha
  | cons c items ih =>
    rw [List.mapM_cons] at h
    simp only [bind, Option.bind_eq_some_iff, pure, Option.some.injEq] at h
    obtain ⟨b, first, rest, later, rfl⟩ := h
    rcases List.mem_cons.1 ha with rfl | ha
    · exact ⟨b, first, List.mem_cons_self⟩
    · obtain ⟨b, read, there⟩ := ih later ha
      exact ⟨b, read, List.mem_cons_of_mem _ there⟩

/-- A value with a field too many is refused. -/
theorem fields?_of_overfull {names : List String} {v : Value} (h : Overfull names v) :
    v.fields? names = none := by
  cases h with
  | @object members name key key' v v' both known means means' =>
    refine Option.eq_none_iff_forall_ne_some.2 fun values read => ?_
    obtain ⟨named, hn, found⟩ := Option.bind_eq_some_iff.1 read
    obtain ⟨w, taken, -⟩ := mem_zip_of_mapM found known
    have two : 2 ≤ (named.filter fun m => m.1 == name).length := by
      have kept := (both.filter fun m => m.1.text? == some name).length_le
      rw [List.filter_cons, Literal.text?_of_means means, if_pos (beq_self_eq_true _),
        List.filter_cons, Literal.text?_of_means means', if_pos (beq_self_eq_true _)] at kept
      rwa [filter_named? hn, List.length_map]
    rw [member?] at taken
    split at taken
    · next none_taken =>
      rw [none_taken] at two
      exact absurd two (Nat.not_succ_le_zero 1)
    · next one_taken =>
      rw [one_taken] at two
      exact absurd two (Nat.not_succ_le_self 1)
    · cases taken
  | array long => exact if_neg (Nat.not_le.2 long)

/-- A field that is given is the one that is read. -/
theorem mem_zip_of_gives {names : List String} {name : String} {v w : Value}
    (h : Gives names name v w) {values : List (Option Value)}
    (read : w.fields? names = some values) : (name, some v) ∈ names.zip values := by
  cases h with
  | @object members key member known means =>
    obtain ⟨named, hn, found⟩ := Option.bind_eq_some_iff.1 read
    obtain ⟨value, taken, there⟩ := mem_zip_of_mapM found known
    have given : (name, v) ∈ named.filter fun m => m.1 == name := by
      rw [filter_named? hn]
      exact List.mem_map.2 ⟨(key, v), List.mem_filter.2
        ⟨member, by rw [Literal.text?_of_means means, beq_self_eq_true]⟩, rfl⟩
    rw [member?] at taken
    split at taken
    · next none_taken =>
      rw [none_taken] at given
      cases given
    · next m one_taken =>
      rw [one_taken, List.mem_singleton] at given
      subst given
      cases taken
      exact there
    · cases taken
  | @array items i named given =>
    rw [fields?] at read
    split at read
    · cases read
      refine List.mem_of_getElem? (i := i) ?_
      have there : i < items.length := (List.getElem?_eq_some_iff.1 given).1
      rw [List.getElem?_zip_eq_some]
      refine ⟨named, ?_⟩
      rw [List.getElem?_append_left (by rw [List.length_map]; exact there), List.getElem?_map,
        given, Option.map_some]
    · cases read

end Value

end Lookahead.Json
