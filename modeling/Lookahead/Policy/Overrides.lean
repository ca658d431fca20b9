import Lookahead.Token

/-!
# Channel overrides

Which kinds are rerouted to which channel. An override of a kind that has one already replaces
the channel and keeps the place of the first, so the entries stay in the order in which their
kinds were first named, and no kind is named twice.
-/

namespace Lookahead

/-- A table from kinds to channels, in the order in which the kinds were first entered. -/
structure Overrides where
  entries : List (Kind × Channel)
  nodup : (entries.map Prod.fst).Nodup := by simp

namespace Overrides

/-- Puts the channel of a kind in its entry, if there is one. -/
def replaceIn (kind : Kind) (channel : Channel) (entries : List (Kind × Channel)) :
    List (Kind × Channel) :=
  entries.map fun e => if e.1 = kind then (kind, channel) else e

theorem map_fst_replaceIn (kind : Kind) (channel : Channel) (entries : List (Kind × Channel)) :
    (replaceIn kind channel entries).map Prod.fst = entries.map Prod.fst := by
  rw [replaceIn, List.map_map]
  apply List.map_congr_left
  intro e _
  by_cases h : e.1 = kind <;> simp [h]

/-- No kind is rerouted. -/
def empty : Overrides := { entries := [] }

/-- The kinds that are rerouted, in order. -/
def kinds (o : Overrides) : List Kind := o.entries.map Prod.fst

/-- The channel that a kind is rerouted to, if it is. -/
def find? (o : Overrides) (kind : Kind) : Option Channel := o.entries.lookup kind

/-- Reroutes a kind, in its place if it is rerouted already, else after all others. -/
def insert (o : Overrides) (kind : Kind) (channel : Channel) : Overrides :=
  if h : kind ∈ o.kinds then
    { entries := replaceIn kind channel o.entries
      nodup := by rw [map_fst_replaceIn]; exact o.nodup }
  else
    { entries := o.entries ++ [(kind, channel)]
      nodup := by
        rw [List.map_append, List.nodup_append]
        refine ⟨o.nodup, by simp, ?_⟩
        intro a ha b hb
        simp only [List.map_cons, List.map_nil, List.mem_singleton] at hb
        subst hb
        intro e
        exact h (e ▸ ha) }

theorem lookup_replaceIn (kind k : Kind) (channel : Channel) (entries : List (Kind × Channel)) :
    (replaceIn kind channel entries).lookup k =
      if k = kind ∧ kind ∈ entries.map Prod.fst then some channel else entries.lookup k := by
  induction entries with
  | nil => simp [replaceIn]
  | cons e rest ih =>
    obtain ⟨e₁, e₂⟩ := e
    rw [replaceIn, List.map_cons, ← replaceIn]
    simp only [List.map_cons, List.mem_cons]
    by_cases he : e₁ = kind
    · subst he
      rw [if_pos rfl, List.lookup_cons, List.lookup_cons, ih]
      by_cases hk : k = e₁
      · simp [hk]
      · simp [hk, beq_eq_false_iff_ne.2 hk]
    · rw [if_neg he, List.lookup_cons, List.lookup_cons, ih]
      by_cases hk : k = e₁
      · have other : k ≠ kind := fun h => he (hk ▸ h)
        simp [hk, hk ▸ other]
      · simp only [beq_eq_false_iff_ne.2 hk, Ne.symm he, false_or]

/-- A kind that has just been rerouted goes to its new channel, every other one where it went
before. -/
theorem find?_insert (o : Overrides) (kind k : Kind) (channel : Channel) :
    (o.insert kind channel).find? k = if k = kind then some channel else o.find? k := by
  unfold insert find?
  split
  · next h =>
    have : kind ∈ o.entries.map Prod.fst := h
    simp only [lookup_replaceIn, this, and_true]
  · next h =>
    have absent : o.entries.lookup kind = none := by
      rw [List.lookup_eq_none_iff]
      intro e he
      simp only [bne_iff_ne, ne_eq]
      intro same
      exact h (List.mem_map.2 ⟨e, he, same.symm⟩)
    simp only [List.lookup_append, List.lookup_cons, List.lookup_nil]
    by_cases hk : k = kind
    · subst hk
      simp [absent]
    · simp [hk, beq_eq_false_iff_ne.2 hk]

/-- The table that entering pairs one after the other leads to. -/
def ofList (pairs : List (Kind × Channel)) : Overrides :=
  pairs.foldl (fun o p => o.insert p.1 p.2) empty

/-- Whether two tables reroute the same kinds to the same channels, in whatever order. -/
def same (o p : Overrides) : Bool :=
  o.entries.length == p.entries.length && o.entries.all fun e => p.find? e.1 == some e.2

@[ext] theorem ext {o p : Overrides} (h : o.entries = p.entries) : o = p := by
  cases o; cases p; cases h; rfl

/-- A kind that is not rerouted yet is entered after all others. -/
theorem entries_insert_of_not_mem {o : Overrides} {kind : Kind} (h : kind ∉ o.kinds)
    (channel : Channel) : (o.insert kind channel).entries = o.entries ++ [(kind, channel)] := by
  unfold insert
  rw [dif_neg h]

/-- Entering pairs whose kinds are all new adds them in order. -/
theorem entries_foldl_insert {pairs : List (Kind × Channel)} {o : Overrides}
    (new : ((o.entries ++ pairs).map Prod.fst).Nodup) :
    (pairs.foldl (fun o p => o.insert p.1 p.2) o).entries = o.entries ++ pairs := by
  induction pairs generalizing o with
  | nil => rw [List.foldl_nil, List.append_nil]
  | cons p pairs ih =>
    have absent : p.1 ∉ o.kinds := by
      intro found
      rw [List.map_append, List.map_cons, List.nodup_append] at new
      exact new.2.2 p.1 found p.1 List.mem_cons_self rfl
    have entered := entries_insert_of_not_mem absent p.2
    have same : (o.insert p.1 p.2).entries ++ pairs = o.entries ++ p :: pairs := by
      rw [entered, List.append_assoc, List.singleton_append]
    rw [List.foldl_cons, ih (by rw [same]; exact new), same]

/-- A table is what entering its own entries leads to. -/
theorem ofList_entries (o : Overrides) : ofList o.entries = o :=
  ext (entries_foldl_insert (o := empty) o.nodup)

instance : DecidableEq Overrides := fun o p =>
  decidable_of_iff (o.entries = p.entries) ⟨ext, fun h => by rw [h]⟩

instance : Inhabited Overrides := ⟨empty⟩

end Overrides

end Lookahead
