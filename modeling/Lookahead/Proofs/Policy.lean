import Mathlib.Data.List.Induction
import Mathlib.Data.List.Nodup
import Mathlib.Data.List.Perm.Subperm
import Lookahead.Policy

/-!
# The entries of a policy

Sets of kinds and tables of overrides compare equal exactly if they answer alike for every kind,
whatever the order of their entries (`Discards.same_iff`, `Overrides.same_iff`). The order is the
one in which the kinds were first entered, and of the channels that a kind was given the last one
counts (`Discards.kinds_ofList`, `Overrides.kinds_ofList`, `Overrides.find?_ofList`).
-/

namespace Lookahead

/-! ## Sets of kinds in any order -/

theorem Discards.contains_iff {d : Discards} {kind : Kind} :
    d.contains kind = true ↔ kind ∈ d.kinds := by
  rw [Discards.contains, List.contains_iff_mem]

/-- Sets compare equal if the same kinds are in both. -/
theorem Discards.same_iff {d e : Discards} :
    d.same e = true ↔ ∀ kind, d.contains kind = e.contains kind := by
  rw [Discards.same, Bool.and_eq_true, beq_iff_eq, List.all_eq_true]
  constructor
  · rintro ⟨length, sub⟩ kind
    have within : d.kinds ⊆ e.kinds := fun k member => contains_iff.1 (sub k member)
    have perm : d.kinds.Perm e.kinds :=
      (List.subperm_of_subset d.nodup within).perm_of_length_le (Nat.le_of_eq length.symm)
    rw [Bool.eq_iff_iff, contains_iff, contains_iff, perm.mem_iff]
  · intro alike
    have perm : d.kinds.Perm e.kinds := by
      refine (List.perm_ext_iff_of_nodup d.nodup e.nodup).2 fun kind => ?_
      rw [← contains_iff, ← contains_iff, alike]
    exact ⟨perm.length_eq, fun kind member => contains_iff.2 (perm.mem_iff.1 member)⟩

/-! ## Tables in any order -/

namespace Overrides

theorem nodup_entries (o : Overrides) : o.entries.Nodup :=
  List.Nodup.of_map Prod.fst o.nodup

/-- A kind is rerouted to the channel in its entry. -/
theorem find?_eq_some_iff {o : Overrides} {kind : Kind} {channel : Channel} :
    o.find? kind = some channel ↔ (kind, channel) ∈ o.entries := by
  obtain ⟨entries, nodup⟩ := o
  show entries.lookup kind = some channel ↔ (kind, channel) ∈ entries
  induction entries with
  | nil => simp
  | cons e rest ih =>
    obtain ⟨k, c⟩ := e
    rw [List.map_cons, List.nodup_cons] at nodup
    rw [List.lookup_cons, List.mem_cons, Prod.mk.injEq]
    by_cases here : kind = k
    · subst here
      have once : (kind, channel) ∉ rest := fun again =>
        nodup.1 (List.mem_map.2 ⟨_, again, rfl⟩)
      simp [once, eq_comm]
    · rw [beq_eq_false_iff_ne.2 here]
      simp [here, ih nodup.2]

/-- Tables compare equal if every kind is rerouted alike in both. -/
theorem same_iff {o p : Overrides} :
    o.same p = true ↔ ∀ kind, o.find? kind = p.find? kind := by
  rw [Overrides.same, Bool.and_eq_true, beq_iff_eq, List.all_eq_true]
  constructor
  · rintro ⟨length, sub⟩ kind
    have within : o.entries ⊆ p.entries := fun e member =>
      find?_eq_some_iff.1 (beq_iff_eq.1 (sub e member))
    have perm : o.entries.Perm p.entries :=
      (List.subperm_of_subset o.nodup_entries within).perm_of_length_le (Nat.le_of_eq length.symm)
    ext channel
    rw [find?_eq_some_iff, find?_eq_some_iff, perm.mem_iff]
  · intro alike
    have perm : o.entries.Perm p.entries := by
      refine (List.perm_ext_iff_of_nodup o.nodup_entries p.nodup_entries).2 fun e => ?_
      rw [← find?_eq_some_iff, ← find?_eq_some_iff, alike]
    exact ⟨perm.length_eq, fun e member =>
      beq_iff_eq.2 (find?_eq_some_iff.2 (perm.mem_iff.1 member))⟩

end Overrides

/-! ## Entries that are made more than once -/

/-- The last of some kinds counts only if it has not come before. -/
theorem eraseDups_concat (kinds : List Kind) (kind : Kind) :
    (kinds ++ [kind]).eraseDups =
      if kind ∈ kinds.eraseDups then kinds.eraseDups else kinds.eraseDups ++ [kind] := by
  rw [List.eraseDups_append, List.removeAll]
  by_cases known : kind ∈ kinds
  · simp [known]
  · simp [known, List.eraseDups_cons]

namespace Discards

theorem kinds_insert (d : Discards) (kind : Kind) :
    (d.insert kind).kinds = if kind ∈ d.kinds then d.kinds else d.kinds ++ [kind] := by
  by_cases known : kind ∈ d.kinds
  · rw [if_pos known, insert, dif_pos known]
  · rw [if_neg known, kinds_insert_of_not_mem known]

/-- Kinds are kept in the order in which they first come. -/
theorem kinds_ofList (kinds : List Kind) : (ofList kinds).kinds = kinds.eraseDups := by
  induction kinds using List.reverseRecOn with
  | nil => rfl
  | append_singleton kinds kind ih =>
    rw [ofList, List.foldl_concat, ← ofList, kinds_insert, ih, eraseDups_concat]

end Discards

namespace Overrides

theorem kinds_insert (o : Overrides) (kind : Kind) (channel : Channel) :
    (o.insert kind channel).kinds = if kind ∈ o.kinds then o.kinds else o.kinds ++ [kind] := by
  by_cases known : kind ∈ o.kinds
  · rw [if_pos known, insert, dif_pos known]
    exact map_fst_replaceIn kind channel o.entries
  · rw [if_neg known, kinds, entries_insert_of_not_mem known, List.map_append]
    rfl

/-- Kinds are kept in the order in which they first come. -/
theorem kinds_ofList (pairs : List (Kind × Channel)) :
    (ofList pairs).kinds = (pairs.map Prod.fst).eraseDups := by
  induction pairs using List.reverseRecOn with
  | nil => rfl
  | append_singleton pairs p ih =>
    rw [ofList, List.foldl_concat, ← ofList, kinds_insert, ih, List.map_append, List.map_singleton,
      eraseDups_concat]

/-- The channel that a kind is given last is the one it has. -/
theorem find?_ofList (pairs : List (Kind × Channel)) (kind : Kind) :
    (ofList pairs).find? kind = pairs.reverse.lookup kind := by
  induction pairs using List.reverseRecOn with
  | nil => rfl
  | append_singleton pairs p ih =>
    rw [ofList, List.foldl_concat, ← ofList, find?_insert, ih, List.reverse_concat,
      List.lookup_cons]
    by_cases same : kind = p.1
    · simp [same]
    · simp [same, beq_eq_false_iff_ne.2 same]

/-- A table is determined by its kinds, in order, and their channels. -/
theorem eq_of_kinds {o p : Overrides} (kinds : o.kinds = p.kinds)
    (channels : ∀ kind, o.find? kind = p.find? kind) : o = p := by
  have entries (q : Overrides) :
      q.entries = q.kinds.map fun kind => (kind, (q.find? kind).getD .standard) := by
    rw [Overrides.kinds, List.map_map]
    refine (List.map_id _).symm.trans (List.map_congr_left fun e member => ?_)
    have found : q.find? e.1 = some e.2 := find?_eq_some_iff.2 member
    rw [Function.comp_apply, found]
    rfl
  apply ext
  rw [entries o, entries p, kinds]
  simp only [channels]

end Overrides

end Lookahead
