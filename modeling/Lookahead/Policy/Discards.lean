import Lookahead.Token

/-!
# Discarded kinds

The kinds whose tokens never reach the buffer, in the order in which they were first named. A
kind that is named again changes nothing.
-/

namespace Lookahead

/-- A set of kinds in the order in which they were first entered. -/
structure Discards where
  kinds : List Kind
  nodup : kinds.Nodup := by simp

namespace Discards

/-- No kind is discarded. -/
def empty : Discards := { kinds := [] }

/-- Whether a kind is discarded. -/
def contains (d : Discards) (kind : Kind) : Bool := d.kinds.contains kind

/-- Discards one more kind. -/
def insert (d : Discards) (kind : Kind) : Discards :=
  if h : kind ∈ d.kinds then d
  else
    { kinds := d.kinds ++ [kind]
      nodup := by
        rw [List.nodup_append]
        refine ⟨d.nodup, by simp, ?_⟩
        intro a ha b hb
        simp only [List.mem_singleton] at hb
        subst hb
        intro e
        exact h (e ▸ ha) }

/-- A kind that has just been discarded is a member, and no other is that was not. -/
theorem contains_insert (d : Discards) (kind k : Kind) :
    (d.insert kind).contains k = (k == kind || d.contains k) := by
  unfold insert contains
  split
  · next h =>
    by_cases hk : k = kind
    · subst hk
      simp [h]
    · simp [hk]
  · rw [List.contains_eq_mem, List.contains_eq_mem]
    by_cases hk : k = kind <;> simp [hk]

/-- The set that entering kinds one after the other leads to. -/
def ofList (kinds : List Kind) : Discards := kinds.foldl insert empty

/-- Whether two sets have the same members, in whatever order. -/
def same (d e : Discards) : Bool :=
  d.kinds.length == e.kinds.length && d.kinds.all e.contains

@[ext] theorem ext {d e : Discards} (h : d.kinds = e.kinds) : d = e := by
  cases d; cases e; cases h; rfl

theorem kinds_insert_of_not_mem {d : Discards} {kind : Kind} (h : kind ∉ d.kinds) :
    (d.insert kind).kinds = d.kinds ++ [kind] := by
  unfold insert
  rw [dif_neg h]

theorem kinds_foldl_insert {kinds : List Kind} {d : Discards} (new : (d.kinds ++ kinds).Nodup) :
    (kinds.foldl insert d).kinds = d.kinds ++ kinds := by
  induction kinds generalizing d with
  | nil => rw [List.foldl_nil, List.append_nil]
  | cons kind kinds ih =>
    have absent : kind ∉ d.kinds := by
      intro found
      exact (List.nodup_append.1 new).2.2 kind found kind List.mem_cons_self rfl
    have same : (d.insert kind).kinds ++ kinds = d.kinds ++ kind :: kinds := by
      rw [kinds_insert_of_not_mem absent, List.append_assoc, List.singleton_append]
    rw [List.foldl_cons, ih (by rw [same]; exact new), same]

/-- A set is what entering its own members leads to. -/
theorem ofList_kinds (d : Discards) : ofList d.kinds = d :=
  ext (kinds_foldl_insert (d := empty) d.nodup)

instance : DecidableEq Discards := fun d e =>
  decidable_of_iff (d.kinds = e.kinds) ⟨ext, fun h => by rw [h]⟩

instance : Inhabited Discards := ⟨empty⟩

end Discards

end Lookahead
