import Mathlib.Data.Bool.Basic
import Lookahead.Proofs.KindSet.Search

/-!
# Members of a set of kinds

The two halves of a set act as one. A dense code is a member if its bit is set, and a change of a
bit leaves all other bits alone (`hasBit_modify`); any other code is a member if it is in the
ascending array. So `insert` and `remove` change the one code they name, tell whether that changed
anything, and keep the set well-formed (`insert_spec`, `remove_spec`).

A `History` is how a set was made. Its last entry that names a code decides whether the code is a
member (`contains_iff_of_history`).
-/

namespace Lookahead

/-! ## Bits of a word -/

namespace Word

theorem toBitVec_single {i : Nat} (hi : i < 64) : (single i).toBitVec = BitVec.twoPow 64 i := by
  have within : (UInt64.ofNat i).toBitVec % 64 = BitVec.ofNat 64 i := by
    apply BitVec.eq_of_toNat_eq
    simp only [UInt64.toBitVec_ofNat', BitVec.toNat_umod, BitVec.toNat_ofNat, BitVec.reduceToNat]
    omega
  have amount : (BitVec.ofNat 64 i).toNat = i := by
    rw [BitVec.toNat_ofNat]
    omega
  rw [single, UInt64.toBitVec_shiftLeft, within, BitVec.shiftLeft_eq', amount, BitVec.twoPow_eq]
  rfl

theorem has_eq_getLsbD {i : Nat} (hi : i < 64) (w : UInt64) :
    has w i = w.toBitVec.getLsbD i := by
  have nonzero : BitVec.twoPow 64 i ≠ 0#64 := by
    intro zero
    have bit := congrArg (·.getLsbD i) zero
    simp [hi] at bit
  rw [has, Bool.eq_iff_iff, bne_iff_ne, ne_eq, ← UInt64.toBitVec_inj, UInt64.toBitVec_and,
    toBitVec_single hi, BitVec.and_twoPow]
  split
  · next on => exact iff_of_true nonzero on
  · next off => exact iff_of_false (fun differ => differ rfl) off

variable {i j : Nat} (hi : i < 64) (hj : j < 64) (w : UInt64)

include hi hj

theorem has_set : has (set w i) j = if j = i then true else has w j := by
  rw [has_eq_getLsbD hj, has_eq_getLsbD hj, set, UInt64.toBitVec_or, BitVec.getLsbD_or,
    toBitVec_single hi, BitVec.getLsbD_twoPow]
  by_cases same : j = i
  · simp [same, hi]
  · simp [same, Ne.symm same]

theorem has_clear : has (clear w i) j = if j = i then false else has w j := by
  rw [has_eq_getLsbD hj, has_eq_getLsbD hj, clear, UInt64.toBitVec_and, UInt64.toBitVec_not,
    BitVec.getLsbD_and, BitVec.getLsbD_not, toBitVec_single hi, BitVec.getLsbD_twoPow]
  by_cases same : j = i
  · simp [same, hi]
  · simp [same, Ne.symm same, hj]

omit hi hj in
theorem has_zero (i : Nat) : has 0 i = false := by
  simp [has]

end Word

namespace KindSet

/-! ## The dense half -/

section Dense

variable {s : KindSet} {kind : Kind}

theorem bitOf_lt (kind : Kind) : bitOf kind < 64 := Nat.mod_lt _ (by decide)

/-- Word and bit tell a code. -/
theorem eq_of_wordOf_bitOf {k : Kind} (word : wordOf k = wordOf kind) (bit : bitOf k = bitOf kind) :
    k = kind := by
  unfold wordOf at word
  unfold bitOf at bit
  exact UInt32.toNat_inj.1 (by omega)

theorem wordOf_lt (dense : isDense kind = true) : wordOf kind < 64 := by
  have below : kind.toNat < 4096 := of_decide_eq_true dense
  unfold wordOf
  omega

/-- A change of one bit of a word changes what is to be said of one code. -/
theorem hasBit_modify {change : UInt64 → UInt64} {b : Bool}
    (one : ∀ w j, j < 64 → Word.has (change w) j = if j = bitOf kind then b else Word.has w j)
    (room : wordOf kind < s.words.size) (k : Kind) :
    hasBit { s with words := s.words.modify (wordOf kind) change } k =
      if k = kind then b else s.hasBit k := by
  rw [hasBit, hasBit, Array.getElem?_modify]
  by_cases word : wordOf kind = wordOf k
  · have held : s.words[wordOf k]? = some s.words[wordOf kind] := by
      rw [← word]
      exact Array.getElem?_eq_getElem room
    rw [if_pos word, held, Option.map_some, Option.any_some, Option.any_some,
      one _ _ (bitOf_lt k)]
    by_cases same : k = kind
    · rw [if_pos same, if_pos (congrArg bitOf same)]
    · rw [if_neg same, if_neg fun bit => same (eq_of_wordOf_bitOf word.symm bit)]
  · have other : k ≠ kind := fun same => word (congrArg wordOf same.symm)
    rw [if_neg word, if_neg other]

/-- More room does not set any bits. -/
theorem hasBit_reaching (s : KindSet) (i : Nat) (k : Kind) :
    (s.reaching i).hasBit k = s.hasBit k := by
  rw [hasBit, hasBit, reaching, Array.getElem?_append]
  split
  · rfl
  · next beyond =>
    rw [Array.getElem?_eq_none (Nat.le_of_not_lt beyond), Array.getElem?_replicate]
    split
    · rw [Option.any_some, Word.has_zero, Option.any_none]
    · rfl

theorem size_reaching (s : KindSet) (i : Nat) :
    (s.reaching i).words.size = max s.words.size (i + 1) := by
  rw [reaching, Array.size_append, Array.size_replicate]
  omega

theorem room_of_hasBit (h : s.hasBit kind = true) : wordOf kind < s.words.size := by
  by_contra beyond
  rw [hasBit, Array.getElem?_eq_none (Nat.le_of_not_lt beyond)] at h
  cases h

end Dense

/-! ## Well-formed sets -/

/-- The array is in strictly ascending order and holds no dense code, and there are no more words
than the dense codes need. -/
structure WellFormed (s : KindSet) : Prop where
  ordered : Ascending.Ordered s.sparse
  large : ∀ k ∈ s.sparse, isDense k = false
  words : s.words.size ≤ 64

variable {s : KindSet}

theorem wellFormed_withRoom {n : Nat} (le : n ≤ 64) : (withRoom n).WellFormed where
  ordered := List.Pairwise.nil
  large k member := absurd member (Array.not_mem_empty k)
  words := by
    rw [withRoom, Array.size_replicate]
    exact le

theorem contains_eq (ordered : Ascending.Ordered s.sparse) (k : Kind) :
    s.contains k = if isDense k then s.hasBit k else decide (k ∈ s.sparse) := by
  unfold contains
  split
  · rfl
  · rcases Ascending.search_cases ordered k with ⟨i, found, held⟩ | ⟨i, vacant, absent, -⟩
    · have member : k ∈ s.sparse := held ▸ Array.getElem_mem i.2
      rw [found, decide_eq_true member]
    · rw [vacant, decide_eq_false absent]

/-- The empty sets have no members. -/
theorem contains_withRoom (n : Nat) (k : Kind) : (withRoom n).contains k = false := by
  rw [contains_eq List.Pairwise.nil, hasBit, withRoom, Array.getElem?_replicate]
  split
  · split
    · rw [Option.any_some, Word.has_zero]
    · rfl
  · exact decide_eq_false (Array.not_mem_empty k)

/-- A set whose halves differ from those of another in one code differs from it in that code. -/
theorem contains_of_halves {t : KindSet} {kind : Kind} {b : Bool}
    (ordered : Ascending.Ordered s.sparse) (ordered' : Ascending.Ordered t.sparse)
    (dense : ∀ k, isDense k = true → t.hasBit k = if k = kind then b else s.hasBit k)
    (sparse : ∀ k, isDense k = false → (k ∈ t.sparse ↔ if k = kind then b = true else k ∈ s.sparse))
    (k : Kind) : t.contains k = if k = kind then b else s.contains k := by
  rw [contains_eq ordered', contains_eq ordered]
  cases half : isDense k with
  | true =>
    rw [if_pos rfl, if_pos rfl]
    exact dense k half
  | false =>
    rw [if_neg Bool.false_ne_true, if_neg Bool.false_ne_true, Bool.eq_iff_iff, decide_eq_true_iff,
      sparse k half]
    split
    · rfl
    · exact decide_eq_true_iff.symm

/-! ## Putting in and taking out -/

section

variable {kind : Kind}

theorem ne_of_dense {k : Kind} (dense : isDense kind = true) (sparse : isDense k = false) :
    k ≠ kind := by
  rintro rfl
  rw [dense] at sparse
  cases sparse

theorem insert_of_dense (dense : isDense kind = true) :
    s.insert kind = (!(s.reaching (wordOf kind)).hasBit kind,
      { words := (s.reaching (wordOf kind)).words.modify (wordOf kind) (Word.set · (bitOf kind))
        sparse := s.sparse }) := by
  unfold insert
  rw [if_pos dense]
  rfl

theorem insert_of_found {i : Fin s.sparse.size} (sparse : isDense kind = false)
    (found : Ascending.search s.sparse kind = .found i) : s.insert kind = (false, s) := by
  unfold insert
  rw [if_neg (by simp [sparse]), found]

theorem insert_of_vacant {i : Fin (s.sparse.size + 1)} (inside : i ≤ s.sparse.size)
    (sparse : isDense kind = false) (vacant : Ascending.search s.sparse kind = .vacant i) :
    s.insert kind = (true, { s with sparse := s.sparse.insertIdx i kind inside }) := by
  unfold insert
  rw [if_neg (by simp [sparse]), vacant]

theorem remove_of_hasBit (dense : isDense kind = true) (on : s.hasBit kind = true) :
    s.remove kind =
      (true, { s with words := s.words.modify (wordOf kind) (Word.clear · (bitOf kind)) }) := by
  unfold remove
  rw [if_pos dense, if_pos on]

theorem remove_of_found {i : Fin s.sparse.size} (inside : i < s.sparse.size)
    (sparse : isDense kind = false) (found : Ascending.search s.sparse kind = .found i) :
    s.remove kind = (true, { s with sparse := s.sparse.eraseIdx i inside }) := by
  unfold remove
  rw [if_neg (by simp [sparse]), found]

/-- Nothing is taken out where nothing is. -/
theorem remove_of_absent (absent : s.contains kind = false) : s.remove kind = (false, s) := by
  unfold remove
  unfold contains at absent
  split
  · next dense =>
    rw [if_pos dense] at absent
    rw [if_neg (by simp [absent])]
  · next sparse =>
    rw [if_neg sparse] at absent
    split at absent
    · cases absent
    · rfl

/-- A code is added to the members, and the answer is whether it was none before. -/
theorem insert_spec (h : s.WellFormed) (kind : Kind) :
    (s.insert kind).2.WellFormed ∧ (s.insert kind).1 = !s.contains kind ∧
      ∀ k, (s.insert kind).2.contains k = if k = kind then true else s.contains k := by
  have contained := contains_eq h.ordered kind
  cases half : isDense kind with
  | true =>
    rw [half, if_pos rfl] at contained
    have room : wordOf kind < (s.reaching (wordOf kind)).words.size := by
      rw [size_reaching]
      omega
    have words : (s.reaching (wordOf kind)).words.size ≤ 64 := by
      have word := wordOf_lt half
      have few := h.words
      rw [size_reaching]
      omega
    rw [insert_of_dense half, hasBit_reaching]
    refine ⟨⟨h.ordered, h.large, by rwa [Array.size_modify]⟩, by rw [contained], ?_⟩
    refine contains_of_halves h.ordered h.ordered (fun k _ => ?_) fun k sparse => ?_
    · rw [← hasBit_reaching s (wordOf kind) k]
      exact hasBit_modify (fun w j hj => Word.has_set (bitOf_lt kind) hj w) room k
    · rw [if_neg (ne_of_dense half sparse)]
  | false =>
    rw [half, if_neg Bool.false_ne_true] at contained
    rcases Ascending.search_cases h.ordered kind with
      ⟨i, found, held⟩ | ⟨i, vacant, absent, ordered⟩
    · rw [decide_eq_true (held ▸ Array.getElem_mem i.2)] at contained
      rw [insert_of_found half found, contained]
      refine ⟨h, rfl, fun k => ?_⟩
      split
      · next same => rw [same, contained]
      · rfl
    · rw [decide_eq_false absent] at contained
      rw [insert_of_vacant (Nat.le_of_lt_succ i.2) half vacant, contained]
      have member (k : Kind) : k ∈ s.sparse.insertIdx i kind ↔ k = kind ∨ k ∈ s.sparse :=
        Array.mem_insertIdx
      refine ⟨⟨ordered, fun k hk => ?_, h.words⟩, rfl, ?_⟩
      · rcases (member k).1 hk with rfl | old
        · exact half
        · exact h.large k old
      · refine contains_of_halves h.ordered ordered (fun k dense => ?_) fun k _ => ?_
        · rw [if_neg (ne_of_dense dense half).symm]
          rfl
        · rw [member]
          split
          · next same => exact iff_of_true (Or.inl same) rfl
          · next other => exact or_iff_right other

/-- A code is taken out of the members, and the answer is whether it was one before. -/
theorem remove_spec (h : s.WellFormed) (kind : Kind) :
    (s.remove kind).2.WellFormed ∧ (s.remove kind).1 = s.contains kind ∧
      ∀ k, (s.remove kind).2.contains k = if k = kind then false else s.contains k := by
  cases contained : s.contains kind with
  | false =>
    rw [remove_of_absent contained]
    refine ⟨h, rfl, fun k => ?_⟩
    split
    · next same => rw [same, contained]
    · rfl
  | true =>
    rw [contains_eq h.ordered] at contained
    cases half : isDense kind with
    | true =>
      rw [half, if_pos rfl] at contained
      rw [remove_of_hasBit half contained]
      refine ⟨⟨h.ordered, h.large, by rw [Array.size_modify]; exact h.words⟩, rfl, ?_⟩
      refine contains_of_halves h.ordered h.ordered (fun k _ => ?_) fun k sparse => ?_
      · exact hasBit_modify (fun w j hj => Word.has_clear (bitOf_lt kind) hj w)
          (room_of_hasBit contained) k
      · rw [if_neg (ne_of_dense half sparse)]
    | false =>
      rw [half, if_neg Bool.false_ne_true, decide_eq_true_iff] at contained
      rcases Ascending.search_cases h.ordered kind with ⟨i, found, held⟩ | ⟨i, -, absent, -⟩
      · have ordered := Ascending.ordered_eraseIdx h.ordered i
        have member (k : Kind) : k ∈ s.sparse.eraseIdx i ↔ k ≠ kind ∧ k ∈ s.sparse := by
          rw [Ascending.mem_eraseIdx h.ordered, held]
        rw [remove_of_found i.2 half found]
        refine ⟨⟨ordered, fun k hk => h.large k ((member k).1 hk).2, h.words⟩, rfl, ?_⟩
        refine contains_of_halves h.ordered ordered (fun k dense => ?_) fun k _ => ?_
        · rw [if_neg (ne_of_dense dense half).symm]
          rfl
        · rw [member]
          split
          · next same => exact iff_of_false (fun left => left.1 same) Bool.false_ne_true
          · next other => exact and_iff_right other
      · exact absurd contained absent

end

/-! ## Sets and how they were made -/

/-- How a set was made. -/
inductive History
  /-- Made empty, with some room. -/
  | fresh
  /-- Made empty, without room. -/
  | empty
  /-- Collected from a list. -/
  | ofList (kinds : List Kind)
  /-- Copied from a set with a history of its own. -/
  | clone (h : History)
  /-- A code was put in. -/
  | insert (h : History) (kind : Kind)
  /-- A code was taken out. -/
  | remove (h : History) (kind : Kind)

namespace History

/-- The set that was made. -/
def set : History → KindSet
  | fresh => .fresh
  | empty => .empty
  | ofList kinds => .ofList kinds
  | clone h => h.set
  | insert h kind => (h.set.insert kind).2
  | remove h kind => (h.set.remove kind).2

/-- Whether a code was put in or taken out when it was named last. -/
def last? (kind : Kind) : History → Option Bool
  | fresh => none
  | empty => none
  | ofList kinds => if kind ∈ kinds then some true else none
  | clone h => h.last? kind
  | insert h k => if kind = k then some true else h.last? kind
  | remove h k => if kind = k then some false else h.last? kind

end History

/-- A set that is collected from a list has the members of the list, besides those of the set it
starts from. -/
theorem foldl_insert_spec (kinds : List Kind) {s : KindSet} (h : s.WellFormed) :
    (kinds.foldl (fun s kind => (s.insert kind).2) s).WellFormed ∧
      ∀ k, (kinds.foldl (fun s kind => (s.insert kind).2) s).contains k = true ↔
        k ∈ kinds ∨ s.contains k = true := by
  induction kinds generalizing s with
  | nil => exact ⟨h, fun k => by simp⟩
  | cons kind kinds ih =>
    obtain ⟨wellFormed, -, inserted⟩ := insert_spec h kind
    obtain ⟨wellFormed', members⟩ := ih wellFormed
    refine ⟨wellFormed', fun k => ?_⟩
    rw [List.foldl_cons, members, inserted, List.mem_cons]
    by_cases same : k = kind
    · simp [same]
    · simp [same]

theorem ofList_spec (kinds : List Kind) :
    (ofList kinds).WellFormed ∧ ∀ k, (ofList kinds).contains k = true ↔ k ∈ kinds := by
  have start : fresh.WellFormed := wellFormed_withRoom (by decide)
  obtain ⟨wellFormed, members⟩ := foldl_insert_spec kinds start
  refine ⟨wellFormed, fun k => (members k).trans ?_⟩
  rw [fresh, contains_withRoom]
  simp

theorem History.set_spec (h : History) :
    h.set.WellFormed ∧ ∀ k, h.set.contains k = true ↔ h.last? k = some true := by
  induction h with
  | fresh =>
    refine ⟨wellFormed_withRoom (by decide), fun k => ?_⟩
    rw [set, KindSet.fresh, contains_withRoom]
    exact iff_of_false Bool.false_ne_true (by simp [last?])
  | empty =>
    refine ⟨wellFormed_withRoom (Nat.zero_le 64), fun k => ?_⟩
    rw [set, show KindSet.empty = withRoom 0 from rfl, contains_withRoom]
    exact iff_of_false Bool.false_ne_true (by simp [last?])
  | ofList kinds =>
    obtain ⟨wellFormed, members⟩ := ofList_spec kinds
    refine ⟨wellFormed, fun k => (members k).trans ?_⟩
    rw [last?]
    simp
  | clone h ih => exact ih
  | insert h kind ih =>
    obtain ⟨wellFormed, -, inserted⟩ := insert_spec ih.1 kind
    refine ⟨wellFormed, fun k => ?_⟩
    rw [set, inserted, last?]
    split
    · exact iff_of_true rfl rfl
    · exact ih.2 k
  | remove h kind ih =>
    obtain ⟨wellFormed, -, removed⟩ := remove_spec ih.1 kind
    refine ⟨wellFormed, fun k => ?_⟩
    rw [set, removed, last?]
    split
    · exact iff_of_false Bool.false_ne_true (by simp)
    · exact ih.2 k

/-- However a set was made, its array is in strictly ascending order and holds codes from 4096 on
only, and it has at most 64 words. Its members are the codes that were put in when they were named
last. To put a code in, or to take one out, tells whether that code was absent, or present, and
changes nothing for any other code. -/
theorem contains_iff_of_history (h : History) :
    (h.set.sparse.toList.Pairwise (· < ·) ∧ (∀ k ∈ h.set.sparse, 4096 ≤ k.toNat) ∧
        h.set.words.size ≤ 64) ∧
      (∀ k, h.set.contains k = true ↔ h.last? k = some true) ∧
      ∀ kind,
        (((h.set.insert kind).1 = true ↔ h.set.contains kind = false) ∧
          ∀ k, (h.set.insert kind).2.contains k = true ↔ k = kind ∨ h.set.contains k = true) ∧
        (((h.set.remove kind).1 = true ↔ h.set.contains kind = true) ∧
          ∀ k, (h.set.remove kind).2.contains k = true ↔ k ≠ kind ∧ h.set.contains k = true) := by
  obtain ⟨wellFormed, members⟩ := h.set_spec
  have large : ∀ k ∈ h.set.sparse, 4096 ≤ k.toNat := by
    intro k member
    have sparse := wellFormed.large k member
    exact Nat.le_of_not_lt (of_decide_eq_false sparse)
  refine ⟨⟨wellFormed.ordered, large, wellFormed.words⟩, members, fun kind => ?_⟩
  obtain ⟨-, absent, inserted⟩ := insert_spec wellFormed kind
  obtain ⟨-, present, removed⟩ := remove_spec wellFormed kind
  refine ⟨⟨?_, fun k => ?_⟩, ?_, fun k => ?_⟩
  · rw [absent, Bool.not_eq_true']
  · rw [inserted]
    by_cases same : k = kind <;> simp [same]
  · rw [present]
  · rw [removed]
    by_cases same : k = kind <;> simp [same]

end KindSet

end Lookahead
