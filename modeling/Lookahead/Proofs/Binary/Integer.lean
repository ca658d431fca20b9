import Mathlib.Algebra.Group.Nat.Defs
import Lookahead.Binary.Integer
import Lookahead.Proofs.Binary.Reader

/-!
# Integers of variable width are read back

The lowest bytes of a number that has no others spell it (`ofLowBytes_lowBytes`), so what is written
of an integer is read back at every width, if the reader's type allows the integer
(`reads_encode`).
-/

namespace Lookahead.Binary

namespace Integer

theorem length_lowBytes (width n : Nat) : (lowBytes width n).length = width := by
  induction width generalizing n with
  | zero => rfl
  | succ width ih => rw [lowBytes, List.length_cons, ih]

theorem ofLowBytes_lowBytes {width n : Nat} (fits : n < 256 ^ width) :
    ofLowBytes (lowBytes width n) = n := by
  induction width generalizing n with
  | zero =>
    rw [Nat.pow_zero, Nat.lt_one_iff] at fits
    rw [fits]
    rfl
  | succ width ih =>
    have higher : n / 256 < 256 ^ width :=
      Nat.div_lt_of_lt_mul (by rwa [Nat.pow_succ, Nat.mul_comm] at fits)
    rw [lowBytes, ofLowBytes, ih higher, UInt8.toNat_ofNat']
    exact Nat.mod_add_div n 256

/-- A byte that is an integer itself. -/
theorem reads_small (widest : Nat) {n : Nat} (small : n < 251) :
    Reads (read widest) [UInt8.ofNat n] n := by
  have same : (UInt8.ofNat n).toNat = n := UInt8.toNat_ofNat_of_lt' (by rw [UInt8.size]; omega)
  have below : UInt8.ofNat n < twoBytes := by
    rw [UInt8.lt_iff_toNat_lt, same]
    exact small
  have alone : following widest (UInt8.ofNat n) = .ok 0 := by
    simp only [following, if_pos below, Nat.zero_le, if_true]
  have last : Reads (pure (UInt8.ofNat n).toNat : Reader Nat) [] n := by
    rw [same]
    exact reads_pure n
  exact (reads_byte (UInt8.ofNat n)).bind (reads_lift alone last)

/-- A byte that tells the width, and that many bytes. -/
theorem reads_wide {widest width n : Nat} {tag : UInt8}
    (told : following widest tag = .ok (width + 1)) (fits : n < 256 ^ (width + 1)) :
    Reads (read widest) (tag :: lowBytes (width + 1) n) n := by
  have low :
      Reads (Reader.bytes (width + 1)) (lowBytes (width + 1) n) (lowBytes (width + 1) n) := by
    have all := reads_bytes (lowBytes (width + 1) n)
    rwa [length_lowBytes] at all
  have spelled : Reads (Reader.bytes (width + 1) >>= fun low => pure (ofLowBytes low))
      (lowBytes (width + 1) n) n := by
    have read := low.map ofLowBytes
    rwa [ofLowBytes_lowBytes fits] at read
  exact (reads_byte tag).bind (reads_lift told spelled)

/-- An integer is read back by a reader for at least four bytes, and for eight if it needs them. -/
theorem reads_encode {widest n : Nat} (wide : 4 ≤ widest)
    (fits : n < UInt32.size ∨ 8 ≤ widest ∧ n < UInt64.size) :
    Reads (read widest) (encode n) n := by
  unfold encode
  split
  · next small => exact reads_small widest small
  · split
    · next two =>
      have told : following widest twoBytes = .ok 2 := by
        have room : 2 ≤ widest := by omega
        simp [following, room, twoBytes]
      exact reads_wide told two
    · split
      · next four =>
        have told : following widest fourBytes = .ok 4 := by
          simp [following, wide, twoBytes, fourBytes]
        exact reads_wide told four
      · next large =>
        obtain ⟨room, eight⟩ := fits.resolve_left large
        have told : following widest eightBytes = .ok 8 := by
          simp [following, room, twoBytes, fourBytes, eightBytes]
        exact reads_wide told eight

end Integer

/-! ## The types of integers -/

theorem reads_code (n : UInt32) : Reads readCode (encodeCode n) n := by
  have read := (Integer.reads_encode (Nat.le_refl 4) (Or.inl n.toNat_lt)).map UInt32.ofNat
  rwa [UInt32.ofNat_toNat] at read

theorem reads_word (n : UInt64) : Reads readWord (encodeWord n) n := by
  have fits : n.toNat < UInt64.size := n.toNat_lt
  have read := (Integer.reads_encode (by decide) (Or.inr ⟨Nat.le_refl 8, fits⟩)).map UInt64.ofNat
  rwa [UInt64.ofNat_toNat] at read

theorem reads_count {n : Nat} (fits : n < UInt64.size) : Reads readCount (Integer.encode n) n :=
  Integer.reads_encode (by decide) (Or.inr ⟨Nat.le_refl 8, fits⟩)

end Lookahead.Binary
