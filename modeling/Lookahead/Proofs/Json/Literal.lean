import Lookahead.Json.Literal

/-!
# String literals are read as they are spelled

A literal is valid if each of its pieces can stand in a string the way it is spelled. The spelling
of a valid literal is read back as the literal (`scan?_spell`), and the literal that spells a text
is valid and means that text (`text?_ofText`).
-/

namespace Lookahead.Json

/-- Whether a piece can stand in a string the way it is spelled. -/
def Piece.Valid : Piece → Prop
  | .plain c => c ≠ '"' ∧ c ≠ '\\' ∧ isControl c = false
  | .escaped c => escapeMeaning? (escapeMark c) = some c
  | .unit code => code < 65536

namespace Literal

/-- Whether all pieces can stand in a string the way they are spelled. -/
def Valid (pieces : Literal) : Prop := ∀ p ∈ pieces, p.Valid

/-! ## One piece -/

theorem scan?_plain {c : Char} (quote : c ≠ '"') (slash : c ≠ '\\') (control : isControl c = false)
    (cs : List Char) : scan? (c :: cs) = (scan? cs).map fun r => (.plain c :: r.1, r.2) := by
  rw [scan?]
  · rw [if_neg (by simp [slash, control])]
    rcases scan? cs with _ | ⟨pieces, rest⟩ <;> rfl
  · exact quote
  · intro _ _ _ _ _ e
    exact fun _ => slash e
  · intro _ _ e
    exact fun _ => slash e

theorem scan?_escaped {mark c : Char} (h : escapeMeaning? mark = some c) (cs : List Char) :
    scan? ('\\' :: mark :: cs) = (scan? cs).map fun r => (.escaped c :: r.1, r.2) := by
  have other : mark ≠ 'u' := by
    intro e
    subst e
    cases h
  rw [scan?]
  · rw [h]
    rcases scan? cs with _ | ⟨pieces, rest⟩ <;> rfl
  · intro _ _ _ _ _ e
    exact fun _ => other e

theorem scan?_unit {a b c d : Char} {code : Nat} (h : unitValue? a b c d = some code)
    (cs : List Char) :
    scan? ('\\' :: 'u' :: a :: b :: c :: d :: cs) =
      (scan? cs).map fun r => (.unit code :: r.1, r.2) := by
  rw [scan?, h]
  rcases scan? cs with _ | ⟨pieces, rest⟩ <;> rfl

theorem hexValue?_digitChar {n : Nat} (h : n < 16) : hexValue? (Nat.digitChar n) = some n := by
  revert h n
  decide

/-- Four digits spell a code unit. -/
theorem unitValue?_unitDigits {code : Nat} (h : code < 65536) :
    ∃ a b c d, unitDigits code = [a, b, c, d] ∧ unitValue? a b c d = some code := by
  have low (n : Nat) : hexValue? (Nat.digitChar (n % 16)) = some (n % 16) :=
    hexValue?_digitChar (Nat.mod_lt n (by decide))
  refine ⟨_, _, _, _, rfl, ?_⟩
  rw [unitValue?, low, low, low, low]
  have whole : ((code / 4096 % 16 * 16 + code / 256 % 16) * 16 + code / 16 % 16) * 16 + code % 16 =
      code := by
    omega
  exact congrArg some whole

theorem scan?_spellPiece {p : Piece} (valid : p.Valid) (cs : List Char) :
    scan? (spellPiece p ++ cs) = (scan? cs).map fun r => (p :: r.1, r.2) := by
  cases p with
  | plain c => exact scan?_plain valid.1 valid.2.1 valid.2.2 cs
  | escaped c => exact scan?_escaped valid cs
  | unit code =>
    obtain ⟨a, b, c, d, digits, value⟩ := unitValue?_unitDigits valid
    rw [spellPiece, digits]
    exact scan?_unit value cs

/-- The spelling of a valid literal is read back as the literal, whatever comes after it. -/
theorem scan?_spell {pieces : Literal} (valid : pieces.Valid) (rest : List Char) :
    scan? (spell pieces ++ rest) = some (pieces, rest) := by
  induction pieces with
  | nil => rfl
  | cons p pieces ih =>
    have first : p.Valid := valid p List.mem_cons_self
    have later : Valid pieces := fun q hq => valid q (List.mem_cons_of_mem p hq)
    have split : spell (p :: pieces) ++ rest = spellPiece p ++ (spell pieces ++ rest) := by
      simp only [spell, List.flatMap_cons, List.append_assoc]
    rw [split, scan?_spellPiece first, ih later]
    rfl

/-! ## The literal of a text -/

theorem valid_pieceOf (c : Char) : (pieceOf c).Valid := by
  unfold pieceOf
  split
  · next special =>
    rcases special with rfl | rfl | marked
    · rfl
    · rfl
    · show escapeMeaning? (escapeMark c) = some c
      unfold escapeMark at marked ⊢
      split at marked
      all_goals first | rfl | exact absurd rfl marked
  · next ordinary =>
    rw [not_or, not_or] at ordinary
    split
    · next control =>
      have small : c.toNat < 32 := of_decide_eq_true control
      show c.toNat < 65536
      omega
    · next printable => exact ⟨ordinary.1, ordinary.2.1, by simpa using printable⟩

theorem valid_ofText (s : String) : (ofText s).Valid := by
  intro p hp
  obtain ⟨c, -, rfl⟩ := List.mem_map.1 hp
  exact valid_pieceOf c

/-- A code unit that is a character by itself, whatever comes after it. -/
theorem chars?_unit {code : Nat} (high : isHigh code = false) (low : isLow code = false)
    (rest : Literal) :
    chars? (.unit code :: rest) = (chars? rest).map (Char.ofNat code :: ·) := by
  cases rest with
  | nil => simp [chars?, high, low]
  | cons p rest => cases p <;> simp [chars?, high, low]

theorem chars?_pieceOf (c : Char) (rest : Literal) :
    chars? (pieceOf c :: rest) = (chars? rest).map (c :: ·) := by
  unfold pieceOf
  split
  · rw [chars?]
  · split
    · next control =>
      have small : c.toNat < 32 := of_decide_eq_true control
      have high : isHigh c.toNat = false := by simp [isHigh]; omega
      have low : isLow c.toNat = false := by simp [isLow]; omega
      rw [chars?_unit high low, Char.ofNat_toNat]
    · rw [chars?]

/-- The literal that spells a text means that text. -/
theorem text?_ofText (s : String) : (ofText s).text? = some s := by
  have chars (cs : List Char) : chars? (cs.map pieceOf) = some cs := by
    induction cs with
    | nil => rfl
    | cons c cs ih => rw [List.map_cons, chars?_pieceOf, ih, Option.map_some]
  rw [text?, ofText, chars, Option.map_some, String.ofList_toList]

/-! ## Literals without escapes -/

theorem plain?_map_plain (cs : List Char) : plain? (cs.map Piece.plain) = some cs := by
  induction cs with
  | nil => rfl
  | cons c cs ih => rw [List.map_cons, plain?, ih, Option.map_some]

/-- Digits may stand in a string as they are. -/
theorem valid_digits {cs : List Char} (digits : ∀ c ∈ cs, c.isDigit = true) :
    Valid (cs.map Piece.plain) := by
  intro p hp
  obtain ⟨c, hc, rfl⟩ := List.mem_map.1 hp
  have digit := digits c hc
  refine ⟨?_, ?_, ?_⟩
  · intro e
    subst e
    cases digit
  · intro e
    subst e
    cases digit
  · have range : 48 ≤ c.toNat := by
      simp only [Char.isDigit, Bool.and_eq_true, decide_eq_true_eq] at digit
      exact digit.1
    exact decide_eq_false (by omega)

end Literal

end Lookahead.Json
