import Mathlib.Data.List.TakeWhile
import Lookahead.Json.Number

/-!
# Number literals are read as they are spelled

A number ends where no digit, point or exponent can go on (`Stops`). One that takes up a whole text
is read back if such a rest comes after it (`scan?_append`). The literal that spells a natural
number is of this kind, and is read as the number (`canonical?_ofNat`).
-/

namespace Lookahead.Json.Number

/-- Whether a number can end before these characters. -/
def Stops (rest : List Char) : Prop :=
  ∀ c ∈ rest.head?, c.isDigit = false ∧ c ≠ '.' ∧ c ≠ 'e' ∧ c ≠ 'E'

/-- Whether the characters are one number, to the last of them. -/
def Valid (literal : List Char) : Prop := scan? literal = some (literal, [])

theorem stops_nil : Stops [] := by
  intro c hc
  cases hc

/-! ## The parts of a number before a rest -/

section

variable {cs rest : List Char} {r : List Char × List Char} (stops : Stops rest)

theorem sign_append (nonempty : cs ≠ []) :
    sign (cs ++ rest) = ((sign cs).1, (sign cs).2 ++ rest) := by
  cases cs with
  | nil => exact absurd rfl nonempty
  | cons c cs =>
    by_cases minus : c = '-'
    · subst minus
      rfl
    · simp [sign, minus]

theorem exponentSign_append (nonempty : cs ≠ []) :
    exponentSign (cs ++ rest) = ((exponentSign cs).1, (exponentSign cs).2 ++ rest) := by
  cases cs with
  | nil => exact absurd rfl nonempty
  | cons c cs =>
    by_cases plus : c = '+'
    · subst plus
      rfl
    · have none_here (tail : List Char) : exponentSign (c :: tail) = sign (c :: tail) := by
        simp [exponentSign, plus]
      rw [List.cons_append, none_here, none_here, ← List.cons_append, sign_append nonempty]

include stops

theorem digits?_append (h : digits? cs = some r) :
    digits? (cs ++ rest) = some (r.1, r.2 ++ rest) := by
  have ended : rest.takeWhile Char.isDigit = [] := by
    cases rest with
    | nil => rfl
    | cons c rest => rw [List.takeWhile_cons, (stops c rfl).1]; rfl
  have kept : rest.dropWhile Char.isDigit = rest := by
    cases rest with
    | nil => rfl
    | cons c rest => rw [List.dropWhile_cons, (stops c rfl).1]; rfl
  have taken : (cs ++ rest).takeWhile Char.isDigit = cs.takeWhile Char.isDigit := by
    rw [List.takeWhile_append, ended, List.append_nil]
    split
    · next whole => exact ((List.takeWhile_prefix _).eq_of_length whole).symm
    · rfl
  have left : (cs ++ rest).dropWhile Char.isDigit = cs.dropWhile Char.isDigit ++ rest := by
    rw [List.dropWhile_append, kept]
    split
    · next none_left => rw [List.isEmpty_iff.1 none_left, List.nil_append]
    · rfl
  unfold digits? at h ⊢
  rw [taken, left]
  split at h
  · cases h
  · next some_taken =>
    cases h
    rw [if_neg some_taken]

theorem whole?_append (h : whole? cs = some r) : whole? (cs ++ rest) = some (r.1, r.2 ++ rest) := by
  cases cs with
  | nil => cases h
  | cons c cs =>
    by_cases zero : c = '0'
    · subst zero
      cases h
      rfl
    · have digits (tail : List Char) : whole? (c :: tail) = digits? (c :: tail) := by
        simp [whole?, zero]
      rw [digits] at h
      rw [List.cons_append, digits, ← List.cons_append, digits?_append stops h]

theorem fraction?_append (h : fraction? cs = some r) :
    fraction? (cs ++ rest) = some (r.1, r.2 ++ rest) := by
  have absent {c : Char} (point : c ≠ '.') (tail : List Char) :
      fraction? (c :: tail) = some ([], c :: tail) := by
    simp [fraction?, point]
  cases cs with
  | nil =>
    cases h
    cases rest with
    | nil => rfl
    | cons c rest => exact absent (stops c rfl).2.1 rest
  | cons c cs =>
    by_cases point : c = '.'
    · subst point
      obtain ⟨d, digits, rfl⟩ := Option.map_eq_some_iff.1 h
      show (digits? (cs ++ rest)).map _ = _
      rw [digits?_append stops digits]
      rfl
    · rw [absent point] at h
      cases h
      exact absent point (cs ++ rest)

theorem exponent?_append (h : exponent? cs = some r) :
    exponent? (cs ++ rest) = some (r.1, r.2 ++ rest) := by
  cases cs with
  | nil =>
    cases h
    cases rest with
    | nil => rfl
    | cons c rest =>
      have other := (stops c rfl).2.2
      exact if_neg (not_or.2 other)
  | cons c cs =>
    unfold exponent? at h ⊢
    rw [List.cons_append]
    by_cases letter : c = 'e' ∨ c = 'E'
    · simp only [if_pos letter] at h ⊢
      obtain ⟨d, digits, rfl⟩ := Option.map_eq_some_iff.1 h
      have signed : cs ≠ [] := by
        intro e
        subst e
        cases digits
      rw [exponentSign_append signed, digits?_append stops digits]
      rfl
    · simp only [if_neg letter] at h ⊢
      cases h
      rfl

/-- A number is scanned as it is, whatever comes after it, if it can end there. -/
theorem scan?_append (h : scan? cs = some r) : scan? (cs ++ rest) = some (r.1, r.2 ++ rest) := by
  simp only [scan?, bind, Option.bind_eq_some_iff, pure, Option.some.injEq] at h
  obtain ⟨whole, hw, fraction, hf, exponent, he, rfl⟩ := h
  have nonempty : cs ≠ [] := by
    intro e
    subst e
    cases hw
  unfold scan?
  rw [sign_append nonempty]
  simp only [bind, whole?_append stops hw, Option.bind_some, fraction?_append stops hf,
    exponent?_append stops he, pure]

end

/-- A valid number starts with a digit or a minus sign. -/
theorem head_of_valid {literal : List Char} (valid : Valid literal) :
    ∃ c tail, literal = c :: tail ∧ (c.isDigit = true ∨ c = '-') := by
  cases literal with
  | nil => cases valid
  | cons c tail =>
    refine ⟨c, tail, rfl, ?_⟩
    by_contra other
    obtain ⟨digit, minus⟩ := not_or.1 other
    have zero : c ≠ '0' := by
      intro e
      subst e
      exact digit rfl
    have unsigned : (sign (c :: tail)).2 = c :: tail := by simp [sign, minus]
    have refused : whole? (c :: tail) = none := by simp [whole?, zero, digits?, digit]
    rw [Valid, scan?, unsigned, refused] at valid
    cases valid

/-! ## Natural numbers -/

theorem isDigit_ofNat (n : Nat) : ∀ c ∈ ofNat n, c.isDigit = true :=
  fun _ hc => Nat.isDigit_of_mem_toDigits (by decide) (by decide) hc

theorem natural?_ofNat (n : Nat) : natural? (ofNat n) = some n := by
  rw [natural?, if_pos (List.all_eq_true.2 (isDigit_ofNat n)), ofNat,
    Nat.ofDigitChars_toDigits (by decide) (by decide)]

theorem digits?_ofNat (n : Nat) : digits? (ofNat n) = some (ofNat n, []) := by
  have all := isDigit_ofNat n
  have nonempty : ofNat n ≠ [] := Nat.toDigits_ne_nil
  rw [digits?, List.takeWhile_eq_self_iff.2 all, List.dropWhile_eq_nil_iff.2 all,
    if_neg (by simpa using nonempty)]

/-- The digits of a positive number do not start with zero. -/
theorem head_ofNat {n : Nat} (pos : 0 < n) : ∃ c tail, ofNat n = c :: tail ∧ c ≠ '0' := by
  induction n using Nat.strongRecOn with
  | ind n ih =>
    rw [ofNat, Nat.toDigits_eq_if (by decide)]
    split
    · next small =>
      have other : ∀ d < 10, 0 < d → Nat.digitChar d ≠ '0' := by decide
      exact ⟨_, [], rfl, other n small pos⟩
    · next large =>
      obtain ⟨c, tail, digits, other⟩ := ih (n / 10) (by omega) (by omega)
      exact ⟨c, tail ++ [Nat.digitChar (n % 10)], congrArg (· ++ _) digits, other⟩

/-- The literal that spells a natural number is a valid number. -/
theorem valid_ofNat (n : Nat) : Valid (ofNat n) := by
  rcases Nat.eq_zero_or_pos n with rfl | pos
  · rfl
  · obtain ⟨c, tail, digits, zero⟩ := head_ofNat pos
    have digit : c.isDigit = true := isDigit_ofNat n c (by rw [digits]; exact List.mem_cons_self)
    have minus : c ≠ '-' := by
      intro e
      subst e
      cases digit
    have unsigned : sign (ofNat n) = ([], ofNat n) := by rw [digits]; simp [sign, minus]
    have whole : whole? (ofNat n) = some (ofNat n, []) := by
      rw [← digits?_ofNat, digits]
      simp [whole?, zero]
    rw [Valid, scan?, unsigned]
    simp only [bind, whole, Option.bind_some, fraction?, exponent?, pure, List.append_nil,
      List.nil_append]

theorem canonical?_ofNat (n : Nat) : canonical? (ofNat n) = some n := by
  rw [canonical?, valid_ofNat n]
  exact natural?_ofNat n

end Lookahead.Json.Number
