/-!
# Number literals

The grammar of JSON numbers: an optional minus sign, a whole part without leading zeros, an
optional fraction, an optional exponent. A literal is kept as it is spelled; `natural?` reads the
ones that are a whole part and nothing else.
-/

namespace Lookahead.Json.Number

/-- The longest run of digits at the front, if there is any. -/
def digits? (cs : List Char) : Option (List Char × List Char) :=
  if (cs.takeWhile Char.isDigit).isEmpty then none
  else some (cs.takeWhile Char.isDigit, cs.dropWhile Char.isDigit)

/-- The sign, if there is one. -/
def sign (cs : List Char) : List Char × List Char :=
  match cs with
  | '-' :: rest => (['-'], rest)
  | _ => ([], cs)

/-- The whole part: zero, or digits of which the first is not zero. -/
def whole? (cs : List Char) : Option (List Char × List Char) :=
  match cs with
  | '0' :: rest => some (['0'], rest)
  | _ => digits? cs

/-- The fraction, if there is a point. -/
def fraction? (cs : List Char) : Option (List Char × List Char) :=
  match cs with
  | '.' :: rest => (digits? rest).map fun r => ('.' :: r.1, r.2)
  | _ => some ([], cs)

/-- The sign of an exponent, if there is one. -/
def exponentSign (cs : List Char) : List Char × List Char :=
  match cs with
  | '+' :: rest => (['+'], rest)
  | _ => sign cs

/-- The exponent, if there is its letter. -/
def exponent? (cs : List Char) : Option (List Char × List Char) :=
  match cs with
  | [] => some ([], [])
  | c :: rest =>
    if c = 'e' ∨ c = 'E' then
      (digits? (exponentSign rest).2).map fun r => (c :: (exponentSign rest).1 ++ r.1, r.2)
    else some ([], c :: rest)

/-- Takes a number from the front, and leaves the rest. -/
def scan? (cs : List Char) : Option (List Char × List Char) := do
  let whole ← whole? (sign cs).2
  let fraction ← fraction? whole.2
  let exponent ← exponent? fraction.2
  pure ((sign cs).1 ++ whole.1 ++ fraction.1 ++ exponent.1, exponent.2)

/-- The number that a literal of digits alone spells. -/
def natural? (literal : List Char) : Option Nat :=
  if literal.all Char.isDigit then some (Nat.ofDigitChars 10 literal 0) else none

/-- How a number is spelled. -/
def ofNat (n : Nat) : List Char := Nat.toDigits 10 n

/-- The number that text spells in full, in the one way that `ofNat` spells it. -/
def canonical? (cs : List Char) : Option Nat :=
  match scan? cs with
  | some (literal, []) => natural? literal
  | _ => none

/-! ## Scanning takes characters off the front -/

theorem length_of_digits? {cs : List Char} {r : List Char × List Char} (h : digits? cs = some r) :
    r.2.length < cs.length := by
  unfold digits? at h
  split at h
  · cases h
  · next nonempty =>
    cases h
    have whole : cs.takeWhile Char.isDigit ++ cs.dropWhile Char.isDigit = cs :=
      List.takeWhile_append_dropWhile
    have parts := congrArg List.length whole
    rw [List.length_append] at parts
    have taken := List.length_pos_iff.2 fun e => nonempty (List.isEmpty_iff.2 e)
    simp only
    omega

theorem length_sign (cs : List Char) : (sign cs).2.length ≤ cs.length := by
  unfold sign
  split <;> simp

theorem length_exponentSign (cs : List Char) : (exponentSign cs).2.length ≤ cs.length := by
  unfold exponentSign
  split
  · simp
  · exact length_sign _

theorem length_of_whole? {cs : List Char} {r : List Char × List Char} (h : whole? cs = some r) :
    r.2.length < cs.length := by
  unfold whole? at h
  split at h
  · cases h
    simp
  · exact length_of_digits? h

theorem length_of_fraction? {cs : List Char} {r : List Char × List Char}
    (h : fraction? cs = some r) : r.2.length ≤ cs.length := by
  unfold fraction? at h
  split at h
  · obtain ⟨d, hd, rfl⟩ := Option.map_eq_some_iff.1 h
    have := length_of_digits? hd
    simp only [List.length_cons]
    omega
  · cases h
    exact Nat.le_refl _

theorem length_of_exponent? {cs : List Char} {r : List Char × List Char}
    (h : exponent? cs = some r) : r.2.length ≤ cs.length := by
  unfold exponent? at h
  split at h
  · cases h
    exact Nat.le_refl _
  · next c tail =>
    split at h
    · obtain ⟨d, hd, rfl⟩ := Option.map_eq_some_iff.1 h
      have := length_of_digits? hd
      have := length_exponentSign tail
      simp only [List.length_cons]
      omega
    · cases h
      exact Nat.le_refl _

/-- A number takes at least one character. -/
theorem length_of_scan? {cs : List Char} {r : List Char × List Char} (h : scan? cs = some r) :
    r.2.length < cs.length := by
  simp only [scan?, bind, Option.bind_eq_some_iff, pure, Option.some.injEq] at h
  obtain ⟨whole, hw, fraction, hf, exponent, he, rfl⟩ := h
  have := length_sign cs
  have := length_of_whole? hw
  have := length_of_fraction? hf
  have := length_of_exponent? he
  simp only
  omega

end Lookahead.Json.Number
