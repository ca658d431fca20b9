import Mathlib.Data.List.Chain
import Lookahead.Json.Lexeme
import Lookahead.Proofs.Json.Literal
import Lookahead.Proofs.Json.Number

/-!
# Lexemes are read as they are spelled

A valid lexeme is taken from the front of a text that starts with its spelling (`first?_spell`). A
number has to be kept apart from what follows it, since two of them in a row would be read as one.
Hence lexemes that are written down one after the other are read back, unless two numbers meet
(`scan?_spells`).
-/

namespace Lookahead.Json.Lexeme

/-- Whether a lexeme is read as it is spelled. -/
def Valid : Lexeme → Prop
  | number literal => Number.Valid literal
  | string pieces => pieces.Valid
  | _ => True

/-- Whether a lexeme is a number. -/
def isNumber : Lexeme → Bool
  | number _ => true
  | _ => false

/-- Whether a lexeme can end before these characters. -/
def Stops (l : Lexeme) (rest : List Char) : Prop := l.isNumber = true → Number.Stops rest

/-- Whether a lexeme can stand right before another one. -/
def Apart (l m : Lexeme) : Prop := l.isNumber = true → m.isNumber = false

/-! ## One lexeme -/

section

variable {c : Char} (front : c.isDigit = true ∨ c = '-')

include front

/-- What starts like a number is taken for one. -/
theorem first?_number (cs : List Char) :
    first? (c :: cs) = (Number.scan? (c :: cs)).map fun r => (number r.1, r.2) := by
  unfold first?
  split
  case h_11 => rfl
  all_goals
    next e =>
      cases e
      exact absurd front (by decide)

theorem isBlank_eq_false_of_front : isBlank c = false := by
  by_contra blank
  rw [Bool.not_eq_false] at blank
  simp only [isBlank, Bool.or_eq_true, beq_iff_eq] at blank
  rcases blank with ((rfl | rfl) | rfl) | rfl
  all_goals exact absurd front (by decide)

end

/-- A lexeme is taken from the front of a text, whatever comes after it. -/
theorem first?_spell {l : Lexeme} (valid : l.Valid) {rest : List Char} (stops : l.Stops rest) :
    first? (l.spell ++ rest) = some (l, rest) := by
  cases l with
  | number literal =>
    obtain ⟨c, tail, rfl, front⟩ := Number.head_of_valid valid
    have scanned := Number.scan?_append (stops rfl) valid
    rw [spell, List.cons_append, first?_number front, ← List.cons_append, scanned]
    rfl
  | string pieces =>
    show (Literal.scan? (Literal.spell pieces ++ rest)).map _ = _
    rw [Literal.scan?_spell valid]
    rfl
  | bool b => cases b <;> rfl
  | _ => rfl

/-- What a lexeme starts with: no blank, nor anything that goes on with a number unless it is one
itself. -/
theorem spell_head {l : Lexeme} (valid : l.Valid) :
    ∃ c tail, l.spell = c :: tail ∧ isBlank c = false ∧
      (l.isNumber = false → c.isDigit = false ∧ c ≠ '.' ∧ c ≠ 'e' ∧ c ≠ 'E') := by
  cases l with
  | number literal =>
    obtain ⟨c, tail, rfl, front⟩ := Number.head_of_valid valid
    refine ⟨c, tail, rfl, isBlank_eq_false_of_front front, ?_⟩
    intro other
    cases other
  | bool b => cases b <;> exact ⟨_, _, rfl, by decide, fun _ => by decide⟩
  | _ => exact ⟨_, _, rfl, by decide, fun _ => by decide⟩

theorem scan?_spell_append {l : Lexeme} (valid : l.Valid) {rest : List Char}
    (stops : l.Stops rest) : scan? (l.spell ++ rest) = (scan? rest).map (l :: ·) := by
  have taken := first?_spell valid stops
  obtain ⟨c, tail, spelled, blank, -⟩ := spell_head valid
  rw [spelled, List.cons_append] at taken ⊢
  rw [scan?, if_neg (by rw [blank]; exact Bool.false_ne_true)]
  split
  · next refused =>
    rw [taken] at refused
    cases refused
  · next m after found =>
    rw [taken] at found
    cases found
    rfl

/-! ## Lexemes in a row -/

theorem stops_spells {l : Lexeme} {ls : List Lexeme} (valid : ∀ m ∈ ls, m.Valid)
    (apart : ∀ m ∈ ls.head?, Apart l m) : l.Stops (ls.flatMap spell) := by
  intro number
  cases ls with
  | nil => exact Number.stops_nil
  | cons m ls =>
    obtain ⟨c, tail, spelled, -, other⟩ := spell_head (valid m List.mem_cons_self)
    intro d hd
    rw [List.flatMap_cons, spelled, List.cons_append, List.head?_cons, Option.mem_some_iff] at hd
    subst hd
    exact other (apart m rfl number)

/-- Lexemes that are written down one after the other are read back, unless two numbers meet. -/
theorem scan?_spells {ls : List Lexeme} (valid : ∀ l ∈ ls, l.Valid) (apart : ls.IsChain Apart) :
    scan? (ls.flatMap spell) = some ls := by
  induction ls with
  | nil => rw [List.flatMap_nil, scan?]
  | cons l ls ih =>
    have later : ∀ m ∈ ls, m.Valid := fun m hm => valid m (List.mem_cons_of_mem l hm)
    obtain ⟨next, apart'⟩ := List.isChain_cons.1 apart
    have stops : l.Stops (ls.flatMap spell) := stops_spells later next
    rw [List.flatMap_cons, scan?_spell_append (valid l List.mem_cons_self) stops,
      ih later apart']
    rfl

end Lookahead.Json.Lexeme
