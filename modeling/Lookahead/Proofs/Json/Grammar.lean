import Lookahead.Proofs.Json.Value

/-!
# Documents

What a text of a JSON value looks like, said without a reader: numbers by their grammar, strings
with any of the escapes a piece may be spelled by, and blanks between any two lexemes. A number is
valid exactly if the grammar has it (`valid_iff_isNumber`). Every `Document` of a value is read as
that value (`ofText?_of_document`).
-/

namespace Lookahead.Json

/-! ## Numbers -/

namespace Number

/-- Some digits, at least one. -/
def IsDigits (cs : List Char) : Prop := cs ≠ [] ∧ ∀ c ∈ cs, c.isDigit = true

/-- A whole part has no leading zero. -/
inductive IsWhole : List Char → Prop
  | zero : IsWhole ['0']
  | other {c : Char} {cs : List Char} : c ≠ '0' → IsDigits (c :: cs) → IsWhole (c :: cs)

/-- A fraction, or nothing. -/
inductive IsFraction : List Char → Prop
  | absent : IsFraction []
  | present {cs : List Char} : IsDigits cs → IsFraction ('.' :: cs)

/-- An exponent, or nothing. -/
inductive IsExponent : List Char → Prop
  | absent : IsExponent []
  | present {letter : Char} {sign cs : List Char} : letter = 'e' ∨ letter = 'E' →
    sign = [] ∨ sign = ['+'] ∨ sign = ['-'] → IsDigits cs → IsExponent (letter :: (sign ++ cs))

/-- A number. -/
inductive IsNumber : List Char → Prop
  | intro {sign whole fraction exponent : List Char} : sign = [] ∨ sign = ['-'] → IsWhole whole →
    IsFraction fraction → IsExponent exponent → IsNumber (sign ++ whole ++ fraction ++ exponent)

/-! ### What the scanner takes is of the grammar -/

section

variable {cs : List Char} {r : List Char × List Char}

theorem isDigits_of_digits? (h : digits? cs = some r) : IsDigits r.1 ∧ cs = r.1 ++ r.2 := by
  unfold digits? at h
  split at h
  · cases h
  · next some_taken =>
    cases h
    refine ⟨⟨fun none_taken => some_taken (List.isEmpty_iff.2 none_taken), fun c hc => ?_⟩, ?_⟩
    · exact List.mem_takeWhile_imp hc
    · exact List.takeWhile_append_dropWhile.symm

theorem sign_cases (cs : List Char) :
    ((sign cs).1 = [] ∨ (sign cs).1 = ['-']) ∧ cs = (sign cs).1 ++ (sign cs).2 := by
  unfold sign
  split
  · exact ⟨Or.inr rfl, rfl⟩
  · exact ⟨Or.inl rfl, rfl⟩

theorem exponentSign_cases (cs : List Char) :
    ((exponentSign cs).1 = [] ∨ (exponentSign cs).1 = ['+'] ∨ (exponentSign cs).1 = ['-']) ∧
      cs = (exponentSign cs).1 ++ (exponentSign cs).2 := by
  unfold exponentSign
  split
  · exact ⟨Or.inr (Or.inl rfl), rfl⟩
  · obtain ⟨unsigned | minus, parts⟩ := sign_cases cs
    · exact ⟨Or.inl unsigned, parts⟩
    · exact ⟨Or.inr (Or.inr minus), parts⟩

theorem isWhole_of_whole? (h : whole? cs = some r) : IsWhole r.1 ∧ cs = r.1 ++ r.2 := by
  unfold whole? at h
  split at h
  · cases h
    exact ⟨.zero, rfl⟩
  · next no_zero =>
    obtain ⟨digits, parts⟩ := isDigits_of_digits? h
    obtain ⟨c, tail, taken⟩ := List.exists_cons_of_ne_nil digits.1
    refine ⟨?_, parts⟩
    rw [taken] at digits parts ⊢
    refine .other (fun zero => ?_) digits
    subst zero
    exact no_zero _ parts

theorem isFraction_of_fraction? (h : fraction? cs = some r) :
    IsFraction r.1 ∧ cs = r.1 ++ r.2 := by
  unfold fraction? at h
  split at h
  · obtain ⟨d, digits, rfl⟩ := Option.map_eq_some_iff.1 h
    obtain ⟨digits, parts⟩ := isDigits_of_digits? digits
    exact ⟨.present digits, congrArg _ parts⟩
  · cases h
    exact ⟨.absent, rfl⟩

theorem isExponent_of_exponent? (h : exponent? cs = some r) :
    IsExponent r.1 ∧ cs = r.1 ++ r.2 := by
  unfold exponent? at h
  split at h
  · cases h
    exact ⟨.absent, rfl⟩
  · next letter tail =>
    split at h
    · next e =>
      obtain ⟨d, digits, rfl⟩ := Option.map_eq_some_iff.1 h
      obtain ⟨sign, signed⟩ := exponentSign_cases tail
      obtain ⟨digits, parts⟩ := isDigits_of_digits? digits
      refine ⟨.present e sign digits, ?_⟩
      rw [List.cons_append, List.cons_append, List.append_assoc, ← parts, ← signed]
    · cases h
      exact ⟨.absent, rfl⟩

theorem isNumber_of_scan? (h : scan? cs = some r) : IsNumber r.1 ∧ cs = r.1 ++ r.2 := by
  simp only [scan?, bind, Option.bind_eq_some_iff, pure, Option.some.injEq] at h
  obtain ⟨whole, hw, fraction, hf, exponent, he, rfl⟩ := h
  obtain ⟨sign, signed⟩ := sign_cases cs
  obtain ⟨isWhole, parts⟩ := isWhole_of_whole? hw
  obtain ⟨isFraction, parts'⟩ := isFraction_of_fraction? hf
  obtain ⟨isExponent, parts''⟩ := isExponent_of_exponent? he
  refine ⟨.intro sign isWhole isFraction isExponent, ?_⟩
  rw [List.append_assoc, List.append_assoc, List.append_assoc, ← parts'', ← parts', ← parts,
    ← signed]

end

/-! ### What the grammar has is taken -/

/-- No digit goes on here. -/
def Halts (rest : List Char) : Prop := ∀ c ∈ rest.head?, c.isDigit = false

theorem halts_nil : Halts [] := by
  intro c hc
  cases hc

theorem digits?_of_isDigits {cs rest : List Char} (digits : IsDigits cs) (halts : Halts rest) :
    digits? (cs ++ rest) = some (cs, rest) := by
  have ended : rest.takeWhile Char.isDigit = [] ∧ rest.dropWhile Char.isDigit = rest := by
    cases rest with
    | nil => exact ⟨rfl, rfl⟩
    | cons c rest =>
      rw [List.takeWhile_cons, List.dropWhile_cons, halts c rfl]
      exact ⟨rfl, rfl⟩
  have some_taken : ¬cs.isEmpty = true := fun none_taken =>
    digits.1 (List.isEmpty_iff.1 none_taken)
  rw [digits?, List.takeWhile_append_of_pos digits.2, List.dropWhile_append_of_pos digits.2,
    ended.1, ended.2, List.append_nil, if_neg some_taken]

theorem whole?_of_isWhole {cs rest : List Char} (whole : IsWhole cs) (halts : Halts rest) :
    whole? (cs ++ rest) = some (cs, rest) := by
  cases whole with
  | zero => rfl
  | @other c cs nonzero digits =>
    rw [← digits?_of_isDigits digits halts]
    simp [whole?, nonzero]

theorem fraction?_of_isFraction {cs rest : List Char} (fraction : IsFraction cs)
    (halts : Halts rest) (point : ∀ c ∈ rest.head?, c ≠ '.') :
    fraction? (cs ++ rest) = some (cs, rest) := by
  cases fraction with
  | absent =>
    cases rest with
    | nil => rfl
    | cons c rest => simp [fraction?, point c rfl]
  | @present cs digits =>
    show (digits? (cs ++ rest)).map _ = _
    rw [digits?_of_isDigits digits halts]
    rfl

/-- Digits have no sign before them. -/
theorem sign_of_isDigits {cs : List Char} (digits : IsDigits cs) (rest : List Char) :
    sign (cs ++ rest) = ([], cs ++ rest) ∧ exponentSign (cs ++ rest) = ([], cs ++ rest) := by
  obtain ⟨c, tail, rfl⟩ := List.exists_cons_of_ne_nil digits.1
  have digit := digits.2 c List.mem_cons_self
  have minus : c ≠ '-' := fun e => absurd (e ▸ digit) (by decide)
  have plus : c ≠ '+' := fun e => absurd (e ▸ digit) (by decide)
  simp [exponentSign, sign, minus, plus]

theorem exponent?_of_isExponent {cs : List Char} (exponent : IsExponent cs) :
    exponent? cs = some (cs, []) := by
  cases exponent with
  | absent => rfl
  | @present letter sign cs e signed digits =>
    have parted : exponentSign (sign ++ cs) = (sign, cs) := by
      have unsigned := (sign_of_isDigits digits []).2
      rw [List.append_nil] at unsigned
      rcases signed with rfl | rfl | rfl
      · exact unsigned
      · rfl
      · rfl
    have scanned := digits?_of_isDigits digits halts_nil
    rw [List.append_nil] at scanned
    rw [exponent?, if_pos e, parted, scanned]
    rfl

/-- Before an exponent no digit goes on, and there is no point. -/
theorem head_of_isExponent {cs : List Char} (exponent : IsExponent cs) :
    ∀ c ∈ cs.head?, c.isDigit = false ∧ c ≠ '.' := by
  intro c hc
  cases exponent with
  | absent => cases hc
  | present e =>
    cases hc
    rcases e with rfl | rfl
    · exact ⟨rfl, by decide⟩
    · exact ⟨rfl, by decide⟩

theorem halts_fraction {fraction rest : List Char} (h : IsFraction fraction) (halts : Halts rest) :
    Halts (fraction ++ rest) := by
  cases h with
  | absent => exact halts
  | present =>
    intro c hc
    cases hc
    rfl

theorem sign_of_isWhole {sign whole : List Char} (signed : sign = [] ∨ sign = ['-'])
    (h : IsWhole whole) (rest : List Char) :
    Number.sign (sign ++ (whole ++ rest)) = (sign, whole ++ rest) := by
  rcases signed with rfl | rfl
  · have digits : IsDigits whole := by
      cases h with
      | zero => exact ⟨List.cons_ne_nil _ _, List.forall_mem_singleton.2 rfl⟩
      | other _ digits => exact digits
    exact (sign_of_isDigits digits rest).1
  · rfl

/-- The numbers that are scanned to their end are those of the grammar. -/
theorem valid_iff_isNumber {literal : List Char} : Valid literal ↔ IsNumber literal := by
  refine ⟨fun valid => (isNumber_of_scan? valid).1, fun isNumber => ?_⟩
  obtain @⟨sign, whole, fraction, exponent, signed, isWhole, isFraction, isExponent⟩ := isNumber
  have ends := head_of_isExponent isExponent
  have halts : Halts exponent := fun c hc => (ends c hc).1
  have point : ∀ c ∈ exponent.head?, c ≠ '.' := fun c hc => (ends c hc).2
  have unsigned := sign_of_isWhole signed isWhole (fraction ++ exponent)
  rw [Valid, List.append_assoc, List.append_assoc, scan?, unsigned]
  simp only [bind, whole?_of_isWhole isWhole (halts_fraction isFraction halts), Option.bind_some,
    fraction?_of_isFraction isFraction halts point, exponent?_of_isExponent isExponent, pure,
    List.append_assoc]

end Number

/-! ## Strings -/

/-- How a piece may be spelled: there may be several marks for a character, and digits of either
case. -/
inductive Piece.Spelling : Piece → List Char → Prop
  | plain {c : Char} : c ≠ '"' → c ≠ '\\' → isControl c = false → Spelling (.plain c) [c]
  | escaped {mark c : Char} : escapeMeaning? mark = some c → Spelling (.escaped c) ['\\', mark]
  | unit {a b c d : Char} {code : Nat} : unitValue? a b c d = some code →
    Spelling (.unit code) ['\\', 'u', a, b, c, d]

/-- How the pieces of a literal may be spelled. -/
inductive Literal.Spelling : Literal → List Char → Prop
  | nil : Spelling [] []
  | cons {p : Piece} {pieces : Literal} {cs ds : List Char} : p.Spelling cs → Spelling pieces ds →
    Spelling (p :: pieces) (cs ++ ds)

/-- However a literal is spelled, it is read, whatever comes after its closing quote. -/
theorem Literal.scan?_of_spelling {pieces : Literal} {cs : List Char} (h : pieces.Spelling cs)
    (rest : List Char) : scan? (cs ++ '"' :: rest) = some (pieces, rest) := by
  induction h with
  | nil => rfl
  | cons first _ ih =>
    rw [List.append_assoc]
    cases first with
    | plain quote slash control =>
      rw [List.singleton_append, scan?_plain quote slash control, ih]
      rfl
    | escaped meaning =>
      rw [List.cons_append, List.singleton_append, scan?_escaped meaning, ih]
      rfl
    | unit value =>
      simp only [List.cons_append, List.nil_append]
      rw [scan?_unit value, ih]
      rfl

/-- The spelling with the fewest escapes is one of them. -/
theorem Literal.spelling_of_valid {pieces : Literal} (valid : pieces.Valid) :
    pieces.Spelling (pieces.flatMap spellPiece) := by
  induction pieces with
  | nil => exact .nil
  | cons p pieces ih =>
    refine .cons ?_ (ih fun q hq => valid q (List.mem_cons_of_mem p hq))
    have first : p.Valid := valid p List.mem_cons_self
    cases p with
    | plain c => exact .plain first.1 first.2.1 first.2.2
    | escaped c => exact .escaped first
    | unit code =>
      obtain ⟨a, b, c, d, digits, value⟩ := unitValue?_unitDigits first
      rw [spellPiece, digits]
      exact .unit value

/-! ## Lexemes -/

namespace Lexeme

/-- How a lexeme may be spelled. -/
def Spelling : Lexeme → List Char → Prop
  | number literal, cs => Number.IsNumber literal ∧ cs = literal
  | string pieces, cs => ∃ ds, pieces.Spelling ds ∧ cs = '"' :: (ds ++ ['"'])
  | l, cs => cs = l.spell

theorem spelling_of_valid {l : Lexeme} (valid : l.Valid) : l.Spelling l.spell := by
  cases l with
  | number literal => exact ⟨Number.valid_iff_isNumber.1 valid, rfl⟩
  | string pieces => exact ⟨_, Literal.spelling_of_valid valid, rfl⟩
  | _ => rfl

/-- However a lexeme is spelled, it is taken from the front of a text. -/
theorem first?_of_spelling {l : Lexeme} {cs rest : List Char} (h : l.Spelling cs)
    (stops : l.Stops rest) : first? (cs ++ rest) = some (l, rest) := by
  cases l with
  | number literal =>
    obtain ⟨isNumber, rfl⟩ := h
    exact first?_spell (l := .number cs) (Number.valid_iff_isNumber.2 isNumber) stops
  | string pieces =>
    obtain ⟨ds, spelled, rfl⟩ := h
    show (Literal.scan? (ds ++ ['"'] ++ rest)).map _ = _
    rw [List.append_assoc, List.singleton_append, Literal.scan?_of_spelling spelled]
    rfl
  | _ =>
    cases h
    refine first?_spell ?_ stops
    trivial

/-- What a spelling starts with: no blank, nor anything that goes on with a number unless it is one
itself. -/
theorem spelling_head {l : Lexeme} {cs : List Char} (h : l.Spelling cs) :
    ∃ c tail, cs = c :: tail ∧ isBlank c = false ∧
      (l.isNumber = false → c.isDigit = false ∧ c ≠ '.' ∧ c ≠ 'e' ∧ c ≠ 'E') := by
  cases l with
  | number literal =>
    obtain ⟨isNumber, rfl⟩ := h
    exact spell_head (l := .number cs) (Number.valid_iff_isNumber.2 isNumber)
  | string pieces =>
    obtain ⟨ds, -, rfl⟩ := h
    exact ⟨_, _, rfl, by decide, fun _ => by decide⟩
  | _ =>
    cases h
    refine spell_head ?_
    trivial

end Lexeme

/-! ## Blanks -/

/-- The characters spell the lexemes, with blanks before, between and after them. -/
inductive Spaced : List Lexeme → List Char → Prop
  | nil : Spaced [] []
  | blank {ls : List Lexeme} {c : Char} {cs : List Char} : isBlank c = true → Spaced ls cs →
    Spaced ls (c :: cs)
  | lexeme {l : Lexeme} {ls : List Lexeme} {cs ds : List Char} : l.Spelling cs → Spaced ls ds →
    Spaced (l :: ls) (cs ++ ds)

/-- A number ends where a blank stands, or where another lexeme begins. -/
theorem Spaced.stops {l : Lexeme} {ls : List Lexeme} {cs : List Char} (h : Spaced ls cs)
    (apart : ∀ m ∈ ls.head?, Lexeme.Apart l m) : l.Stops cs := by
  intro number
  cases h with
  | nil => exact Number.stops_nil
  | blank blank _ =>
    intro d hd
    cases hd
    simp only [isBlank, Bool.or_eq_true, beq_iff_eq] at blank
    rcases blank with ((rfl | rfl) | rfl) | rfl
    all_goals decide
  | lexeme first _ =>
    obtain ⟨c, tail, rfl, -, other⟩ := Lexeme.spelling_head first
    intro d hd
    cases hd
    exact other (apart _ rfl number)

/-- A text is taken apart into its lexemes, unless two numbers meet. -/
theorem Spaced.scan? {ls : List Lexeme} {cs : List Char} (h : Spaced ls cs)
    (apart : ls.IsChain Lexeme.Apart) : Lexeme.scan? cs = some ls := by
  induction h with
  | nil => rw [Lexeme.scan?]
  | blank blank _ ih => rw [Lexeme.scan?, if_pos blank, ih apart]
  | @lexeme l ls cs ds first later ih =>
    obtain ⟨next, apart'⟩ := List.isChain_cons.1 apart
    have taken := Lexeme.first?_of_spelling first (later.stops next)
    obtain ⟨c, tail, rfl, blank, -⟩ := Lexeme.spelling_head first
    rw [List.cons_append] at taken ⊢
    rw [Lexeme.scan?, if_neg (by rw [blank]; exact Bool.false_ne_true)]
    split
    · next refused =>
      rw [taken] at refused
      cases refused
    · next m after found =>
      rw [taken] at found
      cases found
      rw [ih apart', Option.map_some]

theorem Spaced.blanks {ls : List Lexeme} {blanks cs : List Char}
    (blank : ∀ c ∈ blanks, isBlank c = true) (h : Spaced ls cs) : Spaced ls (blanks ++ cs) := by
  induction blanks with
  | nil => exact h
  | cons c blanks ih =>
    obtain ⟨first, blank⟩ := List.forall_mem_cons.1 blank
    exact .blank first (ih blank)

/-- Lexemes may be written down with the same blanks after each of them. -/
theorem spaced_of_valid {ls : List Lexeme} (valid : ∀ l ∈ ls, l.Valid) {blanks : List Char}
    (blank : ∀ c ∈ blanks, isBlank c = true) :
    Spaced ls (ls.flatMap fun l => l.spell ++ blanks) := by
  induction ls with
  | nil => exact .nil
  | cons l ls ih =>
    obtain ⟨first, valid⟩ := List.forall_mem_cons.1 valid
    rw [List.flatMap_cons, List.append_assoc]
    exact .lexeme (Lexeme.spelling_of_valid first) ((ih valid).blanks blank)

instance : DecidablePred Piece.Valid
  | .plain _ => inferInstanceAs (Decidable (_ ∧ _ ∧ _))
  | .escaped _ => inferInstanceAs (Decidable (_ = _))
  | .unit _ => inferInstanceAs (Decidable (_ < _))

instance : DecidablePred Lexeme.Valid
  | .number literal => inferInstanceAs (Decidable (Number.scan? literal = some (literal, [])))
  | .string pieces => inferInstanceAs (Decidable (∀ p ∈ pieces, p.Valid))
  | .openBrace | .closeBrace | .openBracket | .closeBracket | .comma | .colon | .null | .bool _ =>
    .isTrue trivial

namespace Value

instance : DecidablePred Valid := fun v => inferInstanceAs (Decidable (∀ l ∈ v.lexemes, l.Valid))

/-! ## Documents -/

/-- The text is a document of the value. -/
def Document (v : Value) (s : String) : Prop := Spaced v.lexemes s.toList

/-- The text of a value with the same blanks after each of its lexemes. -/
def blankedText (v : Value) (blanks : List Char) : String :=
  String.ofList (v.lexemes.flatMap fun l => l.spell ++ blanks)

theorem document_blankedText {v : Value} (valid : v.Valid) {blanks : List Char}
    (blank : ∀ c ∈ blanks, isBlank c = true) : v.Document (v.blankedText blanks) := by
  rw [Document, blankedText, String.toList_ofList]
  exact spaced_of_valid valid blank

/-- A document of a value is read as the value. -/
theorem ofText?_of_document {v : Value} {s : String} (h : v.Document s) : ofText? s = some v := by
  have lexemes : Machine.run? .start v.lexemes = some ⟨[], .after v⟩ := by
    have read := Machine.run?_lexemes [] v []
    rwa [List.append_nil] at read
  rw [ofText?, h.scan? (isChain_lexemes v), Option.bind_some, ofLexemes?, lexemes]
  rfl

end Value

end Lookahead.Json
