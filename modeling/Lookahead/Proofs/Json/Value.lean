import Lookahead.Json.Value
import Lookahead.Proofs.Json.Lexeme

/-!
# Values are read as they are written

The machine that awaits a value and reads the lexemes of one has it afterwards, in whatever arrays
and objects it stands (`run?_lexemes`). No two numbers meet in the lexemes of a value
(`isChain_lexemes`). So a value is read back from its text if its numbers and strings are valid
(`ofText?_toText`).
-/

namespace Lookahead.Json

/-- Whether the numbers and strings of a value are read as they are spelled. -/
def Value.Valid (v : Value) : Prop := ∀ l ∈ v.lexemes, l.Valid

namespace Machine

/-! ## Reading lexemes -/

/-- A value begins the same in an array that has just been opened. -/
theorem run?_firstItem (frames : List Frame) (v : Value) (rest : List Lexeme) :
    run? ⟨frames, .firstItem⟩ (v.lexemes ++ rest) =
      run? ⟨.array [] :: frames, .value⟩ (v.lexemes ++ rest) := by
  cases v <;> rfl

mutual

/-- The machine that awaits a value has it after its lexemes. -/
theorem run?_lexemes (frames : List Frame) (v : Value) (rest : List Lexeme) :
    run? ⟨frames, .value⟩ (v.lexemes ++ rest) = run? ⟨frames, .after v⟩ rest := by
  cases v with
  | null => rfl
  | bool b => rfl
  | number literal => rfl
  | string pieces => rfl
  | array items =>
    cases items with
    | nil => rfl
    | cons v items =>
      have first : run? ⟨frames, .value⟩ ((Value.array (v :: items)).lexemes ++ rest) =
          run? ⟨frames, .firstItem⟩ (v.lexemes ++ (moreItemLexemes items ++ rest)) := by
        rw [← List.append_assoc]
        rfl
      rw [first, run?_firstItem, run?_lexemes, run?_moreItems]
      rfl
  | object members =>
    match members with
    | [] => rfl
    | (key, v) :: members =>
      have first : run? ⟨frames, .value⟩ ((Value.object ((key, v) :: members)).lexemes ++ rest) =
          run? ⟨.object [] key :: frames, .value⟩
            (v.lexemes ++ (moreMemberLexemes members ++ rest)) := by
        rw [← List.append_assoc]
        rfl
      rw [first, run?_lexemes, run?_moreMembers]
      rfl

/-- After an item the machine reads the further ones and closes the array. -/
theorem run?_moreItems (frames : List Frame) (done : List Value) (v : Value) (items : List Value)
    (rest : List Lexeme) :
    run? ⟨.array done :: frames, .after v⟩ (moreItemLexemes items ++ rest) =
      run? ⟨frames, .after (.array ((v :: done).reverse ++ items))⟩ rest := by
  cases items with
  | nil =>
    rw [List.append_nil]
    rfl
  | cons w items =>
    have first : run? ⟨.array done :: frames, .after v⟩ (moreItemLexemes (w :: items) ++ rest) =
        run? ⟨.array (v :: done) :: frames, .value⟩
          (w.lexemes ++ (moreItemLexemes items ++ rest)) := by
      rw [← List.append_assoc]
      rfl
    rw [first, run?_lexemes, run?_moreItems, List.reverse_cons, List.append_assoc,
      List.singleton_append]

/-- After a member the machine reads the further ones and closes the object. -/
theorem run?_moreMembers (frames : List Frame) (done : List (Literal × Value)) (key : Literal)
    (v : Value) (members : List (Literal × Value)) (rest : List Lexeme) :
    run? ⟨.object done key :: frames, .after v⟩ (moreMemberLexemes members ++ rest) =
      run? ⟨frames, .after (.object (((key, v) :: done).reverse ++ members))⟩ rest := by
  match members with
  | [] =>
    rw [List.append_nil]
    rfl
  | (next, w) :: members =>
    have first : run? ⟨.object done key :: frames, .after v⟩
          (moreMemberLexemes ((next, w) :: members) ++ rest) =
        run? ⟨.object ((key, v) :: done) next :: frames, .value⟩
          (w.lexemes ++ (moreMemberLexemes members ++ rest)) := by
      rw [← List.append_assoc]
      rfl
    rw [first, run?_lexemes, run?_moreMembers, List.reverse_cons, List.append_assoc,
      List.singleton_append]

end

end Machine

/-! ## Numbers do not meet -/

open Lexeme (Apart)

theorem isChain_cons_of_other {l : Lexeme} {ls : List Lexeme} (other : l.isNumber = false)
    (later : ls.IsChain Apart) : (l :: ls).IsChain Apart := by
  refine List.isChain_cons.2 ⟨fun m _ number => ?_, later⟩
  rw [other] at number
  cases number

theorem isChain_append_of_other {ls ms : List Lexeme} (first : ls.IsChain Apart)
    (later : ms.IsChain Apart) (other : ∀ m ∈ ms.head?, m.isNumber = false) :
    (ls ++ ms).IsChain Apart :=
  List.isChain_append.2 ⟨first, later, fun _ _ m hm _ => other m hm⟩

theorem head_moreItems (items : List Value) :
    ∀ m ∈ (moreItemLexemes items).head?, m.isNumber = false := by
  intro m hm
  cases items <;> cases hm <;> rfl

theorem head_moreMembers (members : List (Literal × Value)) :
    ∀ m ∈ (moreMemberLexemes members).head?, m.isNumber = false := by
  intro m hm
  cases members <;> cases hm <;> rfl

mutual

/-- No two numbers meet in the lexemes of a value. -/
theorem isChain_lexemes (v : Value) : v.lexemes.IsChain Apart := by
  cases v with
  | null => exact .singleton _
  | bool b => exact .singleton _
  | number literal => exact .singleton _
  | string pieces => exact .singleton _
  | array items =>
    apply isChain_cons_of_other rfl
    cases items with
    | nil => exact .singleton _
    | cons v items =>
      exact isChain_append_of_other (isChain_lexemes v) (isChain_moreItems items)
        (head_moreItems items)
  | object members =>
    apply isChain_cons_of_other rfl
    match members with
    | [] => exact .singleton _
    | (key, v) :: members =>
      apply isChain_cons_of_other rfl
      apply isChain_cons_of_other rfl
      exact isChain_append_of_other (isChain_lexemes v) (isChain_moreMembers members)
        (head_moreMembers members)

theorem isChain_moreItems (items : List Value) : (moreItemLexemes items).IsChain Apart := by
  cases items with
  | nil => exact .singleton _
  | cons v items =>
    apply isChain_cons_of_other rfl
    exact isChain_append_of_other (isChain_lexemes v) (isChain_moreItems items)
      (head_moreItems items)

theorem isChain_moreMembers (members : List (Literal × Value)) :
    (moreMemberLexemes members).IsChain Apart := by
  match members with
  | [] => exact .singleton _
  | (key, v) :: members =>
    apply isChain_cons_of_other rfl
    apply isChain_cons_of_other rfl
    apply isChain_cons_of_other rfl
    exact isChain_append_of_other (isChain_lexemes v) (isChain_moreMembers members)
      (head_moreMembers members)

end

namespace Value

/-! ## Documents -/

/-- A value whose numbers and strings are valid is read back from its text. -/
theorem ofText?_toText {v : Value} (valid : v.Valid) : ofText? v.toText = some v := by
  have lexemes : Machine.run? .start v.lexemes = some ⟨[], .after v⟩ := by
    have read := Machine.run?_lexemes [] v []
    rwa [List.append_nil] at read
  rw [ofText?, toText, String.toList_ofList, Lexeme.scan?_spells valid (isChain_lexemes v),
    Option.bind_some, ofLexemes?, lexemes]
  rfl

/-! ## Valid values -/

theorem valid_number {literal : List Char} (valid : Number.Valid literal) :
    (number literal).Valid := by
  intro l hl
  rw [lexemes, List.mem_singleton] at hl
  subst hl
  exact valid

theorem valid_string {pieces : Literal} (valid : pieces.Valid) : (string pieces).Valid := by
  intro l hl
  rw [lexemes, List.mem_singleton] at hl
  subst hl
  exact valid

theorem valid_moreItems {items : List Value} (valid : ∀ v ∈ items, v.Valid) :
    ∀ l ∈ moreItemLexemes items, l.Valid := by
  induction items with
  | nil =>
    intro l hl
    rw [moreItemLexemes, List.mem_singleton] at hl
    subst hl
    trivial
  | cons v items ih =>
    intro l hl
    rw [moreItemLexemes, List.cons_append, List.mem_cons, List.mem_append] at hl
    rcases hl with rfl | first | later
    · trivial
    · exact valid v List.mem_cons_self l first
    · exact ih (fun w hw => valid w (List.mem_cons_of_mem v hw)) l later

theorem valid_array {items : List Value} (valid : ∀ v ∈ items, v.Valid) : (array items).Valid := by
  intro l hl
  rw [lexemes, List.mem_cons] at hl
  rcases hl with rfl | hl
  · trivial
  · cases items with
    | nil => exact valid_moreItems valid l hl
    | cons v items => exact valid_moreItems valid l (List.mem_cons_of_mem _ hl)

theorem valid_moreMembers {members : List (Literal × Value)}
    (valid : ∀ m ∈ members, m.1.Valid ∧ m.2.Valid) : ∀ l ∈ moreMemberLexemes members, l.Valid := by
  induction members with
  | nil =>
    intro l hl
    rw [moreMemberLexemes, List.mem_singleton] at hl
    subst hl
    trivial
  | cons m members ih =>
    obtain ⟨key, v⟩ := m
    have first := valid (key, v) List.mem_cons_self
    intro l hl
    rw [moreMemberLexemes, List.cons_append, List.cons_append, List.cons_append, List.mem_cons,
      List.mem_cons, List.mem_cons, List.mem_append] at hl
    rcases hl with rfl | rfl | rfl | here | later
    · trivial
    · exact first.1
    · trivial
    · exact first.2 l here
    · exact ih (fun w hw => valid w (List.mem_cons_of_mem _ hw)) l later

theorem valid_object {members : List (Literal × Value)}
    (valid : ∀ m ∈ members, m.1.Valid ∧ m.2.Valid) : (object members).Valid := by
  intro l hl
  rw [lexemes, List.mem_cons] at hl
  rcases hl with rfl | hl
  · trivial
  · cases members with
    | nil => exact valid_moreMembers valid l hl
    | cons m members => exact valid_moreMembers valid l (List.mem_cons_of_mem _ hl)

end Value

end Lookahead.Json
