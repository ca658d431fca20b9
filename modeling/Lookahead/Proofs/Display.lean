import Mathlib.Data.List.TakeWhile
import Lookahead.Token.Display

/-!
# The display form is unambiguous

A number ends where no digit goes on, so it is told from its digits and what comes after them
(`digits_append_inj`), and so is every other part of the form but the text. The text may hold
anything, quotes and an imitation of the rest of the form included; what comes after it holds no
quote, so the text ends at the last one. Two tokens are shown alike exactly if all that is shown of
them is equal (`display_tells`).
-/

namespace Lookahead.Token

/-! ## Cutting a form in two -/

section

variable {α : Type} {a : α} {x₁ x₂ r₁ r₂ : List α}

/-- Two equal lists are cut alike at the first place where an element stands. -/
theorem cut_first (h₁ : a ∉ x₁) (h₂ : a ∉ x₂) (same : x₁ ++ a :: r₁ = x₂ ++ a :: r₂) :
    x₁ = x₂ ∧ r₁ = r₂ := by
  induction x₁ generalizing x₂ with
  | nil =>
    cases x₂ with
    | nil => exact ⟨rfl, (List.cons.inj same).2⟩
    | cons b x₂ => exact absurd ((List.cons.inj same).1 ▸ List.mem_cons_self) h₂
  | cons b x₁ ih =>
    cases x₂ with
    | nil => exact absurd ((List.cons.inj same).1 ▸ List.mem_cons_self) h₁
    | cons c x₂ =>
      obtain ⟨rfl, tails⟩ := List.cons.inj same
      obtain ⟨rfl, rests⟩ := ih (List.not_mem_of_not_mem_cons h₁)
        (List.not_mem_of_not_mem_cons h₂) tails
      exact ⟨rfl, rests⟩

/-- Two equal lists are cut alike at the last place where an element stands. -/
theorem cut_last (h₁ : a ∉ r₁) (h₂ : a ∉ r₂) (same : x₁ ++ a :: r₁ = x₂ ++ a :: r₂) :
    x₁ = x₂ ∧ r₁ = r₂ := by
  have reversed : r₁.reverse ++ a :: x₁.reverse = r₂.reverse ++ a :: x₂.reverse := by
    simpa using congrArg List.reverse same
  obtain ⟨rests, befores⟩ := cut_first (by simpa using h₁) (by simpa using h₂) reversed
  exact ⟨List.reverse_inj.1 befores, List.reverse_inj.1 rests⟩

end

/-! ## Numbers -/

theorem isDigit_of_mem_digits {n : Nat} {c : Char} (h : c ∈ digits n) : c.isDigit = true :=
  Nat.isDigit_of_mem_toDigits (by decide) (by decide) h

/-- A form that begins with a number does not begin with another sign. -/
theorem digits_append_ne_cons {c : Char} (h : c.isDigit = false) (n : Nat) (r s : List Char) :
    digits n ++ r ≠ c :: s := by
  obtain ⟨d, ds, shown⟩ := List.exists_cons_of_ne_nil (show digits n ≠ [] from Nat.toDigits_ne_nil)
  have digit : d.isDigit = true := isDigit_of_mem_digits (shown ▸ List.mem_cons_self)
  intro same
  rw [shown] at same
  rw [(List.cons.inj same).1, h] at digit
  cases digit

/-- The digits of a number are what a form begins with until a sign that is none. -/
theorem takeWhile_digits_append {c : Char} (h : c.isDigit = false) (n : Nat) (rest : List Char) :
    (digits n ++ c :: rest).takeWhile Char.isDigit = digits n := by
  rw [List.takeWhile_append_of_pos fun _ => isDigit_of_mem_digits, List.takeWhile_cons, h,
    if_neg Bool.false_ne_true, List.append_nil]

theorem digits_append_inj {m n : Nat} {c d : Char} {r s : List Char} (hc : c.isDigit = false)
    (hd : d.isDigit = false) (same : digits m ++ c :: r = digits n ++ d :: s) :
    m = n ∧ c :: r = d :: s := by
  have shown : digits m = digits n := by
    rw [← takeWhile_digits_append hc m r, same, takeWhile_digits_append hd n s]
  have read := congrArg (fun ds => Nat.ofDigitChars 10 ds 0) shown
  rw [shown] at same
  simp only [digits, Nat.ofDigitChars_toDigits (by decide : 1 < 10) (by decide)] at read
  exact ⟨read, List.append_cancel_left same⟩

/-! ## The parts around the text -/

theorem shownIndex_append_inj {i j : Option Nat} {r s : List Char}
    (same : shownIndex i ++ ',' :: r = shownIndex j ++ ',' :: s) : i = j ∧ r = s := by
  cases i with
  | none =>
    cases j with
    | none => exact ⟨rfl, by simpa [shownIndex] using same⟩
    | some n => exact absurd same.symm (digits_append_ne_cons (by decide) n _ _)
  | some m =>
    cases j with
    | none => exact absurd same (digits_append_ne_cons (by decide) m _ _)
    | some n =>
      obtain ⟨rfl, rests⟩ := digits_append_inj (by decide) (by decide) same
      exact ⟨rfl, (List.cons.inj rests).2⟩

theorem shownKind_append_inj {k l : Kind} {r s : List Char}
    (same : shownKind k ++ r = shownKind l ++ s) : k = l ∧ r = s := by
  have numbered {m : Kind} (other : m ≠ .endOfStream) (rest : List Char) :
      shownKind m ++ rest = '<' :: (digits m.toNat ++ '>' :: rest) := by
    rw [shownKind, if_neg other, List.cons_append, List.cons_append, List.append_assoc]
    rfl
  by_cases hk : k = .endOfStream
  · by_cases hl : l = .endOfStream
    · subst hk hl
      exact ⟨rfl, List.append_cancel_left same⟩
    · subst hk
      rw [numbered hl] at same
      exact absurd (List.cons.inj same).2.symm (digits_append_ne_cons (by decide) l.toNat _ _)
  · rw [numbered hk] at same
    by_cases hl : l = .endOfStream
    · subst hl
      exact absurd (List.cons.inj same).2 (digits_append_ne_cons (by decide) k.toNat _ _)
    · rw [numbered hl] at same
      obtain ⟨number, rests⟩ :=
        digits_append_inj (by decide) (by decide) (List.cons.inj same).2
      exact ⟨UInt32.toNat_inj.1 number, (List.cons.inj rests).2⟩

/-- After a channel that is left out comes the line, so a digit and not the name of a channel. -/
theorem shownChannel_append_inj {c d : Channel} {m n : Nat} {r s : List Char}
    (same : shownChannel c ++ ',' :: (digits m ++ r) = shownChannel d ++ ',' :: (digits n ++ s)) :
    c = d ∧ digits m ++ r = digits n ++ s := by
  have omitted (rest : List Char) : shownChannel .standard ++ rest = rest := rfl
  have named {e : Channel} (other : e ≠ .standard) (rest : List Char) :
      shownChannel e ++ rest = ',' :: 'c' :: ("hannel=".toList ++ (digits e.toNat ++ rest)) := by
    rw [shownChannel, if_neg other, List.append_assoc]
    rfl
  by_cases hc : c = .standard
  · by_cases hd : d = .standard
    · subst hc hd
      exact ⟨rfl, (List.cons.inj same).2⟩
    · subst hc
      rw [omitted, named hd] at same
      exact absurd (List.cons.inj same).2 (digits_append_ne_cons (by decide) m _ _)
  · rw [named hc] at same
    by_cases hd : d = .standard
    · subst hd
      rw [omitted] at same
      exact absurd (List.cons.inj same).2.symm (digits_append_ne_cons (by decide) n _ _)
    · rw [named hd] at same
      obtain ⟨number, rests⟩ := digits_append_inj (by decide) (by decide)
        (List.append_cancel_left (List.cons.inj (List.cons.inj same).2).2)
      exact ⟨UInt32.toNat_inj.1 number, (List.cons.inj rests).2⟩

/-! ## The form around its text -/

/-- What comes after the text and its closing quote. -/
def shownRest (t : Token) : List Char :=
  ',' :: (shownKind t.kind ++ (shownChannel t.channel
    ++ ',' :: (digits (t.span.start.line.toNat + 1)
      ++ ':' :: (digits t.span.start.column.toNat ++ [']']))))

theorem displayChars_eq (t : Token) : t.displayChars
    = '[' :: '@' :: (shownIndex t.index
      ++ ',' :: '\'' :: (shownText t.text ++ '\'' :: shownRest t)) := by
  show ['[', '@'] ++ shownIndex t.index ++ [',', '\''] ++ shownText t.text ++ ['\'', ',']
    ++ shownKind t.kind ++ shownChannel t.channel ++ ',' :: shownStart t.span.start ++ [']'] = _
  simp [shownRest, shownStart]

theorem shownRest_inj {t u : Token} (same : shownRest t = shownRest u) :
    t.kind = u.kind ∧ t.channel = u.channel ∧ t.span.start.line = u.span.start.line ∧
      t.span.start.column = u.span.start.column := by
  obtain ⟨kind, same⟩ := shownKind_append_inj (List.cons.inj same).2
  obtain ⟨channel, same⟩ := shownChannel_append_inj same
  obtain ⟨line, same⟩ := digits_append_inj (by decide) (by decide) same
  obtain ⟨column, -⟩ := digits_append_inj (by decide) (by decide) (List.cons.inj same).2
  exact ⟨kind, channel, UInt64.toNat_inj.1 (Nat.succ.inj line), UInt64.toNat_inj.1 column⟩

/-- The signs that are written around the text. -/
def IsFrame (c : Char) : Prop := c.isDigit = true ∨ c ∈ "[@-<EOF>,channel=:]".toList

instance : DecidablePred IsFrame := fun _ => inferInstanceAs (Decidable (_ ∨ _))

theorem isFrame_digits (n : Nat) : ∀ c ∈ digits n, IsFrame c :=
  fun _ h => Or.inl (isDigit_of_mem_digits h)

theorem isFrame_shownIndex (i : Option Nat) : ∀ c ∈ shownIndex i, IsFrame c := by
  cases i with
  | none =>
    rw [shownIndex, List.forall_mem_cons, List.forall_mem_singleton]
    exact ⟨Or.inr (by decide), Or.inl rfl⟩
  | some n => exact isFrame_digits n

theorem isFrame_shownKind (k : Kind) : ∀ c ∈ shownKind k, IsFrame c := by
  unfold shownKind
  split
  · have named : "<EOF>".toList <:+: "[@-<EOF>,channel=:]".toList := ⟨['[', '@', '-'], _, rfl⟩
    exact fun c h => Or.inr (named.subset h)
  · rw [List.cons_append, List.forall_mem_cons, List.forall_mem_append, List.forall_mem_singleton]
    exact ⟨Or.inr (by decide), isFrame_digits _, Or.inr (by decide)⟩

theorem isFrame_shownChannel (channel : Channel) : ∀ c ∈ shownChannel channel, IsFrame c := by
  unfold shownChannel
  split
  · exact List.forall_mem_nil _
  · have named : ",channel=".toList <:+: "[@-<EOF>,channel=:]".toList :=
      ⟨"[@-<EOF>".toList, _, rfl⟩
    exact List.forall_mem_append.2 ⟨fun c h => Or.inr (named.subset h), isFrame_digits _⟩

theorem isFrame_shownRest (t : Token) : ∀ c ∈ shownRest t, IsFrame c := by
  simp only [shownRest, List.forall_mem_cons, List.forall_mem_append]
  exact ⟨Or.inr (by decide), isFrame_shownKind _, isFrame_shownChannel _, Or.inr (by decide),
    isFrame_digits _, Or.inr (by decide), isFrame_digits _, Or.inr (by decide),
    List.forall_mem_nil _⟩

theorem quote_notMem_shownRest (t : Token) : '\'' ∉ shownRest t := fun h =>
  absurd (isFrame_shownRest t _ h) (by decide)

/-! ## The text on one line -/

/-- The text with an escape in place of each occurrence of a character. -/
def escaped (char : Char) (escape : String) (text : List Char) : List Char :=
  text.flatMap fun c => if c = char then escape.toList else [c]

/-- The text with a backslash and a letter in place of each line feed, carriage return and tab. -/
def onOneLine (text : String) : List Char :=
  escaped '\t' "\\t" (escaped '\r' "\\r" (escaped '\n' "\\n" text.toList))

/-- The characters that a form on one line must not hold. -/
def IsLayout (c : Char) : Prop := c = '\n' ∨ c = '\r' ∨ c = '\t'

instance : DecidablePred IsLayout := fun _ => inferInstanceAs (Decidable (_ ∨ _ ∨ _))

theorem shownChar_of_not_isLayout {c : Char} (h : ¬ IsLayout c) : shownChar c = [c] := by
  unfold shownChar
  split
  · exact absurd (Or.inl rfl) h
  · exact absurd (Or.inr (Or.inl rfl)) h
  · exact absurd (Or.inr (Or.inr rfl)) h
  · rfl

/-- No escape holds a character that a later replacement is about. -/
theorem shownText_eq (text : String) : shownText text = onOneLine text := by
  rw [onOneLine, escaped, escaped, escaped, List.flatMap_assoc, List.flatMap_assoc, shownText]
  congr 1
  funext c
  by_cases layout : IsLayout c
  · rcases layout with rfl | rfl | rfl
    all_goals rfl
  · rw [shownChar_of_not_isLayout layout]
    obtain ⟨feed, ret, tab⟩ := not_or.1 layout |>.imp_right not_or.1
    simp [feed, ret, tab]

theorem not_isLayout_shownChar (d : Char) : ∀ c ∈ shownChar d, ¬ IsLayout c := by
  by_cases layout : IsLayout d
  · rcases layout with rfl | rfl | rfl
    all_goals exact List.forall_mem_cons.2 ⟨by decide, List.forall_mem_singleton.2 (by decide)⟩
  · rw [shownChar_of_not_isLayout layout]
    exact List.forall_mem_singleton.2 layout

theorem not_isLayout_shownText (text : String) : ∀ c ∈ shownText text, ¬ IsLayout c := by
  intro c h
  obtain ⟨d, -, shown⟩ := List.mem_flatMap.1 h
  exact not_isLayout_shownChar d c shown

theorem not_isLayout_of_isFrame {c : Char} (h : IsFrame c) : ¬ IsLayout c := by
  rintro (rfl | rfl | rfl)
  all_goals exact absurd h (by decide)

/-! ## The whole form -/

theorem displayChars_inj {t u : Token} (same : t.displayChars = u.displayChars) :
    t.index = u.index ∧ shownText t.text = shownText u.text ∧ shownRest t = shownRest u := by
  rw [displayChars_eq, displayChars_eq] at same
  obtain ⟨index, same⟩ := shownIndex_append_inj (List.cons.inj (List.cons.inj same).2).2
  exact ⟨index, cut_last (quote_notMem_shownRest t) (quote_notMem_shownRest u)
    (List.cons.inj same).2⟩

theorem not_isLayout_displayChars (t : Token) : ∀ c ∈ t.displayChars, ¬ IsLayout c := by
  rw [displayChars_eq]
  simp only [List.forall_mem_cons, List.forall_mem_append]
  exact ⟨by decide, by decide, fun c h => not_isLayout_of_isFrame (isFrame_shownIndex _ c h),
    by decide, by decide, not_isLayout_shownText _, by decide,
    fun c h => not_isLayout_of_isFrame (isFrame_shownRest t c h)⟩

/-- Two tokens have the same display form exactly if index, kind, channel and place are equal and
the texts are equal on one line; and the form is on one line. -/
theorem display_tells (t u : Token) :
    (t.display = u.display ↔
      t.index = u.index ∧ t.kind = u.kind ∧ t.channel = u.channel ∧
        t.span.start.line = u.span.start.line ∧ t.span.start.column = u.span.start.column ∧
        onOneLine t.text = onOneLine u.text) ∧
      ∀ c ∈ t.display.toList, c ≠ '\n' ∧ c ≠ '\r' ∧ c ≠ '\t' := by
  refine ⟨⟨fun same => ?_, ?_⟩, fun c h => ?_⟩
  · obtain ⟨index, text, rest⟩ := displayChars_inj (String.ofList_injective same)
    obtain ⟨kind, channel, line, column⟩ := shownRest_inj rest
    rw [shownText_eq, shownText_eq] at text
    exact ⟨index, kind, channel, line, column, text⟩
  · rintro ⟨index, kind, channel, line, column, text⟩
    rw [← shownText_eq, ← shownText_eq] at text
    have rest : shownRest t = shownRest u := by
      rw [shownRest, shownRest, kind, channel, line, column]
    rw [display, display, displayChars_eq, displayChars_eq, index, text, rest]
  · rw [display, String.toList_ofList] at h
    simpa [IsLayout] using not_isLayout_displayChars t c h

/-- A line feed and the escape that stands for it are shown alike. -/
example : (plain 5 "a\nb" .unplaced).display = (plain 5 "a\\nb" .unplaced).display := by decide

end Lookahead.Token
