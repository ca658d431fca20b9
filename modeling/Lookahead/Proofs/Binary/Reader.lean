import Mathlib.Data.List.Infix
import Lookahead.Binary.Reader

/-!
# Readers that find the end of a value

`Reads reader code a` says that a reader takes `a` from the bytes `code`, that it takes nothing of
what follows them, and that it refuses every proper beginning of them because it ends too early.
Readers that are bound one after the other read codes that are written one after the other
(`Reads.bind`), so the writers and readers of records are compared part by part.
-/

namespace Lookahead.Binary

/-- The bytes `code` are read as `a`, whatever follows them and not before the last of them. -/
structure Reads {α : Type} (reader : Reader α) (code : List UInt8) (a : α) : Prop where
  whole : ∀ rest, reader.run (code ++ rest) = .ok (a, rest)
  cut : ∀ {front}, front <+: code → front ≠ code → reader.run front = .error .unexpectedEnd

variable {α β : Type}

theorem reads_pure (a : α) : Reads (pure a) [] a where
  whole _ := rfl
  cut begins proper := absurd (List.prefix_nil.1 begins) proper

/-- What is decided on the way, without reading. -/
theorem reads_lift {result : Except Fault α} {next : α → Reader β} {code : List UInt8} {a : α}
    {b : β} (ok : result = .ok a) (h : Reads (next a) code b) :
    Reads (liftM result >>= next) code b := by
  subst ok
  exact h

/-- A beginning of two codes is a proper one of the first code, or goes on into the second. -/
theorem Reads.bind {reader : Reader α} {next : α → Reader β} {code code' : List UInt8} {a : α}
    {b : β} (first : Reads reader code a) (second : Reads (next a) code' b) :
    Reads (reader >>= next) (code ++ code') b where
  whole rest := by
    rw [StateT.run_bind, List.append_assoc, first.whole]
    exact second.whole rest
  cut := by
    intro front begins proper
    rw [StateT.run_bind]
    by_cases past : code <+: front
    · obtain ⟨front', rfl⟩ := past
      have begins' : front' <+: code' := (List.prefix_append_right_inj code).1 begins
      have proper' : front' ≠ code' := fun same => proper (congrArg (code ++ ·) same)
      rw [first.whole]
      exact second.cut begins' proper'
    · have within : front <+: code :=
        (List.prefix_or_prefix_of_prefix begins (List.prefix_append code code')).resolve_right past
      have short : front ≠ code := by
        rintro rfl
        exact past (List.prefix_refl _)
      rw [first.cut within short]
      rfl

/-- After the code is read, nothing more is. -/
theorem Reads.bind_nil {reader : Reader α} {next : α → Reader β} {code : List UInt8} {a : α} {b : β}
    (first : Reads reader code a) (last : Reads (next a) [] b) :
    Reads (reader >>= next) code b := by
  have both := first.bind last
  rwa [List.append_nil] at both

/-- A value that is read and then put into another. -/
theorem Reads.map {reader : Reader α} {code : List UInt8} {a : α} (h : Reads reader code a)
    (f : α → β) : Reads (reader >>= fun a => pure (f a)) code (f a) :=
  h.bind_nil (reads_pure (f a))

theorem reads_byte (b : UInt8) : Reads Reader.byte [b] b where
  whole _ := rfl
  cut := by
    intro front begins proper
    rcases List.prefix_cons_iff.1 begins with rfl | ⟨front', rfl, begins'⟩
    · rfl
    · rw [List.prefix_nil.1 begins'] at proper
      exact absurd rfl proper

theorem run_bytes (n : Nat) (input : List UInt8) :
    (Reader.bytes n).run input =
      if n ≤ input.length then .ok (input.take n, input.drop n) else .error .unexpectedEnd := by
  have looked : (Reader.bytes n).run input =
      (if n ≤ input.length then do
        set (input.drop n)
        pure (input.take n)
      else throw .unexpectedEnd : Reader (List UInt8)).run input := rfl
  rw [looked]
  split <;> rfl

theorem reads_bytes (code : List UInt8) : Reads (Reader.bytes code.length) code code where
  whole rest := by
    have enough : code.length ≤ (code ++ rest).length := by
      rw [List.length_append]
      exact Nat.le_add_right _ _
    rw [run_bytes, if_pos enough, List.take_left, List.drop_left]
  cut := by
    intro front begins proper
    have few : ¬code.length ≤ front.length := fun le => proper (begins.eq_of_length_le le)
    rw [run_bytes, if_neg few]

/-- Items that are written one after the other are taken into a state one after the other. -/
theorem reads_times {next : α → Reader α} {step : α → β → α} {write : β → List UInt8}
    (each : ∀ a item, Reads (next a) (write item) (step a item)) (items : List β) (a : α) :
    Reads (Reader.times next items.length a) (items.flatMap write) (items.foldl step a) := by
  induction items generalizing a with
  | nil => exact reads_pure a
  | cons item items ih =>
    rw [List.flatMap_cons]
    exact (each a item).bind (ih (step a item))

/-! ## Decoding -/

section

variable {reader : Reader α} {code : List UInt8} {a : α} (h : Reads reader code a)

include h

/-- The value is decoded from its code, and the bytes taken are those of the code. -/
theorem Reads.decode_append (rest : List UInt8) :
    Reader.decode reader (code ++ rest) = .ok (a, code.length) := by
  have taken : (code ++ rest).length - rest.length = code.length := by
    rw [List.length_append, Nat.add_sub_cancel]
  rw [Reader.decode, h.whole]
  simp only [taken]

/-- Nothing is decoded from a code that is cut off. -/
theorem Reads.decode_cut {front : List UInt8} (begins : front <+: code) (proper : front ≠ code) :
    Reader.decode reader front = .error .unexpectedEnd := by
  rw [Reader.decode, h.cut begins proper]

end

end Lookahead.Binary
