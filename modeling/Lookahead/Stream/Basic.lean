import Lookahead.Journal

/-!
# Buffered token streams

A `Stream` takes tokens from its source one pull at a time, and only when a request needs more of
them. The tokens its policy keeps go to the end of `buffer` and stay there; the slot of a token is
its index. The end-of-stream token is never buffered: once pulled it is remembered in `endToken`,
and the source is left alone from then on.

`pull` is the only operation that asks the source on the stream's behalf, and `pullUntil` the only
loop around it. An operation may be interrupted by the source's error; what was buffered before
stays.
-/

namespace Lookahead

/-- A stream over a source. `cursor` is the slot of the token to be consumed next, unset until a
request needs it. -/
structure Stream (σ : Type) where
  policy : Policy
  source : σ
  buffer : Array Token
  endToken : Option Token
  cursor : Option Nat
  lastMark : Nat
  journal : Array Event

/-- Why an operation gave no answer. -/
inductive Interrupt
  /-- A pull failed. -/
  | failed (error : SourceError)
  /-- The pulls allowed to the operation were used up. -/
  | outOfPulls
  deriving DecidableEq, Repr

/-- Operations on a stream: they answer or are interrupted, and leave a stream either way. -/
abbrev StreamM (σ : Type) := ExceptT Interrupt (StateM (Stream σ))

namespace StreamM

variable {σ α β : Type}

/-- Carries out an operation: its answer, and the stream it leaves. -/
def perform (op : StreamM σ α) (s : Stream σ) : Except Interrupt α × Stream σ := op.run.run s

@[simp] theorem perform_pure (a : α) (s : Stream σ) :
    (pure a : StreamM σ α).perform s = (.ok a, s) := rfl

@[simp] theorem perform_throw (i : Interrupt) (s : Stream σ) :
    (throw i : StreamM σ α).perform s = (.error i, s) := rfl

@[simp] theorem perform_get (s : Stream σ) :
    (get : StreamM σ (Stream σ)).perform s = (.ok s, s) := rfl

@[simp] theorem perform_set (s t : Stream σ) :
    (set t : StreamM σ PUnit).perform s = (.ok ⟨⟩, t) := rfl

/-- One operation after another: an interrupt of the first is one of both, and the second starts
from the stream that the first leaves. -/
theorem perform_bind (op : StreamM σ α) (next : α → StreamM σ β) (s : Stream σ) :
    (op >>= next).perform s =
      match op.perform s with
      | (.ok a, t) => (next a).perform t
      | (.error i, t) => (.error i, t) := by
  simp only [perform, ExceptT.run_bind, StateT.run_bind]
  generalize StateT.run (ExceptT.run op) s = r
  rcases r with ⟨_ | _, t⟩ <;> rfl

theorem perform_bind_of_ok {op : StreamM σ α} {s t : Stream σ} {a : α}
    (h : op.perform s = (.ok a, t)) (next : α → StreamM σ β) :
    (op >>= next).perform s = (next a).perform t := by
  rw [perform_bind, h]

theorem perform_bind_of_error {op : StreamM σ α} {s t : Stream σ} {i : Interrupt}
    (h : op.perform s = (.error i, t)) (next : α → StreamM σ β) :
    (op >>= next).perform s = (.error i, t) := by
  rw [perform_bind, h]

/-- What it takes for one operation after another to answer. -/
theorem perform_bind_ok {op : StreamM σ α} {next : α → StreamM σ β} {s u : Stream σ} {b : β}
    (h : (op >>= next).perform s = (.ok b, u)) :
    ∃ a t, op.perform s = (.ok a, t) ∧ (next a).perform t = (.ok b, u) := by
  rcases first : op.perform s with ⟨i | a, t⟩
  · rw [perform_bind_of_error first] at h
    cases h
  · rw [perform_bind_of_ok first] at h
    exact ⟨a, t, rfl, h⟩

/-- What it takes for one operation after another to be interrupted. -/
theorem perform_bind_error {op : StreamM σ α} {next : α → StreamM σ β} {s u : Stream σ}
    {i : Interrupt} (h : (op >>= next).perform s = (.error i, u)) :
    op.perform s = (.error i, u) ∨
      ∃ a t, op.perform s = (.ok a, t) ∧ (next a).perform t = (.error i, u) := by
  rcases first : op.perform s with ⟨j | a, t⟩
  · rw [perform_bind_of_error first] at h
    cases h
    exact Or.inl rfl
  · rw [perform_bind_of_ok first] at h
    exact Or.inr ⟨a, t, rfl, h⟩

end StreamM

namespace Stream

variable {σ : Type}

/-- A stream that has pulled nothing yet. -/
def start (policy : Policy) (source : σ) : Stream σ :=
  { policy, source, buffer := #[], endToken := none, cursor := none, lastMark := 0
    journal := #[] }

/-- The number of tokens buffered so far. -/
def size (s : Stream σ) : Nat := s.buffer.size

/-- The place of the cursor, which is the first slot until it is needed. -/
def index (s : Stream σ) : Nat := s.cursor.getD 0

/-- Whether the end-of-stream token has been pulled. -/
def isDry (s : Stream σ) : Bool := s.endToken.isSome

/-- The stream with one more event in its journal. -/
def note (s : Stream σ) (e : Event) : Stream σ := { s with journal := s.journal.push e }

/-- Takes in a token that was pulled: the end-of-stream token is remembered, any other is judged
by the policy and, if it is to be kept, buffered on the channel it belongs to. -/
def receive (s : Stream σ) (t : Token) : Stream σ :=
  if t.isEnd then { s.note (.ended t s.size) with endToken := some (t.stamp s.size) }
  else
    match s.policy.judge t with
    | .keep channel =>
      { s.note (.received t (.keep channel)) with
        buffer := s.buffer.push ((t.moveTo channel).stamp s.size) }
    | verdict => s.note (.received t verdict)

/-- The log records of the events after the first `n`. -/
def recordsSince (s : Stream σ) (n : Nat) : List Record :=
  (s.journal.toList.drop n).filterMap Event.record?

variable [TokenSource σ]

/-- Pulls the source once and takes in the token. -/
def pull : StreamM σ Unit := do
  let s ← get
  match TokenSource.next s.source with
  | (.ok t, source) => set (receive { s with source } t)
  | (.error e, source) =>
    set (note { s with source } (.failed e))
    throw (.failed e)

/-- Pulls until the stream is ready or dry, at most `limit` times. -/
def pullUntil (ready : Stream σ → Bool) : (limit : Nat) → StreamM σ Unit
  | 0 => do
    let s ← get
    if s.isDry || ready s then pure () else throw .outOfPulls
  | limit + 1 => do
    let s ← get
    if s.isDry || ready s then pure ()
    else do
      pull
      pullUntil ready limit

/-! ## What a pull does -/

theorem perform_pull_ok {s : Stream σ} {t : Token} {source : σ}
    (h : TokenSource.next s.source = (.ok t, source)) :
    (pull : StreamM σ Unit).perform s = (.ok (), receive { s with source } t) := by
  simp [pull, StreamM.perform_bind, h]

theorem perform_pull_error {s : Stream σ} {e : SourceError} {source : σ}
    (h : TokenSource.next s.source = (.error e, source)) :
    (pull : StreamM σ Unit).perform s =
      (.error (.failed e), note { s with source } (.failed e)) := by
  simp [pull, StreamM.perform_bind, h]

theorem perform_pullUntil_of_ready {ready : Stream σ → Bool} {s : Stream σ}
    (h : (s.isDry || ready s) = true) (limit : Nat) :
    (pullUntil ready limit).perform s = (.ok (), s) := by
  cases limit <;>
    simp only [pullUntil, StreamM.perform_bind, StreamM.perform_get, h, if_true,
      StreamM.perform_pure]

theorem perform_pullUntil_zero {ready : Stream σ → Bool} {s : Stream σ}
    (h : (s.isDry || ready s) = false) :
    (pullUntil ready 0).perform s = (.error .outOfPulls, s) := by
  simp only [pullUntil, StreamM.perform_bind, StreamM.perform_get, h, Bool.false_eq_true, if_false,
    StreamM.perform_throw]

theorem perform_pullUntil_succ {ready : Stream σ → Bool} {s : Stream σ}
    (h : (s.isDry || ready s) = false) (limit : Nat) :
    (pullUntil ready (limit + 1)).perform s =
      (pull >>= fun _ => pullUntil ready limit).perform s := by
  rw [pullUntil, StreamM.perform_bind, StreamM.perform_get]
  simp only [h, Bool.false_eq_true, if_false]

/-! ## Filling the buffer -/

/-- Makes sure that slot `i` is filled, unless the source ends first. -/
def reach (limit i : Nat) : StreamM σ Unit := pullUntil (fun s => i < s.size) limit

/-- Pulls until the source ends. -/
def fill (limit : Nat) : StreamM σ Unit := pullUntil (fun _ => false) limit

end Stream

end Lookahead
