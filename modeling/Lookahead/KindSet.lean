import Lookahead.Token

/-!
# Sets of token kinds

A lexer numbers its kinds from zero up and rarely has more than a few hundred, so a `KindSet`
keeps the codes below `denseBound` as bits of 64-bit words and the others, the end-of-stream code
among them, in an ascending array: one huge code never makes the words grow.

`contains`, `insert` and `remove` work on whichever half a code belongs to; in the array they look
for it by halving. `toList` is the view through which sets are compared, so zero words at the end,
which are room and not members, do not count.
-/

namespace Lookahead

/-! ## Words of 64 bits -/

namespace Word

/-- The word whose only bit is bit `i`. -/
def single (i : Nat) : UInt64 := 1 <<< UInt64.ofNat i

/-- Whether bit `i` of a word is set. -/
def has (w : UInt64) (i : Nat) : Bool := w &&& single i != 0

/-- The word with bit `i` set. -/
def set (w : UInt64) (i : Nat) : UInt64 := w ||| single i

/-- The word with bit `i` cleared. -/
def clear (w : UInt64) (i : Nat) : UInt64 := w &&& ~~~ single i

/-- The bits that are set, in ascending order. -/
def bits (w : UInt64) : List Nat := (List.range 64).filter (has w)

end Word

/-! ## Ascending arrays of codes -/

namespace Ascending

/-- What comes of looking for a code: the slot that holds it, or the one it would have to be put
in. -/
inductive Place (kinds : Array Kind)
  | found (i : Fin kinds.size)
  | vacant (i : Fin (kinds.size + 1))

/-- Looks for a code in the slots from `low` up to `high`, halving them with every look. -/
def searchBetween (kinds : Array Kind) (kind : Kind) (low high : Nat) (ordered : low ≤ high)
    (inside : high ≤ kinds.size) : Place kinds :=
  if left : low < high then
    let middle := (low + high) / 2
    have bound : middle < kinds.size := by omega
    if kinds[middle] < kind then
      searchBetween kinds kind (middle + 1) high (by omega) inside
    else if kind < kinds[middle] then
      searchBetween kinds kind low middle (by omega) (by omega)
    else .found ⟨middle, bound⟩
  else .vacant ⟨low, by omega⟩
termination_by high - low

/-- Looks for a code in an ascending array. -/
def search (kinds : Array Kind) (kind : Kind) : Place kinds :=
  searchBetween kinds kind 0 kinds.size (Nat.zero_le _) (Nat.le_refl _)

end Ascending

/-! ## The sets -/

/-- A set of kinds: `words` holds the members below the bound, 64 to a word, and `sparse` the
others. -/
structure KindSet where
  words : Array UInt64
  sparse : Array Kind
  deriving Repr

namespace KindSet

/-- Codes below this bound are bits of the words. -/
def denseBound : Nat := 4096

/-- Whether a code is kept as a bit. -/
def isDense (kind : Kind) : Bool := kind.toNat < denseBound

/-- The word that holds the bit of a dense code. -/
def wordOf (kind : Kind) : Nat := kind.toNat / 64

/-- The place of that bit in its word. -/
def bitOf (kind : Kind) : Nat := kind.toNat % 64

/-- The empty set without any words. -/
def empty : KindSet := ⟨#[], #[]⟩

/-- The empty set with room for the codes below `64 * n`. -/
def withRoom (n : Nat) : KindSet := ⟨Array.replicate n 0, #[]⟩

/-- The empty set with room for the codes most lexers use. -/
def fresh : KindSet := withRoom 2

/-- Whether the bit of a dense code is set. There are no bits beyond the last word. -/
def hasBit (s : KindSet) (kind : Kind) : Bool :=
  s.words[wordOf kind]?.any (Word.has · (bitOf kind))

/-- Whether a code is a member. -/
def contains (s : KindSet) (kind : Kind) : Bool :=
  if isDense kind then s.hasBit kind
  else
    match Ascending.search s.sparse kind with
    | .found _ => true
    | .vacant _ => false

/-- The set with as many more words as it takes for word `i` to be there, all of them zero. -/
def reaching (s : KindSet) (i : Nat) : KindSet :=
  { s with words := s.words ++ Array.replicate (i + 1 - s.words.size) 0 }

/-- Adds a code, and tells whether it was absent before. -/
def insert (s : KindSet) (kind : Kind) : Bool × KindSet :=
  if isDense kind then
    let t := s.reaching (wordOf kind)
    (!t.hasBit kind,
      { t with words := t.words.modify (wordOf kind) (Word.set · (bitOf kind)) })
  else
    match Ascending.search s.sparse kind with
    | .found _ => (false, s)
    | .vacant i => (true, { s with sparse := s.sparse.insertIdx i kind })

/-- Takes a code out, and tells whether it was present before. -/
def remove (s : KindSet) (kind : Kind) : Bool × KindSet :=
  if isDense kind then
    if s.hasBit kind then
      (true, { s with words := s.words.modify (wordOf kind) (Word.clear · (bitOf kind)) })
    else (false, s)
  else
    match Ascending.search s.sparse kind with
    | .found i => (true, { s with sparse := s.sparse.eraseIdx i })
    | .vacant _ => (false, s)

/-- The codes whose bits are set in the words, the first of which holds the codes from
`64 * base` on. -/
def denseFrom (base : Nat) : List UInt64 → List Kind
  | [] => []
  | w :: ws => (Word.bits w).map (fun i => UInt32.ofNat (64 * base + i)) ++ denseFrom (base + 1) ws

/-- The members in ascending order. -/
def toList (s : KindSet) : List Kind := denseFrom 0 s.words.toList ++ s.sparse.toList

/-- The number of members. -/
def size (s : KindSet) : Nat :=
  s.words.foldr (fun w n => (Word.bits w).length + n) s.sparse.size

/-- Whether there are no members. -/
def isEmpty (s : KindSet) : Bool := s.sparse.isEmpty && s.words.all (· == 0)

/-- Two sets are the same if they list the same members, whatever room they have. -/
def same (s t : KindSet) : Bool := s.toList == t.toList

/-- The set of the members of a list. -/
def ofList (kinds : List Kind) : KindSet := kinds.foldl (fun s kind => (s.insert kind).2) fresh

end KindSet

end Lookahead
