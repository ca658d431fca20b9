import Lookahead.Stream.Command
import Lookahead.Source.Metered

/-!
# Sessions

A conversation with one stream after another, in which tokens can be saved under names for later
and sources that were replaced are put on a shelf, from where each can be installed again once.
Saved tokens and the shelf outlive both the source and the stream.
-/

namespace Lookahead

/-- What is known of a source from outside. -/
structure SourceInfo where
  name : Option String
  pulls : Nat
  produced : Option Nat
  deriving DecidableEq, Repr

/-- What is known of a metered source. -/
def SourceInfo.of (m : Metered Source) : SourceInfo :=
  { name := m.source.name, pulls := m.pulls, produced := m.source.produced? }

/-- Where to find a token that a request needs. -/
inductive Pick
  /-- In a slot of the buffer. -/
  | slot (i : Nat)
  /-- At a distance from the cursor. -/
  | ahead (k : Int)
  /-- Among the saved ones. -/
  | saved (name : String)
  /-- Here. -/
  | token (token : Token)

/-- Where the source to be installed comes from. -/
inductive Supply
  | fresh (source : Source)
  | shelved (n : Nat)

/-- A request in a session. -/
inductive Request
  /-- A command to the stream, whose token is saved under a name if there is one. -/
  | command (command : Command (Metered Source)) (saveAs : Option String)
  /-- The text from one picked token to another. -/
  | textBetween (first last : Pick)
  /-- Installs another source and shelves the one it replaces. -/
  | install (supply : Supply)
  /-- Starts a new stream over the source as it is. -/
  | restart (policy : Policy)
  /-- What is known of the source. -/
  | sourceInfo

/-- What a session replies. -/
inductive Reply
  | answer (answer : Answer (Metered Source))
  | info (info : SourceInfo)
  | interrupted (interrupt : Interrupt)
  /-- There is no such source on the shelf. -/
  | notShelved

/-- A reply, and what can be seen of the stream after it without pulling. -/
structure Entry where
  reply : Reply
  index : Nat
  size : Nat
  pulls : Nat
  records : List Record

/-- The state of a session. -/
structure Session where
  stream : Stream (Metered Source)
  saved : List (String × Token)
  shelf : List (Option (Metered Source))

namespace Session

/-- A session with a new stream. -/
def start (policy : Policy) (source : Source) : Session :=
  { stream := .start policy (.fresh source), saved := [], shelf := [] }

/-- Carries out an operation on the stream. -/
def onStream {α : Type} (s : Session) (op : StreamM (Metered Source) α) :
    Except Interrupt α × Session :=
  let r := op.perform s.stream
  (r.1, { s with stream := r.2 })

/-- Saves a token, hiding one saved under the same name before. -/
def save (s : Session) (name : String) (t : Token) : Session :=
  { s with saved := (name, t) :: s.saved }

/-- Saves the token of an answer, if a name is given and there is a token. -/
def saveAnswer (s : Session) : Option String → Answer (Metered Source) → Session
  | some name, .token? (some t) => s.save name t
  | _, _ => s

/-- Finds a picked token, which may take pulls. -/
def pick (limit : Nat) (s : Session) : Pick → Except Interrupt (Option Token) × Session
  | .slot i => s.onStream (Stream.get? limit i)
  | .ahead k => s.onStream (Stream.lookahead limit k)
  | .saved name => (.ok (s.saved.lookup name), s)
  | .token t => (.ok (some t), s)

/-- Gives a command to the stream. -/
def command (limit : Nat) (s : Session) (c : Command (Metered Source)) (saveAs : Option String) :
    Reply × Session :=
  match s.onStream (Stream.exec limit c) with
  | (.ok answer, s) => (.answer answer, s.saveAnswer saveAs answer)
  | (.error i, s) => (.interrupted i, s)

/-- The text between two picked tokens, the first of which is picked first. There is no text if
one of them is not found. -/
def textBetween (limit : Nat) (s : Session) (first last : Pick) : Reply × Session :=
  match s.pick limit first with
  | (.error i, s) => (.interrupted i, s)
  | (.ok a?, s) =>
    match s.pick limit last with
    | (.error i, s) => (.interrupted i, s)
    | (.ok b?, s) =>
      match a?, b? with
      | some a, some b => s.command limit (.textBetween a b) none
      | _, _ => (.answer (.text? none), s)

/-- Takes a source from where it is supplied. -/
def take? (s : Session) : Supply → Option (Metered Source × Session)
  | .fresh source => some (.fresh source, s)
  | .shelved n =>
    match s.shelf[n]? with
    | some (some m) => some (m, { s with shelf := s.shelf.set n none })
    | _ => none

/-- Installs a source; the one it replaces goes on the shelf as it is. -/
def install (s : Session) (supply : Supply) : Reply × Session :=
  match s.take? supply with
  | none => (.notShelved, s)
  | some (m, s) =>
    let old := s.stream.source
    (.info (.of old),
      { s with stream := s.stream.replaceSource m, shelf := s.shelf ++ [some old] })

/-- Takes the source out of the stream and starts a new stream over it. -/
def restart (s : Session) (policy : Policy) : Reply × Session :=
  (.info (.of s.stream.source), { s with stream := .start policy s.stream.source })

/-- The reply to a request, and the session after it. -/
def reply (limit : Nat) (s : Session) : Request → Reply × Session
  | .command c saveAs => s.command limit c saveAs
  | .textBetween first last => s.textBetween limit first last
  | .install supply => s.install supply
  | .restart policy => s.restart policy
  | .sourceInfo => (.info (.of s.stream.source), s)

/-- Answers a request, with the log records it gave rise to. A new stream has no records yet. -/
def answer (limit : Nat) (s : Session) (r : Request) : Entry × Session :=
  let (reply, t) := s.reply limit r
  ({ reply
     index := t.stream.index
     size := t.stream.size
     pulls := t.stream.source.pulls
     records := t.stream.recordsSince s.stream.journal.size }, t)

/-- Answers requests one after the other. -/
def answerAll (limit : Nat) (s : Session) : List Request → List Entry
  | [] => []
  | r :: rest =>
    let (entry, t) := s.answer limit r
    entry :: answerAll limit t rest

end Session

end Lookahead
