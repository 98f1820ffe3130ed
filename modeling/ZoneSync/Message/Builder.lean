import ZoneSync.Message.Compression
import ZoneSync.Message.Header
import ZoneSync.Message.Question
import ZoneSync.Record.Wire

/-!
Assembling a message. Sections are filled in order, and owner and question names are
compressed. What would make the message too long is refused and leaves no trace.
-/

namespace ZoneSync

inductive PushError where
  | shortBuf
  | countOverflow
  | sectionOrder
deriving DecidableEq, Repr

def PushError.message : PushError → String
  | .shortBuf => "message size exceeded"
  | .countOverflow => "section count overflow"
  | .sectionOrder => "section out of order"

instance : Failure PushError where
  message := PushError.message

/-- The size that no message exceeds, and the largest count of a section. -/
def maxMessageLength : Nat := 65535

structure MessageBuilder where
  header : Header
  counts : Counts := {}
  current : Section := .question
  body : Octets := []
  names : SuffixTable := []
deriving DecidableEq

namespace MessageBuilder

def length (b : MessageBuilder) : Nat := preambleLength + b.body.length

def isEmpty (b : MessageBuilder) : Bool := b.counts = {}

/-- Writes an entry behind the message: the name it starts with, and how its wire form continues
the octets of that name. -/
def extend (b : MessageBuilder) (name : Name) (behind : Octets → Octets) : MessageBuilder :=
  let (octets, learnt) := b.names.compress b.length name
  { b with body := b.body ++ behind octets, names := learnt ++ b.names }

/-- Cuts the message back to a length, and forgets the suffixes that start behind it. -/
def truncate (b : MessageBuilder) (length : Nat) : MessageBuilder :=
  { b with
    body := b.body.take (length - preambleLength)
    names := b.names.filter fun entry => entry.2 < length }

/-- Puts an entry into a section. It is written first, and taken back if the message has become
too long by it. -/
def enter (target : Section) (limit : Nat) (name : Name) (behind : Octets → Octets) :
    EStateM PushError MessageBuilder Unit := fun b =>
  if target.index < b.current.index then .error .sectionOrder b
  else if b.counts.get target = maxMessageLength then .error .countOverflow b
  else
    let written := b.extend name behind
    if written.length > min limit maxMessageLength then
      .error .shortBuf (written.truncate b.length)
    else .ok () { written with counts := b.counts.bump target, current := target }

def enterQuestion (q : Question) : EStateM PushError MessageBuilder Unit :=
  enter .question maxMessageLength q.name q.wireBehind

def enterAnswerWithin (limit : Nat) (r : Record) : EStateM PushError MessageBuilder Unit :=
  enter .answer limit r.owner r.wireBehind

def enterAnswer (r : Record) : EStateM PushError MessageBuilder Unit :=
  enterAnswerWithin maxMessageLength r

def enterAuthority (r : Record) : EStateM PushError MessageBuilder Unit :=
  enter .authority maxMessageLength r.owner r.wireBehind

/-- The message with an entry put into a section. A push that is refused leaves the message that
there was, so none is handed out. -/
def push (b : MessageBuilder) (target : Section) (limit : Nat) (name : Name)
    (behind : Octets → Octets) : Except PushError MessageBuilder :=
  match enter target limit name behind b with
  | .ok () b => .ok b
  | .error e _ => .error e

def pushQuestion (b : MessageBuilder) (q : Question) : Except PushError MessageBuilder :=
  b.push .question maxMessageLength q.name q.wireBehind

/-- Puts a record into the answer section if the message stays within `limit` octets. -/
def pushAnswerWithin (limit : Nat) (b : MessageBuilder) (r : Record) :
    Except PushError MessageBuilder :=
  b.push .answer limit r.owner r.wireBehind

def pushAnswer (b : MessageBuilder) (r : Record) : Except PushError MessageBuilder :=
  b.pushAnswerWithin maxMessageLength r

def pushAuthority (b : MessageBuilder) (r : Record) : Except PushError MessageBuilder :=
  b.push .authority maxMessageLength r.owner r.wireBehind

def finish (b : MessageBuilder) : Octets := b.header.wire ++ b.counts.wire ++ b.body

end MessageBuilder
end ZoneSync
