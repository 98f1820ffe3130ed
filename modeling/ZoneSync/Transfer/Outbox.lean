import ZoneSync.Stream.Framing
import ZoneSync.Transfer.Error

/-!
Splitting an answer into messages. A message is sent once the next record would take it over
the size limit, or once it has as many records as allowed. A record that is too large for the
limit by itself goes alone into a message. Only the first message has the question.
-/

namespace ZoneSync

structure Outbox (σ : Type) where
  stream : σ
  header : Header
  /-- The question, until it is in a message. -/
  question : Option Question
  sizeLimit : Nat
  recordLimit : Nat
  /-- The message being filled. -/
  filling : Option MessageBuilder := none
  messages : Nat := 0
  records : Nat := 0
  octets : Nat := 0

namespace Outbox

variable {σ : Type}

abbrev OutboxM (σ α : Type) := EStateM TransferFault (Outbox σ) α

def onStream {α : Type} (step : StreamM σ α) : OutboxM σ α := fun o =>
  match step o.stream with
  | .ok a stream => .ok a { o with stream }
  | .error e stream => .error (.stream e) { o with stream }

/-- Takes the result of a push as the message being filled. -/
def fillWith (pushed : Except PushError MessageBuilder) : OutboxM σ Unit := fun o =>
  match pushed with
  | .ok b => .ok () { o with filling := some b }
  | .error e => .error (.compose e) o

def builder : OutboxM σ MessageBuilder := do
  let o ← get
  match o.filling with
  | some b => return b
  | none =>
    let b : MessageBuilder := { header := o.header }
    fillWith <| match o.question with
      | some q => b.pushQuestion q
      | none => .ok b
    modify fun o => { o with question := none }
    return (← get).filling.getD b

variable [WriteStream σ]

def send : OutboxM σ Unit := do
  let o ← get
  match o.filling with
  | none => return
  | some b =>
    let message := b.finish
    set { o with filling := none }
    onStream (Framing.write message)
    modify fun o =>
      { o with messages := o.messages + 1, octets := o.octets + (message.length + 2) }

def sendIfFull : OutboxM σ Unit := do
  let o ← get
  match o.filling with
  | some b => if b.counts.answer ≥ max o.recordLimit 1 then send
  | none => return

/-- Puts a record into a message of its own if the size limit asks for it. -/
def placeWithin (limit : Nat) (r : Record) : OutboxM σ Unit := do
  let b ← builder
  match b.pushAnswerWithin limit r with
  | .ok b => fillWith (.ok b)
  | .error .shortBuf =>
    if b.counts.answer = 0 then fillWith (b.pushAnswer r)
    else do
      send
      let b ← builder
      match b.pushAnswerWithin limit r with
      | .ok b => fillWith (.ok b)
      | .error _ => fillWith (b.pushAnswer r)
  | .error e => throw (.compose e)

def place (r : Record) : OutboxM σ Unit := do
  placeWithin (← get).sizeLimit r

def push (r : Record) : OutboxM σ Unit := do
  sendIfFull
  place r
  modify fun o => { o with records := o.records + 1 }

/-- Sends the last message and flushes the stream. An answer without records is a message with
only the question. -/
def finish : OutboxM σ Unit := do
  let o ← get
  if o.filling.isSome || o.messages = 0 then
    let _ ← builder
    send
  onStream WriteStream.flush

end Outbox
end ZoneSync
