import ZoneSync.Message.Header
import ZoneSync.Message.Question
import ZoneSync.Record.Read
import ZoneSync.Stream.Memory

/-!
Taking a message apart. The questions come first, then the records of the three other
sections, as many of each as the counts announce.
-/

namespace ZoneSync

structure MessageReader where
  header : Header
  counts : Counts
  current : Section
  left : Nat
  stream : MemoryReader

namespace MessageReader

def ofOctets (message : Octets) : Except StreamError MessageReader :=
  (readPreamble message).map fun (header, counts) =>
    { header, counts, current := .question, left := counts.question,
      stream := { data := message.toArray, position := preambleLength } }

def remaining (r : MessageReader) : Nat := r.stream.remaining

def advance (r : MessageReader) : MessageReader :=
  match r.current.next? with
  | some later => { r with current := later, left := r.counts.get later }
  | none => r

def onStream {ε α : Type} (step : EStateM ε MemoryReader α) :
    EStateM ε MessageReader α := fun r =>
  match step r.stream with
  | .ok a stream => .ok a { r with stream }
  | .error e stream => .error e { r with stream }

def takeQuestions : (number : Nat) → StreamM MessageReader (List Question)
  | 0 => return []
  | number + 1 => do
    let q ← within (number + 1) 0 (onStream Question.read)
    modify fun r => { r with left := number }
    return q :: (← takeQuestions number)

/-- Reads the questions, unless they were read before. -/
def questions : StreamM MessageReader (List Question) := do
  let r ← get
  if r.current = .question then
    let qs ← takeQuestions r.left
    modify advance
    return qs
  else return []

/-- Goes on to a section that has entries left, or to the last one. -/
def settle : (rounds : Nat) → MessageReader → MessageReader
  | 0, r => r
  | rounds + 1, r => if r.left = 0 then settle rounds r.advance else r

/-- Reads the next record with its section, or `none` behind the last one. -/
def next : EStateM RecordError MessageReader (Option (Section × Record)) := do
  let _ ← questions.adaptExcept RecordError.stream
  modify (settle 3)
  let r ← get
  if r.left = 0 then return none
  else
    let record ← (onStream Record.read).adaptExcept fun
      | .stream .endOfStream => .stream (.truncated r.left 0)
      | e => e
    modify fun r => { r with left := r.left - 1 }
    return some (r.current, record)

/-- The records from here on, at most `number` of them, and what stopped the reading. -/
def take : (number : Nat) → MessageReader → List (Section × Record) × Option RecordError
  | 0, _ => ([], none)
  | number + 1, r =>
    match next r with
    | .error e _ => ([], some e)
    | .ok none _ => ([], none)
    | .ok (some entry) r =>
      let (entries, fault) := take number r
      (entry :: entries, fault)

/-- All records up to the end of the message or the first that cannot be read. -/
def entries (r : MessageReader) : List (Section × Record) × Option RecordError :=
  take (r.counts.answer + r.counts.authority + r.counts.additional + 1) r

end MessageReader
end ZoneSync
