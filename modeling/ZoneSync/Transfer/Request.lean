import ZoneSync.Message.Builder
import ZoneSync.Message.Reader
import ZoneSync.Stream.Framing
import ZoneSync.Transfer.Negotiation

/-!
Requests for a transfer. A request for an incremental one carries the start of authority that
the secondary has.
-/

namespace ZoneSync

inductive RequestError where
  | stream (error : StreamError)
  | record (error : RecordError)
  | compose (error : PushError)
  | notQuery
  | questionCount (count : Nat)
  | notTransfer (type : RecordType)
  | missingClientSoa
deriving DecidableEq

namespace RequestError

def message : RequestError → String
  | stream e => e.message
  | record e => e.message
  | compose e => e.message
  | notQuery => "message is not a query"
  | questionCount count => "expected one question, found " ++ toString count
  | notTransfer type => type.text ++ " is not a transfer type"
  | missingClientSoa => "IXFR request lacks authority section SOA"

def causes : RequestError → List String
  | stream e => Failure.below e
  | record e => Failure.below e
  | compose e => Failure.below e
  | _ => []

instance : Failure RequestError where
  message := message
  causes := causes

end RequestError

structure TransferRequest where
  id : UInt16
  origin : Name
  cls : RecordClass := .internet
  type : TransferType
  clientSoa : Option Record := none
  /-- The serial that the transfer is expected to reach, which is no part of the message. -/
  target : Option Serial := none
deriving DecidableEq

namespace TransferRequest

def axfr (id : UInt16) (origin : Name) : TransferRequest := { id, origin, type := .axfr }

/-- A request for the changes since a version, in the class of that version. -/
def ixfr (id : UInt16) (origin : Name) (clientSoa : Record) : TransferRequest :=
  { id, origin, cls := clientSoa.cls, type := .ixfr, clientSoa := some clientSoa }

def clientSerial (r : TransferRequest) : Option Serial :=
  (r.clientSoa.bind Record.soa?).map Soa.serial

def question (r : TransferRequest) : Question := ⟨r.origin, r.type.recordType, r.cls⟩

def text (r : TransferRequest) : String :=
  r.type.text ++ " " ++ r.origin.text ++
    match r.clientSerial with
    | some serial => " from serial " ++ serial.text
    | none => ""

def same (r s : TransferRequest) : Bool :=
  r.id == s.id && r.origin.same s.origin && r.cls == s.cls && r.type == s.type &&
    (match r.clientSoa, s.clientSoa with
      | some a, some b => a.same b
      | none, none => true
      | _, _ => false) &&
    r.target == s.target

def compose (r : TransferRequest) : Except PushError Octets := do
  let header := ({ id := r.id } : Header).withOpcode .query
  let b ← ({ header } : MessageBuilder).pushQuestion r.question
  let b ← match r.clientSoa with
    | some soa => b.pushAuthority soa
    | none => pure b
  return b.finish

/-- The first start of authority of the zone in the authority section. -/
def findClientSoa (origin : Name) (entries : List (Section × Record)) : Option Record :=
  (entries.find? fun (s, r) => s = .authority && r.type = .soa && r.owner.same origin).map (·.2)

def parse (message : Octets) : Except RequestError TransferRequest :=
  match MessageReader.ofOctets message with
  | .error e => .error (.stream e)
  | .ok reader =>
    if reader.header.isResponse || reader.header.opcode ≠ .query then .error .notQuery
    else
      match MessageReader.questions reader with
      | .error e _ => .error (.stream e)
      | .ok [q] reader =>
        match TransferType.ofRecordType? q.type with
        | none => .error (.notTransfer q.type)
        | some type =>
          match reader.entries with
          | (_, some e) => .error (.record e)
          | (entries, none) =>
            let clientSoa := findClientSoa q.name entries
            if type = .ixfr && clientSoa.isNone then .error .missingClientSoa
            else .ok { id := reader.header.id, origin := q.name, cls := q.cls, type, clientSoa }
      | .ok qs _ => .error (.questionCount qs.length)

variable {σ : Type}

def write [WriteStream σ] (r : TransferRequest) : EStateM RequestError σ Unit := do
  match r.compose with
  | .error e => throw (.compose e)
  | .ok message =>
    (Framing.write message).adaptExcept RequestError.stream
    (WriteStream.flush : StreamM σ Unit).adaptExcept RequestError.stream

/-- Reads a request with its length in front, or `none` at the clean end of the stream. -/
def read [ReadStream σ] : EStateM RequestError σ (Option TransferRequest) := do
  match ← (Framing.read : StreamM σ (Option Octets)).adaptExcept RequestError.stream with
  | none => return none
  | some message =>
    match parse message with
    | .error e => throw e
    | .ok r => return some r

end TransferRequest
end ZoneSync
