import ZoneSync.Transfer.Config
import ZoneSync.Transfer.Outbox
import ZoneSync.Transfer.Request
import ZoneSync.Zone.Storage

/-!
Answering requests for transfers. The version of the zone is chosen when the answer begins. A
zone that is unknown or without content is answered with the response code for that.
-/

namespace ZoneSync.Primary

structure AnswerPlan where
  version : ZoneVersion
  negotiation : Negotiation
  /-- What an incremental answer sends. -/
  diffs : List ZoneDiff

structure Stats where
  plan : TransferPlan
  serial : Serial
  messages : Nat
  records : Nat
  octets : Nat
deriving DecidableEq, Repr

variable {τ σ : Type} [ZoneStorage τ]

/-- The diffs since a serial, if it is older than the version and the store has them all. -/
def diffsSince (store : τ) (origin : Name) (version : ZoneVersion) (client : Serial) :
    Except StoreError (Option (List ZoneDiff)) :=
  if version.serial.greater client then
    (ZoneStorage.delta store origin client version.serial).map fun diffs =>
      diffs.filter fun ds => ZoneDiff.isContiguous ds client version.serial
  else .ok none

/-- The client's serial, if it asks for the changes since then. -/
def askedSerial (request : TransferRequest) : Option Serial :=
  if request.type = .ixfr then request.clientSerial else none

def planFor (store : τ) (request : TransferRequest) : Except StoreError AnswerPlan := do
  let version ← ZoneStorage.current store request.origin
  match askedSerial request with
  | none => return ⟨version, ⟨.axfr, none⟩, []⟩
  | some client =>
    let diffs ← diffsSince store request.origin version client
    let negotiation := negotiate (some client) version.serial diffs.isSome
    return ⟨version, negotiation, if negotiation.plan = .ixfr then diffs.getD [] else []⟩

def plan (store : τ) (request : TransferRequest) : Except TransferError AnswerPlan :=
  match planFor store request with
  | .ok p => .ok p
  | .error e => .error ⟨request.origin, .produce, .storage e⟩

/-- The records that stand for a diff in an answer. -/
def diffRecords (d : ZoneDiff) : List Record :=
  d.fromSoa.record :: d.removed ++ d.toSoa.record :: d.added

/-- The records of the answer that a plan leads to. -/
def answerRecords (store : τ) (config : TransferConfig) (origin : Name) (p : AnswerPlan) :
    Except StoreError (List Record) :=
  let soa := p.version.soa.record
  match p.negotiation.plan with
  | .upToDate => .ok [soa]
  | .axfr =>
    (ZoneStorage.enumerate store origin p.version.token).map fun records =>
      if config.axfrClosingSoa then records ++ [soa] else records
  | .ixfr =>
    .ok ((if config.ixfrLeadingSoa then [soa] else []) ++ p.diffs.flatMap diffRecords ++ [soa])

def answerHeader (request : TransferRequest) : Header :=
  ({ id := request.id, isResponse := true, isAuthoritative := true } : Header).withOpcode .query

def refusal (request : TransferRequest) (code : ResponseCode) : Except PushError Octets :=
  let header := (({ id := request.id, isResponse := true } : Header).withOpcode .query)
    |>.withResponseCode code
  (({ header } : MessageBuilder).pushQuestion request.question).map MessageBuilder.finish

/-- The zone is not there to be sent. -/
def isUnavailable : TransferFault → Bool
  | .storage (.unknownZone _) | .storage .missingSoa => true
  | _ => false

variable [WriteStream σ]

/-- Turns a request down. If that fails, too, nobody is told. -/
def refuse (request : TransferRequest) (code : ResponseCode) (stream : σ) : σ :=
  match refusal request code with
  | .error _ => stream
  | .ok message =>
    match (Framing.write message : StreamM σ Unit) stream with
    | .error _ stream => stream
    | .ok () stream =>
      match (WriteStream.flush : StreamM σ Unit) stream with
      | .error _ stream | .ok () stream => stream

def sendAnswer (store : τ) (config : TransferConfig) (origin : Name) (p : AnswerPlan) :
    Outbox.OutboxM σ Unit := do
  match answerRecords store config origin p with
  | .error e => throw (.storage e)
  | .ok records =>
    records.forM Outbox.push
    Outbox.finish

/-- Answers a request. What was written before an error stays written. -/
def serve (store : τ) (config : TransferConfig) (request : TransferRequest) :
    EStateM TransferError σ Stats := fun stream =>
  match plan store request with
  | .error e => .error e (if isUnavailable e.fault then refuse request .notAuth stream else stream)
  | .ok p =>
    let outbox : Outbox σ :=
      { stream, header := answerHeader request, question := some request.question,
        sizeLimit := config.maxMessageSize, recordLimit := config.maxRecordsPerMessage }
    match sendAnswer store config request.origin p outbox with
    | .error fault o => .error ⟨request.origin, .produce, fault⟩ o.stream
    | .ok () o =>
      .ok ⟨p.negotiation.plan, p.version.serial, o.messages, o.records, o.octets⟩ o.stream

end ZoneSync.Primary
