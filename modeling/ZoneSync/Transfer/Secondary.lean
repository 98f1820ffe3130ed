import ZoneSync.Transfer.Assembly
import ZoneSync.Transfer.Config
import ZoneSync.Transfer.Request
import ZoneSync.Transfer.Session
import ZoneSync.Zone.Storage

/-!
Bringing a zone up to date from another server. An answer is taken in completely before any of
it is committed, so a transfer that fails leaves the zone as it was.
-/

namespace ZoneSync

inductive Outcome where
  | upToDate (serial : Serial)
  | committed (serial : Serial) (token : Token) (type : TransferType) (records : Nat)
deriving DecidableEq, Repr

def Outcome.serial : Outcome → Serial
  | upToDate serial => serial
  | committed serial .. => serial

/-- A server that takes zones in: its store and its sessions. -/
structure Secondary (τ : Type) where
  store : τ
  sessions : Sessions := {}

namespace Secondary

variable {τ σ : Type} [ZoneStorage τ]

/-- The request that brings a zone up to date, if there is need for one. If the serial of the
primary is known, it decides; otherwise a zone with content asks for the changes since. -/
def request (store : τ) (origin : Name) (id : UInt16) (primary : Option Serial) :
    Except TransferError (Option TransferRequest) :=
  let ask (version : Option ZoneVersion) : Option TransferRequest :=
    let plan := match primary, version with
      | some primary, _ => (negotiate (version.map ZoneVersion.serial) primary true).plan
      | none, some _ => .ixfr
      | none, none => .axfr
    let aimed (r : TransferRequest) : TransferRequest := { r with target := primary }
    match plan, version with
    | .upToDate, _ => none
    | .ixfr, some version => some (aimed (.ixfr id origin version.soa.record))
    | _, _ => some (aimed (.axfr id origin))
  match ZoneStorage.current store origin with
  | .ok version => .ok (ask (some version))
  | .error .missingSoa => .ok (ask none)
  | .error e => .error ⟨origin, .request, .storage e⟩

def checkHeader (request : TransferRequest) (h : Header) : Except Violation Unit :=
  if !h.isResponse then .error .notResponse
  else if h.id ≠ request.id then .error (.idMismatch request.id h.id)
  else if h.opcode ≠ .query then .error (.badOpcode h.opcode)
  else if h.responseCode ≠ .noError then .error (.errorResponse h.responseCode)
  else if h.isTruncated then .error .truncated
  else .ok ()

def isAsked (request : TransferRequest) (q : Question) : Bool :=
  q.name.same request.origin && q.type = request.type.recordType

/-- Processes the answer records among the records of a message. The other sections may hold
anything. -/
def takeEntries : List (Section × Record) → EStateM Violation Assembly Unit
  | [] => return ()
  | (.answer, r) :: later => do
    Assembly.process r
    takeEntries later
  | _ :: later => takeEntries later

def takeMessage (request : TransferRequest) (message : Octets) (a : Assembly) :
    Except TransferFault Assembly :=
  match MessageReader.ofOctets message with
  | .error e => .error (.stream e)
  | .ok reader =>
    match checkHeader request reader.header with
    | .error v => .error (.protocol v)
    | .ok () =>
      match MessageReader.questions reader with
      | .error e _ => .error (.stream e)
      | .ok questions reader =>
        if !questions.all (isAsked request) then .error (.protocol .questionMismatch)
        else
          let (entries, fault) := reader.entries
          match takeEntries entries a, fault with
          | .error v _, _ => .error (.protocol v)
          | .ok () _, some e => .error (.ofRecordError e)
          | .ok () a, none => .ok a

def expectation (config : TransferConfig) (request : TransferRequest) : Expectation where
  origin := request.origin
  requested := request.type
  oldSerial := request.clientSerial
  target := request.target
  maxRecords := config.maxTransferRecords

variable [ReadStream σ]

/-- Takes in messages until the answer is complete or the stream ends. Every message has at
least one octet, which bounds the rounds. -/
def takeMessages (request : TransferRequest) :
    (rounds : Nat) → Assembly → EStateM TransferFault σ Assembly
  | 0, a => return a
  | rounds + 1, a => do
    if a.isFinished then return a
    match ← (Framing.read : StreamM σ (Option Octets)).adaptExcept TransferFault.stream with
    | none => return a
    | some message =>
      match takeMessage request message a with
      | .error fault => throw fault
      | .ok a => takeMessages request rounds a

/-- Receives the whole answer to a request, and the number of its records. -/
def receive (config : TransferConfig) (request : TransferRequest) :
    EStateM TransferFault σ (Received × Nat) := do
  let rounds := ReadStream.available (← get) + 1
  let a ← takeMessages request rounds { expectation := expectation config request }
  match a.finish with
  | .error v => throw (.protocol v)
  | .ok received => return (received, a.count)

omit [ReadStream σ] in
def commit (origin : Name) (received : Received) (records : Nat) :
    EStateM StoreError τ Outcome := do
  match received with
  | .upToDate serial => return .upToDate serial
  | .full soa content =>
    let token ← ZoneStorage.commitFull origin soa.record content
    return .committed received.serial token .axfr records
  | .delta start diffs =>
    let token ← ZoneStorage.commitDelta origin start diffs
    return .committed received.serial token .ixfr records

def transferInSession (config : TransferConfig) (request : TransferRequest) :
    EStateM TransferError (τ × σ) Outcome := fun (store, stream) =>
  match (receive config request : EStateM TransferFault σ _) stream with
  | .error fault stream => .error ⟨request.origin, .consume, fault⟩ (store, stream)
  | .ok (received, records) stream =>
    match (commit request.origin received records : EStateM StoreError τ _) store with
    | .error e store => .error ⟨request.origin, .commit, .storage e⟩ (store, stream)
    | .ok outcome store => .ok outcome (store, stream)

/-- Receives the answer to a request and commits it. Nothing happens while there is another
session for the zone. -/
def transfer (config : TransferConfig) (request : TransferRequest) :
    EStateM TransferError (Secondary τ × σ) Outcome := fun (server, stream) =>
  match server.sessions.begin? request.origin with
  | none => .error ⟨request.origin, .consume, .busy⟩ (server, stream)
  | some sessions =>
    let sessions := sessions.finish request.origin
    match transferInSession config request (server.store, stream) with
    | .error e (store, stream) => .error e ({ store, sessions }, stream)
    | .ok outcome (store, stream) => .ok outcome ({ store, sessions }, stream)

end Secondary
end ZoneSync
