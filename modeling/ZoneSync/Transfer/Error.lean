import ZoneSync.Message.Builder
import ZoneSync.Name.Text
import ZoneSync.Zone.Error

/-!
What ends a transfer without success: trouble on the stream, in the store or in composing a
message, another transfer of the zone, or a peer that does not follow the protocol.
-/

namespace ZoneSync

inductive Violation where
  | notResponse
  | idMismatch (expected found : UInt16)
  | badOpcode (opcode : Opcode)
  | errorResponse (code : ResponseCode)
  | truncated
  | questionMismatch
  | notSoa (type : RecordType)
  | wrongOrigin (expected found : Name)
  | unexpectedSerial (expected found : Serial)
  | rdataLength (type : RecordType) (declared : UInt16)
  | malformed
  | trailingRecords
  | incomplete
  | tooManyRecords (limit : Nat)
  | aborted
deriving DecidableEq

def Violation.message : Violation → String
  | notResponse => "message is not a response"
  | idMismatch expected found =>
    "expected message ID " ++ toString expected.toNat ++ ", found " ++ toString found.toNat
  | badOpcode opcode => "unexpected opcode " ++ opcode.text
  | errorResponse code => "error response " ++ code.text
  | truncated => "message has the TC flag set"
  | questionMismatch => "question does not match request"
  | notSoa type => "expected SOA record, found " ++ type.text
  | wrongOrigin expected found =>
    "expected SOA record for " ++ expected.text ++ ", found " ++ found.text
  | unexpectedSerial expected found =>
    "expected SOA serial " ++ expected.text ++ ", found " ++ found.text
  | rdataLength type declared =>
    type.text ++ " record data does not match declared length " ++ toString declared.toNat
  | malformed => "malformed record"
  | trailingRecords => "records after the end of the transfer"
  | incomplete => "transfer ended prematurely"
  | tooManyRecords limit => "transfer exceeds " ++ toString limit ++ " records"
  | aborted => "transfer already aborted"

instance : Failure Violation where
  message := Violation.message

inductive TransferFault where
  | stream (error : StreamError)
  | protocol (violation : Violation)
  | storage (error : StoreError)
  | compose (error : PushError)
  | busy
deriving DecidableEq

namespace TransferFault

/-- A record that cannot be read is trouble on the stream or a violation. -/
def ofRecordError : RecordError → TransferFault
  | .stream e => stream e
  | .rdataLength type declared => protocol (.rdataLength type declared)
  | .longRdata => protocol .malformed

def message : TransferFault → String
  | stream e => "stream error: " ++ e.message
  | protocol v => "protocol error: " ++ v.message
  | storage e => "storage error: " ++ e.message
  | compose e => "cannot compose message: " ++ e.message
  | busy => "another transfer is in progress"

def causes : TransferFault → List String
  | stream e => Failure.below e
  | protocol v => Failure.below v
  | storage e => Failure.below e
  | compose e => Failure.below e
  | busy => []

end TransferFault

inductive Stage where
  | request
  | produce
  | consume
  | commit
deriving DecidableEq, Repr

def Stage.text : Stage → String
  | request => "request"
  | produce => "produce"
  | consume => "consume"
  | commit => "commit"

structure TransferError where
  origin : Name
  stage : Stage
  fault : TransferFault
deriving DecidableEq

namespace TransferError

def violation? (e : TransferError) : Option Violation :=
  match e.fault with
  | .protocol v => some v
  | _ => none

def message (e : TransferError) : String :=
  "Transfer of zone " ++ e.origin.text ++ " failed during " ++ e.stage.text ++ ": " ++
    e.fault.message

instance : Failure TransferError where
  message := message
  causes e := e.fault.causes

end TransferError
end ZoneSync
