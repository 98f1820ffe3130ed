import ZoneSync.Failure
import ZoneSync.Octets

/-!
What can go wrong on a stream of octets. A stream that has nothing left at the first octet of
a unit ends cleanly; one that stops later is truncated.
-/

namespace ZoneSync

/-- The classes of failure that an octet device distinguishes. -/
inductive IoKind where
  | timedOut
  | connectionReset
  | brokenPipe
  | unexpectedEof
  | interrupted
  | writeZero
  | invalidInput
  | other
deriving DecidableEq, Repr

/-- A failure of an octet device, or of compressed data read as if from one. -/
inductive IoFailure where
  | plain (kind : IoKind)
  | corruptDeflate
  | incompleteDeflate
deriving DecidableEq, Repr

namespace IoFailure

def kind : IoFailure → IoKind
  | plain kind => kind
  | corruptDeflate => .invalidInput
  | incompleteDeflate => .unexpectedEof

def message : IoFailure → String
  | plain .timedOut => "timed out"
  | plain .connectionReset => "connection reset"
  | plain .brokenPipe => "broken pipe"
  | plain .unexpectedEof => "unexpected end of file"
  | plain .interrupted => "operation interrupted"
  | plain .writeZero => "write zero"
  | plain .invalidInput => "invalid input parameter"
  | plain .other => "other error"
  | corruptDeflate => "corrupt deflate stream"
  | incompleteDeflate => "incomplete deflate stream"

end IoFailure

inductive StreamError where
  | endOfStream
  | truncated (expected read : Nat)
  | closed
  | limitExceeded
  | longLabel
  | longName
  | badLabelType (octet : UInt8)
  | badPointer (offset : UInt16)
  | longLine
  | badText
  | io (failure : IoFailure)
deriving DecidableEq, Repr

namespace StreamError

def isEndOfStream : StreamError → Bool
  | endOfStream => true
  | _ => false

/-- Inside a unit of `expected` octets a clean end is a truncation after `read` of them. -/
def toTruncated (expected read : Nat) : StreamError → StreamError
  | endOfStream => truncated expected read
  | e => e

def message : StreamError → String
  | endOfStream => "end of stream"
  | truncated expected read =>
    "stream truncated after " ++ toString read ++ " of " ++ toString expected ++ " octets"
  | closed => "stream closed"
  | limitExceeded => "stream limit exceeded"
  | longLabel => "label exceeds 63 octets"
  | longName => "name exceeds 255 octets"
  | badLabelType octet => "illegal label type 0x" ++ Octets.hex [octet]
  | badPointer offset => "illegal compression pointer to offset " ++ toString offset.toNat
  | longLine => "line too long"
  | badText => "line is not valid UTF-8"
  | io failure => "I/O error: " ++ failure.message

def causes : StreamError → List String
  | io failure => [failure.message]
  | _ => []

instance : Failure StreamError where
  message := message
  causes := causes

end StreamError

/-- An error as an octet device reports it: a failure of its own, or the error of a stream
beneath it that it carries. -/
inductive DeviceError where
  | failure (cause : IoFailure)
  | carried (kind : IoKind) (error : StreamError)
deriving DecidableEq, Repr

namespace DeviceError

def kind : DeviceError → IoKind
  | failure cause => cause.kind
  | carried kind _ => kind

def toStreamError : DeviceError → StreamError
  | failure cause => .io cause
  | carried _ error => error

end DeviceError

/-- How a stream error passes through a device. -/
def StreamError.toDeviceError : StreamError → DeviceError
  | io failure => .failure failure
  | endOfStream => .carried .unexpectedEof .endOfStream
  | e => .carried .other e

theorem StreamError.toStreamError_toDeviceError (e : StreamError) :
    e.toDeviceError.toStreamError = e := by
  cases e <;> rfl

end ZoneSync
