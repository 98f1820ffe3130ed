import ZoneSync.Failure
import ZoneSync.Name.Text
import ZoneSync.Registry
import ZoneSync.Serial

/-!
What a zone store can answer instead of doing as told.
-/

namespace ZoneSync

/-- Names one published generation of a zone in its store. -/
structure Token where
  value : Nat
deriving DecidableEq, Repr

def Token.text (t : Token) : String := "#" ++ toString t.value

inductive Rejection where
  | zoneExists (origin : Name)
  | notApex (owner origin : Name)
  | unexpectedSoa (owner : Name)
  | outsideZone (owner origin : Name)
  | wrongClass (owner : Name) (found expected : RecordClass)
  | emptyDelta
  | wrongStart (serial : Serial)
  | other (reason : String)
deriving DecidableEq

def Rejection.message : Rejection → String
  | zoneExists origin => "zone " ++ origin.text ++ " already exists"
  | notApex owner origin =>
    "SOA record owner " ++ owner.text ++ " is not the apex " ++ origin.text
  | unexpectedSoa owner => "unexpected SOA record for " ++ owner.text
  | outsideZone owner origin => "record " ++ owner.text ++ " outside of zone " ++ origin.text
  | wrongClass owner found expected =>
    "record " ++ owner.text ++ " has class " ++ found.text ++ ", zone has class " ++ expected.text
  | emptyDelta => "empty delta"
  | wrongStart serial => "delta chain does not start at serial " ++ serial.text
  | other reason => reason

inductive StoreError where
  | unknownZone (origin : Name)
  | unknownGeneration (token : Token)
  | serialMismatch (expected found : Serial)
  | missingSoa
  | rejected (why : Rejection)
deriving DecidableEq

def StoreError.message : StoreError → String
  | unknownZone origin => "Unknown zone " ++ origin.text
  | unknownGeneration token => "Unknown zone generation " ++ token.text
  | serialMismatch expected found =>
    "Serial mismatch: expected " ++ expected.text ++ ", found " ++ found.text
  | missingSoa => "Missing SOA record"
  | rejected why => "Data rejected: " ++ why.message

instance : Failure StoreError where
  message := StoreError.message

end ZoneSync
