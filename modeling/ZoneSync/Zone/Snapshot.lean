import ZoneSync.Record.Read
import ZoneSync.Record.Wire
import ZoneSync.Stream.Line
import ZoneSync.Text.Blank
import ZoneSync.Zone.Storage

/-!
Snapshots of a zone: a line of text with the origin, the serial and the number of records,
then the records in wire form, the start of authority first. A snapshot takes up its stream
to the end.
-/

namespace ZoneSync

inductive SnapshotError where
  | stream (error : StreamError)
  | record (error : RecordError)
  | store (error : StoreError)
  | badHeader (line : String)
  | otherSerial (announced found : Serial)
  | missingSoa
  | countMismatch (expected found : Nat)
  | trailingData
deriving DecidableEq

namespace SnapshotError

def message : SnapshotError → String
  | stream e => "Snapshot stream: " ++ e.message
  | record e => "Snapshot record: " ++ e.message
  | store e => "Snapshot store: " ++ e.message
  | badHeader line => "Bad snapshot header: " ++ line
  | otherSerial announced found =>
    "Bad snapshot header: header serial " ++ announced.text ++ " differs from SOA serial " ++
      found.text
  | missingSoa => "Snapshot does not start with a SOA record"
  | countMismatch expected found =>
    "Snapshot announced " ++ toString expected ++ " records but has " ++ toString found
  | trailingData => "Trailing data after snapshot"

def causes : SnapshotError → List String
  | stream e => Failure.below e
  | record e => Failure.below e
  | store e => Failure.below e
  | _ => []

instance : Failure SnapshotError where
  message := message
  causes := causes

end SnapshotError

structure Snapshot where
  origin : Name
  soa : Record
  records : List Record
deriving DecidableEq

namespace Snapshot

structure Heading where
  origin : Name
  serial : Serial
  count : Nat

def mark : String := "$SNAPSHOT"

def maxHeadingLength : Nat := 512

def Heading.text (h : Heading) : String :=
  " ".intercalate [mark, h.origin.text, h.serial.text, toString h.count]

/-- Reads the four words of a first line. There is at least one record. -/
def Heading.ofText? (line : String) : Option Heading :=
  match Blank.words line with
  | [first, origin, serial, count] =>
    if first ≠ mark then none
    else match Name.ofText origin, Serial.ofText serial, Decimal.read UInt64.size count with
      | .ok origin, .ok serial, .ok count =>
        if count = 0 then none else some { origin, serial, count }
      | _, _, _ => none
  | _ => none

def serial (s : Snapshot) : Serial :=
  match s.soa.soa? with
  | some soa => soa.serial
  | none => ⟨0⟩

def same (s t : Snapshot) : Bool :=
  s.origin.same t.origin && s.soa.same t.soa && s.records.length == t.records.length &&
    (s.records.zip t.records).all fun (r, r') => r.same r'

variable {σ τ : Type}

def readRecords [ReadStream σ] (expected : Nat) :
    (left : Nat) → EStateM SnapshotError σ (List Record)
  | 0 => return []
  | left + 1 => do
    let r ← Record.read.adaptExcept fun e =>
      if e.isEndOfStream then .countMismatch expected (expected - (left + 1)) else .record e
    return r :: (← readRecords expected left)

def readEnd [ReadStream σ] : EStateM SnapshotError σ Unit := fun s =>
  match (readUInt8 : StreamM σ UInt8) s with
  | .error .endOfStream s => .ok () s
  | .error e s => .error (.stream e) s
  | .ok _ s => .error .trailingData s

def read [ReadStream σ] : EStateM SnapshotError σ Snapshot := do
  let line ← (Line.read maxHeadingLength).adaptExcept SnapshotError.stream
  match Heading.ofText? line with
  | none => throw (.badHeader line)
  | some heading =>
    let soa ← Record.read.adaptExcept SnapshotError.record
    match soa.soa? with
    | none => throw .missingSoa
    | some start =>
      if start.serial ≠ heading.serial then throw (.otherSerial heading.serial start.serial)
      let records ← readRecords heading.count (heading.count - 1)
      readEnd
      return ⟨heading.origin, soa, records⟩

/-- Writes a first line and records, and flushes the stream. -/
def writeRecords [WriteStream σ] (origin : Name) (serial : Serial) (records : List Record) :
    StreamM σ Unit := do
  Line.write ({ origin, serial, count := records.length } : Heading).text
  records.forM Record.write
  WriteStream.flush

def write [WriteStream σ] (s : Snapshot) : StreamM σ Unit :=
  writeRecords s.origin s.serial (s.soa :: s.records)

/-- Writes the current generation of a zone and yields its version. -/
def save [ZoneStorage τ] [WriteStream σ] (store : τ) (origin : Name) :
    EStateM SnapshotError σ ZoneVersion := do
  match ZoneStorage.current store origin with
  | .error e => throw (.store e)
  | .ok version =>
    match ZoneStorage.enumerate store origin version.token with
    | .error e => throw (.store e)
    | .ok records =>
      (writeRecords origin version.serial records).adaptExcept SnapshotError.stream
      return version

/-- Reads a snapshot and makes it the content of its zone. -/
def load [ZoneStorage τ] [ReadStream σ] : EStateM SnapshotError (τ × σ) (Name × Token) :=
  fun (store, stream) =>
    match read stream with
    | .error e stream => .error e (store, stream)
    | .ok s stream =>
      match ZoneStorage.commitFull s.origin s.soa s.records store with
      | .error e store => .error (.store e) (store, stream)
      | .ok token store => .ok (s.origin, token) (store, stream)

end Snapshot
end ZoneSync
