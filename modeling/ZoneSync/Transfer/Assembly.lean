import ZoneSync.Transfer.Error
import ZoneSync.Transfer.Negotiation
import ZoneSync.Zone.Diff

/-!
Making a transfer out of the records of an answer. A full answer is the start of authority,
the other records, and possibly the start of authority again. An incremental answer is a chain
of diffs, each with the older start of authority, the records taken out, the newer start of
authority and the records put in; it ends with the newest start of authority and may also
begin with it. The serials tell the two apart.
-/

namespace ZoneSync

inductive Received where
  /-- The secondary has the present version. -/
  | upToDate (serial : Serial)
  | full (soa : SoaRecord) (records : List Record)
  | delta (start : Serial) (diffs : List ZoneDiff)
deriving DecidableEq

def Received.serial : Received → Serial
  | upToDate serial => serial
  | full soa _ => soa.serial
  | delta start diffs => (diffs.getLast?.map ZoneDiff.toSerial).getD start

/-- What is known about an answer before it arrives. -/
structure Expectation where
  origin : Name
  requested : TransferType
  /-- The serial that the secondary has. -/
  oldSerial : Option Serial
  /-- The serial that the primary has, if that is known. -/
  target : Option Serial := none
  maxRecords : Option Nat := none

/-- The serial that diffs start from, if the answer can consist of diffs. -/
def Expectation.deltaStart (e : Expectation) : Option Serial :=
  match e.requested with
  | .ixfr => e.oldSerial
  | .axfr => none

namespace Assembly

structure Chain where
  start : Serial
  /-- The serial of the start of authority that the answer began with, if it did. -/
  target : Option Serial
  diffs : List ZoneDiff
deriving DecidableEq

inductive Progress where
  | awaitingFirst
  /-- The answer began with the primary's start of authority; diffs may follow it. -/
  | awaitingSecond (first : SoaRecord)
  | collecting (soa : SoaRecord) (records : List Record)
  | removing (chain : Chain) (fromSoa : SoaRecord) (removed : List Record)
  | adding (chain : Chain) (diff : ZoneDiff)
  /-- The last diff is closed. Another one may follow, or the answer is over. -/
  | betweenDiffs (chain : Chain) (soa : SoaRecord)
  | finished (result : Received)
  | aborted
deriving DecidableEq

/-- Takes a start of authority in a full answer, where only its repetition can be. -/
def closeFull (soa : SoaRecord) (records : List Record) (found : SoaRecord) :
    Except Violation Progress :=
  if found.serial = soa.serial then .ok (.finished (.full soa records))
  else .error (.unexpectedSerial soa.serial found.serial)

/-- Takes the newer start of authority of a diff, which opens the records put in. It is not
older than the older one, and not newer than the serial the answer leads to. -/
def openAdded (chain : Chain) (fromSoa : SoaRecord) (removed : List Record) (found : SoaRecord) :
    Except Violation Progress :=
  if !found.serial.greaterOrEqual fromSoa.serial then
    .error (.unexpectedSerial fromSoa.serial found.serial)
  else
    match chain.target with
    | some target =>
      if !found.serial.lessOrEqual target then .error (.unexpectedSerial target found.serial)
      else .ok (.adding chain { fromSoa, toSoa := found, removed })
    | none => .ok (.adding chain { fromSoa, toSoa := found, removed })

/-- Takes the start of authority that closes a diff. -/
def closeDiff (chain : Chain) (diff : ZoneDiff) (found : SoaRecord) : Except Violation Progress :=
  if found.serial ≠ diff.toSerial then .error (.unexpectedSerial diff.toSerial found.serial)
  else
    let chain := { chain with diffs := chain.diffs ++ [diff] }
    match chain.target with
    | some target =>
      if target = found.serial then .ok (.finished (.delta chain.start chain.diffs))
      else .ok (.removing chain found [])
    | none => .ok (.betweenDiffs chain found)

def takeSoa (e : Expectation) (found : SoaRecord) : Progress → Except Violation Progress
  | .awaitingFirst =>
    match e.deltaStart with
    | some old =>
      if found.serial = old then .ok (.removing ⟨old, none, []⟩ found [])
      else .ok (.awaitingSecond found)
    | none => .ok (.collecting found [])
  | .awaitingSecond first =>
    if e.oldSerial = some found.serial then
      .ok (.removing ⟨found.serial, some first.serial, []⟩ found [])
    else closeFull first [] found
  | .collecting soa records => closeFull soa records found
  | .removing chain fromSoa removed => openAdded chain fromSoa removed found
  | .adding chain diff => closeDiff chain diff found
  | .betweenDiffs chain soa => openAdded chain soa [] found
  | .finished _ => .error .trailingRecords
  | .aborted => .error .aborted

def takeOther (r : Record) : Progress → Except Violation Progress
  | .awaitingFirst => .error (.notSoa r.type)
  | .awaitingSecond first => .ok (.collecting first [r])
  | .collecting soa records => .ok (.collecting soa (records ++ [r]))
  | .removing chain fromSoa removed => .ok (.removing chain fromSoa (removed ++ [r]))
  | .adding chain diff => .ok (.adding chain (diff.pushAdded r))
  | .betweenDiffs chain soa => .ok (.removing chain soa [r])
  | .finished _ => .error .trailingRecords
  | .aborted => .error .aborted

/-- Takes a record. A start of authority has to be that of the zone. -/
def take (e : Expectation) (r : Record) (p : Progress) : Except Violation Progress :=
  match r.soaRecord? with
  | none => takeOther r p
  | some found =>
    if !found.owner.same e.origin then .error (.wrongOrigin e.origin found.owner)
    else takeSoa e found p

end Assembly

structure Assembly where
  expectation : Expectation
  progress : Assembly.Progress := .awaitingFirst
  count : Nat := 0

namespace Assembly

/-- More records have come than are taken in. -/
def isOverfull (a : Assembly) : Option Nat :=
  a.expectation.maxRecords.filter fun limit => a.count > limit

/-- Processes the next record. After an error the assembly stays aborted. -/
def process (r : Record) : EStateM Violation Assembly Unit := fun a =>
  match a.progress with
  | .aborted => .error .aborted a
  | progress =>
    let a := { a with count := a.count + 1 }
    match a.isOverfull with
    | some limit => .error (.tooManyRecords limit) { a with progress := .aborted }
    | none =>
      match take a.expectation r progress with
      | .ok progress => .ok () { a with progress }
      | .error v => .error v { a with progress := .aborted }

/-- The last record of the answer has come. An answer may also be complete without that. -/
def isFinished (a : Assembly) : Bool :=
  match a.progress with
  | .finished _ => true
  | _ => false

/-- The content of the answer, now that no more records come. A chain of diffs that does not
say where it leads has to lead at least to the serial that the primary is known to have. -/
def finish (a : Assembly) : Except Violation Received :=
  match a.progress with
  | .finished result => .ok result
  | .collecting soa records => .ok (.full soa records)
  | .awaitingSecond first => .ok (.full first [])
  | .betweenDiffs chain soa =>
    match a.expectation.target with
    | some target =>
      if soa.serial.less target then .error .incomplete
      else .ok (.delta chain.start chain.diffs)
    | none => .ok (.delta chain.start chain.diffs)
  | .removing chain _ _ =>
    if a.count = 1 then .ok (.upToDate chain.start) else .error .incomplete
  | .awaitingFirst | .adding .. => .error .incomplete
  | .aborted => .error .aborted

end Assembly
end ZoneSync
