import ZoneSync.Record.Authority
import ZoneSync.Zone.Error

/-!
The difference between two versions of a zone: the two starts of authority, and the records
taken out and put in. A chain of diffs leads from serial to serial without gaps.
-/

namespace ZoneSync

structure ZoneDiff where
  fromSoa : SoaRecord
  toSoa : SoaRecord
  removed : List Record := []
  added : List Record := []
deriving DecidableEq

namespace ZoneDiff

def fromSerial (d : ZoneDiff) : Serial := d.fromSoa.serial

def toSerial (d : ZoneDiff) : Serial := d.toSoa.serial

/-- A diff without changes between two versions. -/
def between (older newer : Record) : Except StoreError ZoneDiff :=
  match older.soaRecord?, newer.soaRecord? with
  | some fromSoa, some toSoa => .ok { fromSoa, toSoa }
  | _, _ => .error .missingSoa

def pushRemoved (d : ZoneDiff) (r : Record) : ZoneDiff := { d with removed := d.removed ++ [r] }

def pushAdded (d : ZoneDiff) (r : Record) : ZoneDiff := { d with added := d.added ++ [r] }

def isEmpty (d : ZoneDiff) : Bool := d.removed.isEmpty && d.added.isEmpty

def recordCount (d : ZoneDiff) : Nat := d.removed.length + d.added.length + 2

/-- The diffs lead from one serial to another, each starting where the one before ends. -/
def isContiguous : List ZoneDiff → (start stop : Serial) → Bool
  | [], start, stop => start = stop
  | d :: later, start, stop => d.fromSerial = start && isContiguous later d.toSerial stop

end ZoneDiff
end ZoneSync
