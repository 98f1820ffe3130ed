import ZoneSync.Registry
import ZoneSync.Serial

/-!
Deciding between an incremental and a full transfer. Only a strictly newer primary that has
the diffs since the secondary's serial can send those; serials exactly half the space apart
lead to a full transfer as well.
-/

namespace ZoneSync

inductive TransferType where
  | axfr
  | ixfr
deriving DecidableEq, Repr

namespace TransferType

def recordType : TransferType → RecordType
  | axfr => .axfr
  | ixfr => .ixfr

def ofRecordType? (t : RecordType) : Option TransferType :=
  if t = .axfr then some axfr else if t = .ixfr then some ixfr else none

def text : TransferType → String
  | axfr => "AXFR"
  | ixfr => "IXFR"

end TransferType

inductive TransferPlan where
  | upToDate
  | ixfr
  | axfr
deriving DecidableEq, Repr

namespace TransferPlan

/-- The type of transfer that follows from a plan, if one does. -/
def transferType? : TransferPlan → Option TransferType
  | upToDate => none
  | ixfr => some .ixfr
  | axfr => some .axfr

def text : TransferPlan → String
  | upToDate => "up to date"
  | ixfr => "IXFR"
  | axfr => "AXFR"

end TransferPlan

inductive Fallback where
  | noLocalCopy
  | secondaryNotOlder
  | serialsIncomparable
  | deltaUnavailable
deriving DecidableEq, Repr

def Fallback.message : Fallback → String
  | noLocalCopy => "secondary has no copy of the zone"
  | secondaryNotOlder => "secondary serial is not older than primary"
  | serialsIncomparable => "serials cannot be compared"
  | deltaUnavailable => "no diffs available"

structure Negotiation where
  plan : TransferPlan
  fallback : Option Fallback := none
deriving DecidableEq, Repr

/-- Decides on a transfer. A secondary without a copy of the zone has no serial. -/
def negotiate (secondary : Option Serial) (primary : Serial) (deltaAvailable : Bool) :
    Negotiation :=
  match secondary with
  | none => ⟨.axfr, some .noLocalCopy⟩
  | some secondary =>
    if secondary = primary then ⟨.upToDate, none⟩
    else if primary.less secondary then ⟨.axfr, some .secondaryNotOlder⟩
    else if !primary.greater secondary then ⟨.axfr, some .serialsIncomparable⟩
    else if !deltaAvailable then ⟨.axfr, some .deltaUnavailable⟩
    else ⟨.ixfr, none⟩

end ZoneSync
