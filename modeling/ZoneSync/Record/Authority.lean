import ZoneSync.Record.Basic

/-!
Records that hold the start of authority of a zone, and so a serial.
-/

namespace ZoneSync

structure SoaRecord where
  owner : Name
  cls : RecordClass
  ttl : UInt32
  soa : Soa
deriving DecidableEq

def SoaRecord.serial (r : SoaRecord) : Serial := r.soa.serial

def SoaRecord.record (r : SoaRecord) : Record := ⟨r.owner, r.cls, r.ttl, .soa r.soa⟩

/-- The record as the start of authority that it holds. -/
def Record.soaRecord? (r : Record) : Option SoaRecord :=
  match r.data with
  | .soa soa => some ⟨r.owner, r.cls, r.ttl, soa⟩
  | _ => none

theorem Record.soaRecord?_eq_some {r : Record} {s : SoaRecord} :
    r.soaRecord? = some s ↔ r = s.record := by
  cases r with
  | mk owner cls ttl data =>
    cases data <;> cases s <;> simp [soaRecord?, SoaRecord.record]

end ZoneSync
