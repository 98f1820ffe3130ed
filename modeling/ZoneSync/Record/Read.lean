import ZoneSync.Name.Compressed
import ZoneSync.Record.Basic
import ZoneSync.Stream.Limited

/-!
Reading records from a stream. The data is read from a view that ends where the record says
its data ends; data that wants more, or leaves some of it, does not match its length.
-/

namespace ZoneSync

/-- Reads an address. -/
def Address.read {σ : Type} [ReadStream σ] (n : Nat) : StreamM σ (Address n) := do
  let o ← readOctets n
  if h : o.length = n then return ⟨o, h⟩ else throw .endOfStream

def Soa.read {σ : Type} [ReadStream σ] : StreamM σ Soa := do
  let mname ← Name.read
  let rname ← Name.read
  let serial ← readUInt32
  let refresh ← readUInt32
  let retry ← readUInt32
  let expire ← readUInt32
  let minimum ← readUInt32
  return ⟨mname, rname, ⟨serial⟩, refresh, retry, expire, minimum⟩

/-- Reads data of a type without a form of its own: everything the view has. -/
def OpaqueData.read {σ : Type} [ReadStream σ] (type : RecordType) :
    StreamM (Limited σ) OpaqueData := do
  let view ← get
  let o ← readOctets view.remaining
  if h : o.length ≤ 65535 then return ⟨type, o, h⟩ else throw .limitExceeded

def RecordData.read {σ : Type} [ReadStream σ] (type : RecordType) :
    StreamM (Limited σ) RecordData :=
  if type = .a then return .a (← Address.read 4)
  else if type = .aaaa then return .aaaa (← Address.read 16)
  else if type = .ns then return .ns (← Name.read)
  else if type = .cname then return .cname (← Name.read)
  else if type = .ptr then return .ptr (← Name.read)
  else if type = .mx then do
    let preference ← readUInt16
    return .mx preference (← Name.read)
  else if type = .soa then return .soa (← Soa.read)
  else return .unknown (← OpaqueData.read type)

namespace Record

/-- Reads the data from the next `declared` octets, which it has to take up exactly. -/
def readData {σ : Type} [ReadStream σ] (type : RecordType) (declared : UInt16) :
    EStateM RecordError σ RecordData := fun s =>
  match RecordData.read type ({ inner := s, remaining := declared.toNat } : Limited σ) with
  | .error .limitExceeded view => .error (.rdataLength type declared) view.inner
  | .error e view =>
    .error (.stream (e.toTruncated declared.toNat (declared.toNat - view.remaining))) view.inner
  | .ok data view =>
    if view.remaining = 0 then .ok data view.inner
    else .error (.rdataLength type declared) view.inner

/-- Reads a record. The stream ends cleanly only before the first octet of the owner. -/
def read {σ : Type} [ReadStream σ] : EStateM RecordError σ Record := do
  let owner ← Name.read.adaptExcept RecordError.stream
  let fixed ← (within 10 0 (readOctets 10)).adaptExcept RecordError.stream
  let type : RecordType := ⟨Octets.toUInt16 (fixed.take 2)⟩
  let cls : RecordClass := ⟨Octets.toUInt16 ((fixed.drop 2).take 2)⟩
  let ttl := Octets.toUInt32 ((fixed.drop 4).take 4)
  let declared := Octets.toUInt16 (fixed.drop 8)
  let data ← readData type declared
  return { owner, cls, ttl, data }

end Record
end ZoneSync
