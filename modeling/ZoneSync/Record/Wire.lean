import ZoneSync.Record.Basic
import ZoneSync.Stream.Basic

/-!
Records in wire form: the owner, ten octets of type, class, time to live and data length, then
the data. Names in the data are never compressed; the owner may be.
-/

namespace ZoneSync

def Soa.wire (s : Soa) : Octets :=
  s.mname.wire ++ s.rname.wire ++ Octets.ofUInt32 s.serial.value ++ Octets.ofUInt32 s.refresh ++
    Octets.ofUInt32 s.retry ++ Octets.ofUInt32 s.expire ++ Octets.ofUInt32 s.minimum

namespace RecordData

def wire : RecordData → Octets
  | a address => address.val
  | aaaa address => address.val
  | ns name | cname name | ptr name => name.wire
  | mx preference exchange => Octets.ofUInt16 preference ++ exchange.wire
  | soa s => s.wire
  | unknown data => data.octets

def length : RecordData → Nat
  | a _ => 4
  | aaaa _ => 16
  | ns name | cname name | ptr name => name.length
  | mx _ exchange => 2 + exchange.length
  | soa s => s.mname.length + s.rname.length + 20
  | unknown data => data.octets.length

theorem length_wire (d : RecordData) : d.wire.length = d.length := by
  cases d with
  | a address => exact address.property
  | aaaa address => exact address.property
  | soa s => simp [wire, length, Soa.wire, Name.length]; omega
  | mx p n => simp [wire, length, Name.length]
  | _ => rfl

end RecordData

namespace Record

/-- The wire form behind the given octets of the owner name. -/
def wireBehind (owner : Octets) (r : Record) : Octets :=
  owner ++ Octets.ofUInt16 r.type.code ++ Octets.ofUInt16 r.cls.code ++ Octets.ofUInt32 r.ttl ++
    Octets.ofUInt16 (UInt16.ofNat r.data.length) ++ r.data.wire

/-- The wire form without any compression. -/
def wire (r : Record) : Octets := r.wireBehind r.owner.wire

def length (r : Record) : Nat := r.owner.length + 10 + r.data.length

theorem length_wireBehind (owner : Octets) (r : Record) :
    (r.wireBehind owner).length = owner.length + 10 + r.data.length := by
  simp [wireBehind, RecordData.length_wire]
  omega

theorem length_wire (r : Record) : r.wire.length = r.length := length_wireBehind ..

def write {σ : Type} [WriteStream σ] (r : Record) : StreamM σ Unit := writeAll r.wire

end Record
end ZoneSync
