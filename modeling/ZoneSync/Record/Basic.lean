import ZoneSync.Name.Basic
import ZoneSync.Registry
import ZoneSync.Serial
import ZoneSync.Stream.Error
import ZoneSync.Text.Address

/-!
Resource records. The data of the types that hold domain names or addresses is taken apart;
all other data is opaque octets. Records are compared with the letter case of names ignored,
and two records have the same data if they differ at most in their time to live.
-/

namespace ZoneSync

inductive RecordError where
  | stream (error : StreamError)
  | rdataLength (type : RecordType) (declared : UInt16)
  | longRdata
deriving DecidableEq, Repr

namespace RecordError

def isEndOfStream : RecordError → Bool
  | stream e => e.isEndOfStream
  | _ => false

def message : RecordError → String
  | stream e => e.message
  | rdataLength type declared =>
    type.text ++ " record data does not match its length of " ++ toString declared.toNat
  | longRdata => "record data too long"

def causes : RecordError → List String
  | stream e => Failure.below e
  | _ => []

instance : Failure RecordError where
  message := message
  causes := causes

end RecordError

structure Soa where
  mname : Name
  rname : Name
  serial : Serial
  refresh : UInt32
  retry : UInt32
  expire : UInt32
  minimum : UInt32
deriving DecidableEq

structure OpaqueData where
  type : RecordType
  octets : Octets
  length_le : octets.length ≤ 65535
deriving DecidableEq

def OpaqueData.ofOctets (type : RecordType) (octets : Octets) : Except RecordError OpaqueData :=
  if h : octets.length ≤ 65535 then .ok ⟨type, octets, h⟩ else .error .longRdata

inductive RecordData where
  | a (address : Address 4)
  | aaaa (address : Address 16)
  | ns (name : Name)
  | cname (name : Name)
  | ptr (name : Name)
  | mx (preference : UInt16) (exchange : Name)
  | soa (soa : Soa)
  | unknown (data : OpaqueData)
deriving DecidableEq

namespace RecordData

def type : RecordData → RecordType
  | a _ => .a
  | aaaa _ => .aaaa
  | ns _ => .ns
  | cname _ => .cname
  | ptr _ => .ptr
  | mx .. => .mx
  | soa _ => .soa
  | unknown data => data.type

/-- The data with every letter of its names in lower case. -/
def folded : RecordData → RecordData
  | ns n => ns n.folded
  | cname n => cname n.folded
  | ptr n => ptr n.folded
  | mx preference n => mx preference n.folded
  | soa s => soa { s with mname := s.mname.folded, rname := s.rname.folded }
  | data => data

end RecordData

structure Record where
  owner : Name
  cls : RecordClass
  ttl : UInt32
  data : RecordData
deriving DecidableEq

namespace Record

def type (r : Record) : RecordType := r.data.type

/-- The start of authority that the record holds. Opaque data of that type does not count. -/
def soa? (r : Record) : Option Soa :=
  match r.data with
  | .soa soa => some soa
  | _ => none

/-- What tells a record from the others of a zone: owner, class and data, with the letter case
of names folded away and without the time to live. -/
structure Key where
  owner : Name
  cls : RecordClass
  data : RecordData
deriving DecidableEq

def key (r : Record) : Key := ⟨r.owner.folded, r.cls, r.data.folded⟩

/-- Equality of all but the time to live. -/
def sameData (r s : Record) : Bool := r.key == s.key

def same (r s : Record) : Bool := r.sameData s && r.ttl == s.ttl

end Record
end ZoneSync
