import ZoneSync.Octets

/-!
Numbers with assigned mnemonics: record types, record classes, operation codes and response
codes. A number without a mnemonic is written as the word of its kind followed by its value.
-/

namespace ZoneSync

structure Registry where
  title : String
  /-- The word in front of a number that has no mnemonic. -/
  fallback : String
  entries : List (Nat × String)

namespace Registry

def mnemonic? (r : Registry) (code : Nat) : Option String := r.entries.lookup code

/-- The number of a mnemonic, ignoring ASCII case. -/
def code? (r : Registry) (mnemonic : Octets) : Option Nat :=
  (r.entries.find? fun e => Octets.sameLetters mnemonic (Octets.ofText e.2)).map (·.1)

def text (r : Registry) (code : Nat) : String :=
  (r.mnemonic? code).getD (r.fallback ++ toString code)

def titledText (r : Registry) (code : Nat) : String :=
  match r.mnemonic? code with
  | some mnemonic => r.title ++ "::" ++ mnemonic
  | none => r.title ++ "(" ++ toString code ++ ")"

end Registry

structure RecordType where
  code : UInt16
deriving DecidableEq, Hashable, Repr

namespace RecordType

def registry : Registry where
  title := "Rtype"
  fallback := "TYPE"
  entries := [(1, "A"), (2, "NS"), (5, "CNAME"), (6, "SOA"), (12, "PTR"), (15, "MX"),
    (16, "TXT"), (28, "AAAA"), (43, "DS"), (46, "RRSIG"), (47, "NSEC"), (48, "DNSKEY"),
    (50, "NSEC3"), (51, "NSEC3PARAM"), (251, "IXFR"), (252, "AXFR"), (255, "ANY")]

def a : RecordType := ⟨1⟩
def ns : RecordType := ⟨2⟩
def cname : RecordType := ⟨5⟩
def soa : RecordType := ⟨6⟩
def ptr : RecordType := ⟨12⟩
def mx : RecordType := ⟨15⟩
def aaaa : RecordType := ⟨28⟩
def ixfr : RecordType := ⟨251⟩
def axfr : RecordType := ⟨252⟩

def text (t : RecordType) : String := registry.text t.code.toNat

end RecordType

structure RecordClass where
  code : UInt16
deriving DecidableEq, Hashable, Repr

namespace RecordClass

def registry : Registry where
  title := "Class"
  fallback := "CLASS"
  entries := [(1, "IN"), (3, "CH"), (4, "HS"), (255, "ANY")]

def internet : RecordClass := ⟨1⟩

def text (c : RecordClass) : String := registry.text c.code.toNat

end RecordClass

structure Opcode where
  code : UInt8
deriving DecidableEq, Repr

namespace Opcode

def registry : Registry where
  title := "Opcode"
  fallback := "OPCODE"
  entries := [(0, "QUERY"), (4, "NOTIFY")]

def query : Opcode := ⟨0⟩

def text (o : Opcode) : String := registry.text o.code.toNat

end Opcode

structure ResponseCode where
  code : UInt8
deriving DecidableEq, Repr

namespace ResponseCode

def registry : Registry where
  title := "Rcode"
  fallback := "RCODE"
  entries := [(0, "NOERROR"), (1, "FORMERR"), (2, "SERVFAIL"), (3, "NXDOMAIN"), (4, "NOTIMP"),
    (5, "REFUSED"), (9, "NOTAUTH")]

def noError : ResponseCode := ⟨0⟩
def notAuth : ResponseCode := ⟨9⟩

def text (r : ResponseCode) : String := registry.text r.code.toNat

end ResponseCode
end ZoneSync
