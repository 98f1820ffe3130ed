import ZoneSync.Registry
import ZoneSync.Stream.Error

/-!
The twelve octets in front of a message: its identification and flags, then the number of
entries in each of its four sections.
-/

namespace ZoneSync

inductive Section where
  | question
  | answer
  | authority
  | additional
deriving DecidableEq, Repr

namespace Section

def index : Section → Nat
  | question => 0
  | answer => 1
  | authority => 2
  | additional => 3

def next? : Section → Option Section
  | question => some answer
  | answer => some authority
  | authority => some additional
  | additional => none

end Section

/-- The lowest four bits of an octet. -/
def Header.lowBits (b : UInt8) : Fin 16 := Fin.ofNat 16 b.toNat

structure Header where
  id : UInt16 := 0
  isResponse : Bool := false
  opcodeBits : Fin 16 := Header.lowBits 0
  isAuthoritative : Bool := false
  isTruncated : Bool := false
  recursionDesired : Bool := false
  /-- Four flags without a meaning here, which are kept as they are. -/
  otherBits : Fin 16 := Header.lowBits 0
  responseBits : Fin 16 := Header.lowBits 0
deriving DecidableEq, Repr

namespace Header

def opcode (h : Header) : Opcode := ⟨UInt8.ofNat h.opcodeBits.val⟩

def responseCode (h : Header) : ResponseCode := ⟨UInt8.ofNat h.responseBits.val⟩

def withOpcode (h : Header) (o : Opcode) : Header := { h with opcodeBits := lowBits o.code }

def withResponseCode (h : Header) (r : ResponseCode) : Header :=
  { h with responseBits := lowBits r.code }

/-- The header of a response: identification, opcode and the wish for recursion carry over. -/
def response (h : Header) : Header where
  id := h.id
  isResponse := true
  opcodeBits := h.opcodeBits
  recursionDesired := h.recursionDesired

def wire (h : Header) : Octets :=
  Octets.ofUInt16 h.id ++
    [UInt8.ofNat (h.isResponse.toNat * 128 + h.opcodeBits.val * 8 + h.isAuthoritative.toNat * 4 +
      h.isTruncated.toNat * 2 + h.recursionDesired.toNat),
     UInt8.ofNat (h.otherBits.val * 16 + h.responseBits.val)]

/-- The header with the given identification and flag octets. -/
def ofParts (id : UInt16) (high low : UInt8) : Header where
  id := id
  isResponse := high.toNat / 128 % 2 = 1
  opcodeBits := Fin.ofNat 16 (high.toNat / 8)
  isAuthoritative := high.toNat / 4 % 2 = 1
  isTruncated := high.toNat / 2 % 2 = 1
  recursionDesired := high.toNat % 2 = 1
  otherBits := Fin.ofNat 16 (low.toNat / 16)
  responseBits := Fin.ofNat 16 low.toNat

end Header

structure Counts where
  question : Nat := 0
  answer : Nat := 0
  authority : Nat := 0
  additional : Nat := 0
deriving DecidableEq, Repr

namespace Counts

def get (c : Counts) : Section → Nat
  | .question => c.question
  | .answer => c.answer
  | .authority => c.authority
  | .additional => c.additional

def bump (c : Counts) : Section → Counts
  | .question => { c with question := c.question + 1 }
  | .answer => { c with answer := c.answer + 1 }
  | .authority => { c with authority := c.authority + 1 }
  | .additional => { c with additional := c.additional + 1 }

def wire (c : Counts) : Octets :=
  Octets.ofNat 2 c.question ++ Octets.ofNat 2 c.answer ++ Octets.ofNat 2 c.authority ++
    Octets.ofNat 2 c.additional

end Counts

def preambleLength : Nat := 12

def readPreamble : Octets → Except StreamError (Header × Counts)
  | i :: j :: high :: low :: q :: r :: a :: b :: n :: m :: x :: y :: _ =>
    .ok (Header.ofParts (Octets.toUInt16 [i, j]) high low,
      { question := Octets.toNat [q, r], answer := Octets.toNat [a, b],
        authority := Octets.toNat [n, m], additional := Octets.toNat [x, y] })
  | message => .error (.truncated preambleLength message.length)

end ZoneSync
