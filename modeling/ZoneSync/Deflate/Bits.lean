import ZoneSync.Octets

/-!
Octets taken bit by bit, the lowest bit of each octet first.
-/

namespace ZoneSync.Deflate

structure Bits where
  /-- The bits left of the octet that was begun. -/
  begun : List Bool := []
  rest : Octets := []

namespace Bits

def ofOctet (b : UInt8) : List Bool := (List.range 8).map fun i => b.toNat.testBit i

def size (s : Bits) : Nat := s.begun.length + 8 * s.rest.length

def next? (s : Bits) : Option (Bool × Bits) :=
  match s.begun with
  | bit :: begun => some (bit, { s with begun })
  | [] =>
    match s.rest with
    | [] => none
    | octet :: rest =>
      match ofOctet octet with
      | [] => none
      | bit :: begun => some (bit, { begun, rest })

/-- Takes a number of `n` bits, lowest bit first. -/
def take? : (n : Nat) → Bits → Option (Nat × Bits)
  | 0, s => some (0, s)
  | n + 1, s => do
    let (bit, s) ← s.next?
    let (higher, s) ← take? n s
    return (bit.toNat + 2 * higher, s)

def align (s : Bits) : Bits := { s with begun := [] }

/-- Takes `n` whole octets, after the octet that was begun. -/
def octets? (n : Nat) (s : Bits) : Option (Octets × Bits) :=
  if s.rest.length < n then none else some (s.rest.take n, { rest := s.rest.drop n })

end Bits
end ZoneSync.Deflate
