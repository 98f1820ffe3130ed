import ZoneSync.Deflate.Checksum

/-!
Writing a zlib stream whose blocks hold their octets as they are.
-/

namespace ZoneSync.Deflate

namespace Stored

def maxSize : Nat := 65535

def header : Octets := [0x78, 0x01]

/-- A block of at most 65535 octets: its size, the size's complement, and its octets. -/
def block (final : Bool) (o : Octets) : Octets :=
  UInt8.ofNat final.toNat :: ((Octets.ofNat 2 o.length).reverse ++
    (Octets.ofNat 2 (maxSize - o.length)).reverse ++ o)

/-- Cuts octets into blocks, of which only the last may be the final one. -/
def blocks (final : Bool) : (rounds : Nat) → Octets → Octets
  | 0, o => block final (o.take maxSize)
  | rounds + 1, o =>
    if o.length ≤ maxSize then block final o
    else block false (o.take maxSize) ++ blocks final rounds (o.drop maxSize)

def encode (final : Bool) (o : Octets) : Octets := blocks final (o.length / maxSize) o

end Stored
end ZoneSync.Deflate
