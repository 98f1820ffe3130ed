import ZoneSync.Octets

/-!
The checksum at the end of a zlib stream: the sum of the octets and the sum of the sums, both
modulo 65521.
-/

namespace ZoneSync.Deflate

structure Checksum where
  sum : Nat := 1
  sums : Nat := 0

namespace Checksum

def add (c : Checksum) (b : UInt8) : Checksum :=
  let sum := (c.sum + b.toNat) % 65521
  { sum, sums := (c.sums + sum) % 65521 }

def addAll (c : Checksum) (o : Octets) : Checksum := o.foldl add c

def wire (c : Checksum) : Octets := Octets.ofNat 2 c.sums ++ Octets.ofNat 2 c.sum

end Checksum
end ZoneSync.Deflate
