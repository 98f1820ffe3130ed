/-!
Octet strings. Whole numbers are written big-endian with a fixed width, and the
letter case that comparisons ignore is the ASCII one.
-/

namespace ZoneSync

abbrev Octets := List UInt8

namespace Octets

/-- The lowest `width` octets of a number, most significant first. -/
def ofNat : (width : Nat) → Nat → Octets
  | 0, _ => []
  | width + 1, n => ofNat width (n / 256) ++ [UInt8.ofNat n]

/-- The number an octet string spells, most significant octet first. -/
def toNat (o : Octets) : Nat :=
  o.foldl (fun n b => n * 256 + b.toNat) 0

def ofUInt16 (w : UInt16) : Octets := ofNat 2 w.toNat

def ofUInt32 (w : UInt32) : Octets := ofNat 4 w.toNat

def toUInt16 (o : Octets) : UInt16 := UInt16.ofNat o.toNat

def toUInt32 (o : Octets) : UInt32 := UInt32.ofNat o.toNat

@[simp] theorem length_ofNat (width n : Nat) : (ofNat width n).length = width := by
  induction width generalizing n with
  | zero => rfl
  | succ width ih => simp [ofNat, ih]

@[simp] theorem length_ofUInt16 (w : UInt16) : (ofUInt16 w).length = 2 := length_ofNat ..

@[simp] theorem length_ofUInt32 (w : UInt32) : (ofUInt32 w).length = 4 := length_ofNat ..

/-- An upper-case ASCII letter becomes lower-case; every other octet stays. -/
def lower (b : UInt8) : UInt8 :=
  if 65 ≤ b ∧ b ≤ 90 then b + 32 else b

def fold (o : Octets) : Octets := o.map lower

def sameLetters (a b : Octets) : Bool := fold a == fold b

def ofText (s : String) : Octets := s.toUTF8.data.toList

def toText? (o : Octets) : Option String := String.fromUTF8? ⟨o.toArray⟩

def hexDigit (n : Nat) : Char := Nat.digitChar (n % 16)

/-- Two lower-case hexadecimal digits for each octet. -/
def hex (o : Octets) : String :=
  String.ofList (o.flatMap fun b => [hexDigit (b.toNat / 16), hexDigit b.toNat])

end Octets
end ZoneSync
