import ZoneSync.Name.Basic
import ZoneSync.Text.Decimal

/-!
The text form of names. Printing escapes what is not a graphic ASCII octet, and the dot and
the backslash; reading knows no escapes and takes the octets between dots as they stand.
-/

namespace ZoneSync.Name

def octetText (b : UInt8) : String :=
  if b = 0x2e ∨ b = 0x5c then "\\" ++ String.singleton (Char.ofNat b.toNat)
  else if 0x21 ≤ b ∧ b ≤ 0x7e then String.singleton (Char.ofNat b.toNat)
  else "\\" ++ Decimal.padded3 b.toNat

def labelText (l : Label) : String := String.join (l.octets.map octetText)

/-- Every label is followed by a dot, and the root alone is a dot. -/
def text (n : Name) : String :=
  if n.isRoot then "." else String.join (n.labels.map fun l => labelText l ++ ".")

def splitDots : Octets → List Octets
  | [] => [[]]
  | b :: rest =>
    if b = 0x2e then [] :: splitDots rest
    else match splitDots rest with
      | [] => [[b]]
      | part :: parts => (b :: part) :: parts

def dropFinalDot (o : Octets) : Octets :=
  if o.getLast? = some 0x2e then o.dropLast else o

/-- Reads a name, always as absolute: a dot at the end changes nothing. -/
def ofText (s : String) : Except NameError Name :=
  if s = "." ∨ s = "" then .ok root
  else (splitDots (dropFinalDot (Octets.ofText s))).foldlM push root

end ZoneSync.Name
