import ZoneSync.Failure
import ZoneSync.Octets

/-!
Absolute domain names: a list of labels of 1 to 63 octets, with at most 255 octets in wire
form. A name keeps the letter case it was made with. Comparison works on the wire form with
ASCII case folded, and a name is at or below another if one of its suffixes equals it.
-/

namespace ZoneSync

inductive NameError where
  | longLabel
  | longName
  | emptyLabel
  | shortInput
  | trailingData
deriving DecidableEq, Repr

def NameError.message : NameError → String
  | .longLabel => "label exceeds 63 octets"
  | .longName => "name exceeds 255 octets"
  | .emptyLabel => "empty label"
  | .shortInput => "unexpected end of name"
  | .trailingData => "trailing data after name"

instance : Failure NameError where
  message := NameError.message

structure Label where
  octets : Octets
  ne_nil : octets ≠ []
  length_le : octets.length ≤ 63
deriving DecidableEq

/-- A label in wire form: its length, then its octets. -/
def Label.wire (l : Label) : Octets := UInt8.ofNat l.octets.length :: l.octets

theorem Label.length_wire (l : Label) : l.wire.length = l.octets.length + 1 := rfl

def Label.folded (l : Label) : Label where
  octets := Octets.fold l.octets
  ne_nil := by simpa [Octets.fold] using l.ne_nil
  length_le := by simpa [Octets.fold] using l.length_le

theorem Label.length_wire_folded (l : Label) : l.folded.wire.length = l.wire.length := by
  simp [Label.folded, Label.wire, Octets.fold]

namespace Name

/-- The labels in wire form, ended by the root's zero octet. -/
def wireOf (labels : List Label) : Octets := labels.flatMap Label.wire ++ [0]

end Name

structure Name where
  labels : List Label
  length_le : (Name.wireOf labels).length ≤ 255
deriving DecidableEq

namespace Name

def wire (n : Name) : Octets := wireOf n.labels

def length (n : Name) : Nat := n.wire.length

def root : Name := ⟨[], by decide⟩

instance : Inhabited Name := ⟨root⟩

def isRoot (n : Name) : Bool := n.labels.isEmpty

theorem length_wireOf_append (labels : List Label) (l : Label) :
    (wireOf (labels ++ [l])).length = (wireOf labels).length + (l.octets.length + 1) := by
  simp [wireOf, Label.wire]
  omega

/-- Puts one more label between the labels so far and the root. -/
def push (n : Name) (octets : Octets) : Except NameError Name :=
  if empty : octets = [] then .error .emptyLabel
  else if long : octets.length > 63 then .error .longLabel
  else if full : n.length + octets.length + 1 > 255 then .error .longName
  else .ok {
    labels := n.labels ++ [⟨octets, empty, Nat.le_of_not_gt long⟩]
    length_le := by
      rw [length_wireOf_append]
      exact Nat.le_of_not_gt full }

/-- The wire form that stands for the name in comparisons. -/
def foldedWire (n : Name) : Octets := Octets.fold n.wire

def same (a b : Name) : Bool := a.foldedWire == b.foldedWire

theorem length_wireOf_folded (labels : List Label) :
    (wireOf (labels.map Label.folded)).length = (wireOf labels).length := by
  induction labels with
  | nil => rfl
  | cons l rest ih =>
    simp only [wireOf, List.map_cons, List.flatMap_cons, List.length_append,
      Label.length_wire_folded] at ih ⊢
    omega

/-- The name with all letters in lower case, which equal names share. -/
def folded (n : Name) : Name where
  labels := n.labels.map Label.folded
  length_le := by rw [length_wireOf_folded]; exact n.length_le

def compare (a b : Name) : Ordering := compareLex a.foldedWire b.foldedWire
where
  compareLex : Octets → Octets → Ordering
    | [], [] => .eq
    | [], _ :: _ => .lt
    | _ :: _, [] => .gt
    | x :: xs, y :: ys => (Ord.compare x y).then (compareLex xs ys)

/-- Hands the octets of the name to a hasher, one by one and with all letters in lower case. -/
def feed {H : Type} (take : H → UInt8 → H) (start : H) (n : Name) : H :=
  n.wire.foldl (fun h b => take h (Octets.lower b)) start

/-- Each nonempty run of labels at the end of a list, with the offset of its first octet. -/
def suffixesFrom (offset : Nat) : List Label → List (Nat × Octets)
  | [] => []
  | l :: rest => (offset, wireOf (l :: rest)) :: suffixesFrom (offset + l.wire.length) rest

/-- The wire form of each suffix except the root, with its offset into the name. -/
def suffixes (n : Name) : List (Nat × Octets) := suffixesFrom 0 n.labels

/-- `n` is equal to `base` or lies below it. -/
def endsWith (n base : Name) : Bool :=
  (n.suffixes.map (·.2) ++ [root.wire]).any fun suffix => Octets.fold suffix == base.foldedWire

end Name
end ZoneSync
