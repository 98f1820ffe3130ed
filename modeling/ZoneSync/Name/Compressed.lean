import ZoneSync.Name.Basic
import ZoneSync.Stream.Basic

/-!
Names on a stream, possibly compressed. The labels of a name may end in a pointer to earlier
octets of the same message. The first pointer has to lead to a place before itself, and every
further one to a place before the labels it was found behind, so each chain of pointers ends.
-/

namespace ZoneSync.Name

def fault : NameError → StreamError
  | .longLabel => .longLabel
  | _ => .longName

def pointerTarget (high low : UInt8) : UInt16 :=
  UInt16.ofNat ((high.toNat % 64) * 256 + low.toNat)

/-- Reads the labels at a pointer's target up to the root, then yields no pointer, or up to
the next pointer. A target that the octets do not cover is a bad pointer. -/
def labelsAt (pointer : UInt16) (n : Name) : Octets → Except StreamError (Name × Option UInt16)
  | [] => .error (.badPointer pointer)
  | octet :: rest =>
    if octet = 0 then .ok (n, none)
    else if octet.toNat < 64 then
      if rest.length < octet.toNat then .error (.badPointer pointer)
      else match n.push (rest.take octet.toNat) with
        | .error e => .error (fault e)
        | .ok longer => labelsAt pointer longer (rest.drop octet.toNat)
    else if octet.toNat < 192 then .error (.badLabelType octet)
    else match rest with
      | [] => .error (.badPointer pointer)
      | low :: _ => .ok (n, some (pointerTarget octet low))
termination_by o => o.length
decreasing_by simp only [List.length_drop, List.length_cons]; omega

/-- Follows a pointer, which has to lead to a place before `limit`. -/
def follow (message : Octets) (n : Name) (pointer : UInt16) (limit : Nat) :
    Except StreamError Name :=
  if _earlier : pointer.toNat < limit then
    match labelsAt pointer n (message.drop pointer.toNat) with
    | .error e => .error e
    | .ok (longer, none) => .ok longer
    | .ok (longer, some next) => follow message longer next pointer.toNat
  else .error (.badPointer pointer)
termination_by limit

/-- Follows the first pointer of a name, whose two octets are the last of those taken from the
stream. -/
def followFirst (consumed : Option Octets) (n : Name) (pointer : UInt16) :
    Except StreamError Name :=
  match consumed with
  | none => .error (.badPointer pointer)
  | some message =>
    if message.length < 2 then .error (.badPointer pointer)
    else follow message n pointer (message.length - 2)

/-- Reads the rest of a name of which `read` octets were taken. A name has at most 127 labels,
so `rounds` never runs out before the limit on its length is met. -/
def readFrom {σ : Type} [ReadStream σ] : (rounds read : Nat) → Name → StreamM σ Name
  | 0, _, _ => throw .longName
  | rounds + 1, read, n => do
    let octet ← if read = 0 then readUInt8 else within (read + 1) read readUInt8
    if octet = 0 then return n
    else if octet.toNat < 64 then
      let label ← within (read + 1 + octet.toNat) (read + 1) (readOctets octet.toNat)
      match n.push label with
      | .error e => throw (fault e)
      | .ok longer => readFrom rounds (read + 1 + octet.toNat) longer
    else if octet.toNat < 192 then throw (.badLabelType octet)
    else
      let low ← within (read + 2) (read + 1) readUInt8
      let stream ← get
      match followFirst (ReadStream.consumed stream) n (pointerTarget octet low) with
      | .error e => throw e
      | .ok whole => return whole

def read {σ : Type} [ReadStream σ] : StreamM σ Name := readFrom 128 0 root

end ZoneSync.Name
