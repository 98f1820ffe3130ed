import ZoneSync.Name.Basic

/-!
Compression of names in a message. A name whose suffix was written before, letter for letter,
ends in a pointer to that place. Only the first `2 ^ 14` octets of a message can be pointed to.
-/

namespace ZoneSync

/-- The suffixes written so far with their places in the message. -/
abbrev SuffixTable := List (Octets × Nat)

namespace SuffixTable

/-- The first place that no pointer reaches. -/
def reach : Nat := 0x4000

def pointer (place : Nat) : Octets := Octets.ofNat 2 (0xc000 + place)

/-- Goes through the suffixes from the longest and yields where the first known one starts and
its place, together with the suffixes before it that become known. -/
def search (table : SuffixTable) (start : Nat) :
    List (Nat × Octets) → Option (Nat × Nat) × SuffixTable
  | [] => (none, [])
  | (offset, suffix) :: shorter =>
    match table.lookup suffix with
    | some place => (some (offset, place), [])
    | none =>
      let (found, learnt) := search table start shorter
      (found, if start + offset < reach then (suffix, start + offset) :: learnt else learnt)

/-- The octets of a name written at place `start`, and the suffixes that become known. -/
def compress (table : SuffixTable) (start : Nat) (name : Name) : Octets × SuffixTable :=
  match table.search start name.suffixes with
  | (some (offset, place), learnt) => (name.wire.take offset ++ pointer place, learnt)
  | (none, learnt) => (name.wire, learnt)

end SuffixTable
end ZoneSync
