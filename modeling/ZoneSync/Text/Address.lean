import ZoneSync.Octets

/-!
The text forms of network addresses. An IPv6 address is written in eight hexadecimal groups,
of which the first longest run of at least two zero groups is left out; one that embeds an
IPv4 address behind `::ffff:` ends in that address's own form.
-/

namespace ZoneSync

/-- An address of `n` octets. -/
abbrev Address (n : Nat) := { octets : Octets // octets.length = n }

namespace Address

def dotted (o : Octets) : String := ".".intercalate (o.map fun b => toString b.toNat)

def groups : Octets → List Nat
  | high :: low :: rest => (high.toNat * 256 + low.toNat) :: groups rest
  | _ => []

def hexGroups (gs : List Nat) : String :=
  ":".intercalate (gs.map fun g => String.ofList (Nat.toDigits 16 g))

def zerosAtFront (gs : List Nat) : Nat := (gs.takeWhile (· = 0)).length

/-- The place and the length of the first longest run of zero groups. -/
def longestZeros (gs : List Nat) : Nat × Nat :=
  (List.range gs.length).foldl
    (fun best i =>
      let run := zerosAtFront (gs.drop i)
      if run > best.2 then (i, run) else best)
    (0, 0)

def text4 (a : Address 4) : String := dotted a.val

def text6 (a : Address 16) : String :=
  if a.val.take 12 = [0, 0, 0, 0, 0, 0, 0, 0, 0, 0, 0xff, 0xff] then
    "::ffff:" ++ dotted (a.val.drop 12)
  else
    let gs := groups a.val
    let (start, run) := longestZeros gs
    if run < 2 then hexGroups gs
    else hexGroups (gs.take start) ++ "::" ++ hexGroups (gs.drop (start + run))

end Address
end ZoneSync
