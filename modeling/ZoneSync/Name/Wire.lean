import ZoneSync.Name.Basic

/-!
Names from octets: the strict reading of one uncompressed name.
-/

namespace ZoneSync.Name

/-- Splits off the labels up to the root, which has to be the last octet. A label is always
followed by at least one more octet. -/
def readLabels (n : Name) : Octets → Except NameError Name
  | [] => .error .shortInput
  | len :: rest =>
    if len.toNat > 63 then .error .longLabel
    else if len = 0 then if rest = [] then .ok n else .error .trailingData
    else if rest.length ≤ len.toNat then .error .shortInput
    else (n.push (rest.take len.toNat)).bind fun longer => readLabels longer (rest.drop len.toNat)
termination_by o => o.length
decreasing_by simp only [List.length_drop, List.length_cons]; omega

/-- Reads octets that are to hold exactly one uncompressed name. -/
def ofWire (o : Octets) : Except NameError Name :=
  if o.length > 255 then .error .longName else readLabels root o

end ZoneSync.Name
