import ZoneSync.Stream.Basic

/-!
Lines of text on a stream. A line ends at a line feed or at the end of the stream, and one
carriage return before that is not part of it.
-/

namespace ZoneSync.Line

/-- Takes octets up to a line feed, after those `taken` before, last one first. There is room
for a number of further ones; the octet after those is taken, too, before the line is
refused. -/
def gather {σ : Type} [ReadStream σ] (room : Nat) (taken : Octets) : StreamM σ Octets := fun s =>
  match readUInt8 s with
  | .error .endOfStream s => if taken.isEmpty then .error .endOfStream s else .ok taken.reverse s
  | .error e s => .error e s
  | .ok octet s =>
    if octet = 0x0a then .ok taken.reverse s
    else match room with
      | 0 => .error .longLine s
      | room + 1 => gather room (octet :: taken) s

def chomp (line : Octets) : Octets :=
  if line.getLast? = some 0x0d then line.dropLast else line

/-- Reads a line of at most `limit` octets of UTF-8 text. One octet more may be its carriage
return. -/
def read {σ : Type} [ReadStream σ] (limit : Nat) : StreamM σ String := do
  let line ← gather (limit + 1) []
  let content := chomp line
  if content.length > limit then throw .longLine
  else match Octets.toText? content with
    | some text => return text
    | none => throw .badText

def write {σ : Type} [WriteStream σ] (text : String) : StreamM σ Unit := do
  writeAll (Octets.ofText text)
  writeAll [0x0a]

end ZoneSync.Line
