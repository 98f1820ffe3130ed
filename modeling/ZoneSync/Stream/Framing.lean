import ZoneSync.Stream.Basic

/-!
Messages with a length in front: two octets that count the octets of the message. A stream
that ends before the length has no further message.
-/

namespace ZoneSync.Framing

/-- Reads the next message, or `none` at the clean end of the stream. -/
def read {σ : Type} [ReadStream σ] : StreamM σ (Option Octets) := fun s =>
  match readUInt16 s with
  | .error .endOfStream s => .ok none s
  | .error e s => .error e s
  | .ok size s =>
    match within size.toNat 0 (readOctets size.toNat) s with
    | .error e s => .error e s
    | .ok message s => .ok (some message) s

def write {σ : Type} [WriteStream σ] (message : Octets) : StreamM σ Unit := do
  if message.length > 65535 then throw .limitExceeded
  writeAll (Octets.ofNat 2 message.length)
  writeAll message

end ZoneSync.Framing
