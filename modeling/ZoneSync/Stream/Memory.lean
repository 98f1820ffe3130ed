import ZoneSync.Stream.Basic

/-!
Streams over octets in memory. A reader keeps what it has handed out, so compressed names can
be read from it. A writer keeps what was written after it is closed.
-/

namespace ZoneSync

structure MemoryReader where
  data : Array UInt8
  position : Nat := 0
  isOpen : Bool := true

namespace MemoryReader

def ofOctets (o : Octets) : MemoryReader := { data := o.toArray }

def left (r : MemoryReader) : Nat := r.data.size - r.position

/-- The number of octets not read yet; a closed reader has none. -/
def remaining (r : MemoryReader) : Nat := if r.isOpen then r.left else 0

instance : ReadStream MemoryReader where
  read n r :=
    if !r.isOpen then .error .closed r
    else if n = 0 then .ok [] r
    else if r.left = 0 then .error .endOfStream r
    else
      let stop := r.position + min n r.left
      .ok (r.data.extract r.position stop).toList { r with position := stop }
  skip n r :=
    if !r.isOpen then .error .closed r
    else if r.left = 0 ∧ n > 0 then .error .endOfStream r
    else .ok (min n r.left) { r with position := r.position + min n r.left }
  consumed r := if r.isOpen then some (r.data.extract 0 r.position).toList else none
  available := remaining
  close r :=
    if r.isOpen then .ok () { r with isOpen := false, position := 0 } else .error .closed r

end MemoryReader

structure MemoryWriter where
  content : Octets := []
  isOpen : Bool := true

namespace MemoryWriter

instance : WriteStream MemoryWriter where
  write o w :=
    if w.isOpen then .ok o.length { w with content := w.content ++ o } else .error .closed w
  flush w := if w.isOpen then .ok () w else .error .closed w
  close w := if w.isOpen then .ok () { w with isOpen := false } else .error .closed w

end MemoryWriter
end ZoneSync
