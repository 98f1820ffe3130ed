import ZoneSync.Stream.Basic

/-!
A stream that counts the octets passing through it. Only successful steps count. Closing it
closes the stream below; the count stays.
-/

namespace ZoneSync

structure Counting (σ : Type) where
  inner : σ
  count : Nat := 0
  isOpen : Bool := true

namespace Counting

variable {σ : Type}

/-- Runs a step of the stream below and adds what it says it moved. -/
def counted {α : Type} (size : α → Nat) (step : StreamM σ α) :
    StreamM (Counting σ) α := fun c =>
  if !c.isOpen then .error .closed c
  else match step c.inner with
    | .ok a inner => .ok a { c with inner, count := c.count + size a }
    | .error e inner => .error e { c with inner }

/-- Closes the counter, then the stream below. -/
def closing (step : StreamM σ Unit) : StreamM (Counting σ) Unit := fun c =>
  if !c.isOpen then .error .closed c
  else match step c.inner with
    | .ok () inner => .ok () { c with inner, isOpen := false }
    | .error e inner => .error e { c with inner, isOpen := false }

instance [ReadStream σ] : ReadStream (Counting σ) where
  read n := counted List.length (ReadStream.read n)
  skip n := counted id (ReadStream.skip n)
  consumed c := if c.isOpen then ReadStream.consumed c.inner else none
  available c := ReadStream.available c.inner
  close := closing ReadStream.close

instance [WriteStream σ] : WriteStream (Counting σ) where
  write o := counted id (WriteStream.write o)
  flush := counted (fun _ => 0) WriteStream.flush
  close := closing WriteStream.close
  abandon c := if c.isOpen then { c with inner := WriteStream.abandon c.inner } else c

end Counting
end ZoneSync
