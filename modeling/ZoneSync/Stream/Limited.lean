import ZoneSync.Stream.Basic

/-!
A view of a stream that ends after a given number of octets. Wanting more than that is the
error `limitExceeded`, unlike an end of the stream itself. Closing the view leaves the stream
below open.
-/

namespace ZoneSync

structure Limited (σ : Type) where
  inner : σ
  remaining : Nat
  isOpen : Bool := true

namespace Limited

variable {σ : Type}

/-- Runs a step of the stream below and takes what it says it moved off the limit. -/
def spent {α : Type} (size : α → Nat) (step : StreamM σ α) :
    StreamM (Limited σ) α := fun l =>
  match step l.inner with
  | .ok a inner => .ok a { l with inner, remaining := l.remaining - size a }
  | .error e inner => .error e { l with inner }

instance [ReadStream σ] : ReadStream (Limited σ) where
  read n l :=
    if !l.isOpen then .error .closed l
    else if n = 0 then .ok [] l
    else if l.remaining = 0 then .error .limitExceeded l
    else spent List.length (ReadStream.read (min n l.remaining)) l
  skip n l :=
    if !l.isOpen then .error .closed l
    else if n > l.remaining then .error .limitExceeded l
    else spent id (ReadStream.skip n) l
  consumed l := if l.isOpen then ReadStream.consumed l.inner else none
  available l := ReadStream.available l.inner
  close l := if l.isOpen then .ok () { l with isOpen := false } else .error .closed l

end Limited
end ZoneSync
