import ZoneSync.Stream.Basic

/-!
Buffers in front of a stream. A reader takes large chunks from below and hands them out in
the portions asked for; a request of at least the buffer's size goes past an empty buffer. A
writer collects small writes; what does not fit is passed on.
-/

namespace ZoneSync

def defaultCapacity : Nat := 8192

structure BufferedReader (σ : Type) where
  inner : σ
  capacity : Nat
  /-- Octets taken from below and not handed out yet. -/
  held : Octets := []
  isOpen : Bool := true

namespace BufferedReader

variable {σ : Type}

/-- A reader whose buffer holds at least one octet. -/
def withCapacity (capacity : Nat) (inner : σ) : BufferedReader σ :=
  { inner, capacity := max capacity 1 }

def handOut (n : Nat) (b : BufferedReader σ) :
    EStateM.Result StreamError (BufferedReader σ) Octets :=
  .ok (b.held.take n) { b with held := b.held.drop n }

instance [ReadStream σ] : ReadStream (BufferedReader σ) where
  read n b :=
    if !b.isOpen then .error .closed b
    else if n = 0 then .ok [] b
    else if !b.held.isEmpty then handOut n b
    else if n ≥ b.capacity then
      match ReadStream.read n b.inner with
      | .ok got inner => .ok got { b with inner }
      | .error e inner => .error e { b with inner }
    else
      match ReadStream.read b.capacity b.inner with
      | .ok got inner => handOut n { b with inner, held := got }
      | .error e inner => .error e { b with inner }
  available b := b.held.length + ReadStream.available b.inner
  close b :=
    if !b.isOpen then .error .closed { b with held := [] }
    else match ReadStream.close b.inner with
      | .ok () inner => .ok () { b with inner, held := [], isOpen := false }
      | .error e inner => .error e { b with inner, held := [], isOpen := false }

end BufferedReader

structure BufferedWriter (σ : Type) where
  inner : σ
  capacity : Nat
  /-- Octets accepted and not known to be passed on. -/
  held : Octets := []
  isOpen : Bool := true

namespace BufferedWriter

variable {σ : Type} [WriteStream σ]

/-- Passes on all octets held. If that fails, they all stay held. -/
def passOn : StreamM (BufferedWriter σ) Unit := fun b =>
  match writeAll b.held b.inner with
  | .ok () inner => .ok () { b with inner, held := [] }
  | .error e inner => .error e { b with inner }

/-- Takes octets into the buffer, or passes them on if they fill it alone. -/
def accept (o : Octets) : StreamM (BufferedWriter σ) Nat := fun b =>
  if o.length ≥ b.capacity then
    match WriteStream.write o b.inner with
    | .ok n inner => .ok n { b with inner }
    | .error e inner => .error e { b with inner }
  else .ok o.length { b with held := b.held ++ o }

instance : WriteStream (BufferedWriter σ) where
  write o b :=
    if !b.isOpen then .error .closed b
    else if b.held.length + o.length > b.capacity then
      match passOn b with
      | .ok () b => accept o b
      | .error e b => .error e b
    else accept o b
  flush b :=
    if !b.isOpen then .error .closed b
    else match passOn b with
      | .error e b => .error e b
      | .ok () b =>
        match WriteStream.flush b.inner with
        | .ok () inner => .ok () { b with inner }
        | .error e inner => .error e { b with inner }
  close b :=
    if !b.isOpen then .error .closed b
    else match passOn b with
      | .error e b => .error e { b with inner := WriteStream.abandon b.inner, isOpen := false }
      | .ok () b =>
        match WriteStream.close b.inner with
        | .ok () inner => .ok () { b with inner, isOpen := false }
        | .error e inner => .error e { b with inner, isOpen := false }
  abandon b := if b.isOpen then { b with inner := WriteStream.abandon b.inner } else b

end BufferedWriter
end ZoneSync
