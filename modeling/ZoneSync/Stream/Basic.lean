import ZoneSync.Stream.Error

/-!
Streams of octets as state machines. A step yields a value or an error and in either case the
stream's next state, so a failed step may still have taken octets. All typed reading and
writing is built on the single steps `ReadStream.read` and `WriteStream.write`.
-/

namespace ZoneSync

abbrev StreamM (σ α : Type) := EStateM StreamError σ α

/-- Runs a step of a stream inside a type that holds it. -/
def stepInside {σ τ ε α : Type} (wrap : τ → σ) (step : EStateM ε τ α) (t : τ) :
    EStateM.Result ε σ α :=
  match step t with
  | .ok a t => .ok a (wrap t)
  | .error e t => .error e (wrap t)

/-- Skips up to `n` octets by reading them in chunks of at most 512. An end of the stream
after the first octet skipped is no error; of `rounds` reads at most, each takes one octet. -/
def skipByReading {σ : Type} (read : Nat → StreamM σ Octets) (n : Nat) : StreamM σ Nat :=
  go n 0
where
  go : (rounds skipped : Nat) → StreamM σ Nat
    | 0, skipped => fun s => .ok skipped s
    | rounds + 1, skipped => fun s =>
      if n ≤ skipped then .ok skipped s
      else match read (min (n - skipped) 512) s with
        | .ok got s => go rounds (skipped + got.length) s
        | .error .endOfStream s =>
          if skipped = 0 then .error .endOfStream s else .ok skipped s
        | .error e s => .error e s

class ReadStream (σ : Type) where
  /-- Takes up to `n` octets, and at least one if `n` is not zero. -/
  read : (n : Nat) → StreamM σ Octets
  /-- Skips up to `n` octets, fewer only if the stream ends. -/
  skip : (n : Nat) → StreamM σ Nat := skipByReading read
  /-- The octets of the current message taken so far, if the stream keeps them. Compressed
  names point into them. -/
  consumed : σ → Option Octets := fun _ => none
  /-- No more octets than this can be read. -/
  available : σ → Nat
  close : StreamM σ Unit

class WriteStream (σ : Type) where
  /-- Accepts some of the octets and says how many. -/
  write : Octets → StreamM σ Nat
  flush : StreamM σ Unit
  close : StreamM σ Unit
  /-- What is left when the stream is given up without being closed. -/
  abandon : σ → σ := id

/-- Takes `n` octets in at most `rounds` reads. The end of the stream is a clean one only
before the first octet. -/
def fill {σ : Type} [ReadStream σ] (n : Nat) : (rounds filled : Nat) → StreamM σ Octets
  | 0, _ => fun s => .ok [] s
  | rounds + 1, filled => fun s =>
    if n ≤ filled then .ok [] s
    else match ReadStream.read (n - filled) s with
      | .error e s => .error (if filled = 0 then e else e.toTruncated n filled) s
      | .ok got s =>
        match fill n rounds (filled + got.length) s with
        | .error e s => .error e s
        | .ok more s => .ok (got ++ more) s

def readOctets {σ : Type} [ReadStream σ] (n : Nat) : StreamM σ Octets := fill n n 0

def skipExact {σ : Type} [ReadStream σ] (n : Nat) : StreamM σ Unit :=
  if n = 0 then pure ()
  else do
    let skipped ← ReadStream.skip n
    if skipped < n then throw (.truncated n skipped)

def readUInt8 {σ : Type} [ReadStream σ] : StreamM σ UInt8 := do
  let o ← readOctets 1
  return o.headD 0

def readUInt16 {σ : Type} [ReadStream σ] : StreamM σ UInt16 := do
  let o ← readOctets 2
  return Octets.toUInt16 o

def readUInt32 {σ : Type} [ReadStream σ] : StreamM σ UInt32 := do
  let o ← readOctets 4
  return Octets.toUInt32 o

/-- Writes the octets in at most `rounds` writes. -/
def drain {σ : Type} [WriteStream σ] : (rounds : Nat) → Octets → StreamM σ Unit
  | 0, _ => fun s => .ok () s
  | rounds + 1, o => fun s =>
    if o.isEmpty then .ok () s
    else match WriteStream.write o s with
      | .error e s => .error e s
      | .ok 0 s => .error (.io (.plain .writeZero)) s
      | .ok n s => drain rounds (o.drop n) s

def writeAll {σ : Type} [WriteStream σ] (o : Octets) : StreamM σ Unit := drain o.length o

/-- Runs a step with its error seen as part of a larger unit that the end of the stream
truncates. -/
def within {σ α : Type} (expected read : Nat) (step : StreamM σ α) : StreamM σ α :=
  step.adaptExcept (StreamError.toTruncated expected read)

end ZoneSync
