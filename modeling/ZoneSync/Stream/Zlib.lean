import ZoneSync.Stream.Basic

/-!
Streams through zlib. How data is compressed and decompressed is left to a library, which keeps a
state of its own and makes its own steps on the stream below. The streams add what does not depend
on the library: the end of the data, and that they can be closed.
-/

namespace ZoneSync

/-- A library that decompresses. Its steps take from below with `take`, which yields no octets
at the end, and may rely on there being no more than `below` of them. -/
class Decompressor (δ : Type) where
  start : δ
  /-- Yields up to `n` octets, none of them at the end of the data. -/
  read : {σ : Type} → (take : Nat → StreamM σ Octets) → (below n : Nat) → StreamM (δ × σ) Octets
  /-- The number of compressed octets used so far. -/
  totalIn : δ → Nat
  /-- No more octets than this can come of what is held and of `below`. -/
  available : (below : Nat) → δ → Nat

/-- A library that compresses. Its steps pass octets on with `pass`, which says how many were
accepted. -/
class Compressor (κ : Type) where
  start : κ
  write : {σ : Type} → (pass : Octets → StreamM σ Nat) → Octets → StreamM (κ × σ) Nat
  flush : {σ : Type} → (pass : Octets → StreamM σ Nat) → (flushBelow : StreamM σ Unit) →
    StreamM (κ × σ) Unit
  /-- Ends the data. After a failure it goes on with what was not passed on. -/
  finish : {σ : Type} → (pass : Octets → StreamM σ Nat) → StreamM (κ × σ) Unit

structure ZlibReader (δ σ : Type) where
  inner : σ
  decoder : δ
  isOpen : Bool := true

namespace ZlibReader

variable {δ σ : Type} [Decompressor δ]

def new (inner : σ) : ZlibReader δ σ := { inner, decoder := Decompressor.start }

/-- The number of compressed octets used so far; a closed stream has none. -/
def totalIn (z : ZlibReader δ σ) : Nat := if z.isOpen then Decompressor.totalIn z.decoder else 0

/-- Takes octets for the decoder. The end of the stream below is not an error to it. -/
def take [ReadStream σ] (n : Nat) : StreamM σ Octets := fun s =>
  match ReadStream.read n s with
  | .error .endOfStream s => .ok [] s
  | result => result

instance [ReadStream σ] : ReadStream (ZlibReader δ σ) where
  read n z :=
    if !z.isOpen then .error .closed z
    else if n = 0 then .ok [] z
    else match Decompressor.read take (ReadStream.available z.inner) n (z.decoder, z.inner) with
      | .ok [] (decoder, inner) => .error .endOfStream { z with decoder, inner }
      | .ok got (decoder, inner) => .ok got { z with decoder, inner }
      | .error e (decoder, inner) => .error e { z with decoder, inner }
  available z := Decompressor.available (ReadStream.available z.inner) z.decoder
  close z :=
    if !z.isOpen then .error .closed z
    else match ReadStream.close z.inner with
      | .ok () inner => .ok () { z with inner, isOpen := false }
      | .error e inner => .error e { z with inner, isOpen := false }

end ZlibReader

structure ZlibWriter (κ σ : Type) where
  inner : σ
  encoder : κ
  isOpen : Bool := true

namespace ZlibWriter

variable {κ σ α : Type} [Compressor κ]

def new (inner : σ) : ZlibWriter κ σ := { inner, encoder := Compressor.start }

omit [Compressor κ] in
/-- Runs a step of the encoder. -/
def encoding (step : StreamM (κ × σ) α) : StreamM (ZlibWriter κ σ) α := fun z =>
  if !z.isOpen then .error .closed z
  else match step (z.encoder, z.inner) with
    | .ok a (encoder, inner) => .ok a { z with encoder, inner }
    | .error e (encoder, inner) => .error e { z with encoder, inner }

variable [WriteStream σ]

/-- Ends the data, whatever comes of it, and gives up the stream below. -/
def giveUp (z : ZlibWriter κ σ) : ZlibWriter κ σ :=
  match Compressor.finish WriteStream.write (z.encoder, z.inner) with
  | .ok () (encoder, inner) | .error _ (encoder, inner) =>
    { encoder, inner := WriteStream.abandon inner, isOpen := false }

instance : WriteStream (ZlibWriter κ σ) where
  write o := encoding (Compressor.write WriteStream.write o)
  flush := encoding (Compressor.flush WriteStream.write WriteStream.flush)
  close z :=
    if !z.isOpen then .error .closed z
    else match Compressor.finish WriteStream.write (z.encoder, z.inner) with
      | .error e (encoder, inner) => .error e (giveUp { z with encoder, inner })
      | .ok () (encoder, inner) =>
        match WriteStream.close inner with
        | .ok () inner => .ok () { encoder, inner, isOpen := false }
        | .error e inner => .error e { encoder, inner, isOpen := false }
  abandon z := if z.isOpen then giveUp z else z

end ZlibWriter
end ZoneSync
