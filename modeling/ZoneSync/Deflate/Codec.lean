import ZoneSync.Deflate.Inflate
import ZoneSync.Deflate.Stored
import ZoneSync.Stream.Zlib

/-!
Reading and writing compressed data. The decoder decompresses what it takes from below, in large
pieces and ahead of what is asked for; octets behind the end of the compressed data are not looked
at. The encoder holds what is written until the data is flushed or ended.
-/

namespace ZoneSync.Deflate

structure Decoder where
  inflater : Inflater := {}
  /-- How the inflater stopped. -/
  outcome : Inflater.Outcome := .starved
  /-- The number of decompressed octets that may be handed out before the inflater goes on. -/
  limit : Nat := 0
  taken : Nat := 0
  delivered : Nat := 0

namespace Decoder

variable {σ : Type}

def pieceSize : Nat := 32768

/-- The inflater stops at multiples of this number of decompressed octets. -/
def windowSize : Nat := 32768

/-- The most octets that one bit of compressed data can stand for. -/
def maxExpansion : Nat := 258

def pending (d : Decoder) : Nat := min d.inflater.output.size d.limit - d.delivered

/-- The inflater has looked at all octets taken from below. Those of an element of the format
that is not complete count as looked at. -/
def isDry (d : Decoder) : Bool := d.outcome = .starved || d.inflater.input.rest.isEmpty

/-- Takes the next piece from below unless there are octets left to look at. Yields whether
the stream below has ended. -/
def refill (take : Nat → StreamM σ Octets) : StreamM (Decoder × σ) Bool := fun (d, s) =>
  if !d.isDry then .ok false (d, s)
  else match take pieceSize s with
    | .ok [] s => .ok true (d, s)
    | .ok piece s =>
      .ok false
        ({ d with inflater := d.inflater.supply piece, taken := d.taken + piece.length }, s)
    | .error e s => .error e (d, s)

def handOut (n : Nat) : StreamM (Decoder × σ) Octets := fun (d, s) =>
  let stop := d.delivered + min n d.pending
  .ok (d.inflater.output.extract d.delivered stop).toList ({ d with delivered := stop }, s)

/-- Lets the inflater go on to the first stop at which `n` octets are ready. -/
def decompress (n : Nat) (d : Decoder) : Decoder :=
  let limit := (d.delivered + n + windowSize - 1) / windowSize * windowSize
  let (inflater, outcome) := d.inflater.advance limit
  { d with inflater, outcome, limit }

/-- Decompresses pieces until there are octets to hand out. Every piece has at least one octet,
which bounds the rounds. -/
def advance (take : Nat → StreamM σ Octets) (n : Nat) :
    (rounds : Nat) → StreamM (Decoder × σ) Octets
  | 0 => throw (.io .incompleteDeflate)
  | rounds + 1 => do
    let ended ← refill take
    let (d, _) ← get
    if d.outcome = .corrupt then throw (.io .corruptDeflate)
    else if d.pending > 0 then handOut n
    else
      let d := d.decompress n
      modify fun (_, s) => (d, s)
      if d.outcome = .corrupt then throw (.io .corruptDeflate)
      else if d.pending > 0 then handOut n
      else if d.outcome = .finished then return []
      else if ended then throw (.io .incompleteDeflate)
      else advance take n rounds

instance : Decompressor Decoder where
  start := {}
  read take below n := advance take n (below + 2)
  totalIn d := d.taken - d.inflater.input.rest.length
  available below d :=
    (d.inflater.output.size - d.delivered) + maxExpansion * (d.inflater.input.size + 8 * below)

end Decoder

structure Encoder where
  /-- Octets accepted and not in a block yet. -/
  plain : Octets := []
  /-- Compressed octets to be passed on. -/
  held : Octets := []
  hasBegun : Bool := false
  hasEnded : Bool := false
  checksum : Checksum := {}

namespace Encoder

variable {σ : Type}

/-- Passes on compressed octets in at most `rounds` writes. What was passed on is not held any
longer, even if a later write fails. -/
def passOn (pass : Octets → StreamM σ Nat) : (rounds : Nat) → StreamM (Encoder × σ) Unit
  | 0 => fun z => .ok () z
  | rounds + 1 => fun (e, s) =>
    if e.held.isEmpty then .ok () (e, s)
    else match pass e.held s with
      | .error fault s => .error fault (e, s)
      | .ok 0 s => .error (.io (.plain .writeZero)) (e, s)
      | .ok n s => passOn pass rounds ({ e with held := e.held.drop n }, s)

def passOnAll (pass : Octets → StreamM σ Nat) (change : Encoder → Encoder) :
    StreamM (Encoder × σ) Unit := fun (e, s) => passOn pass (change e).held.length (change e, s)

def accept (o : Octets) (e : Encoder) : Encoder :=
  { e with plain := e.plain ++ o, checksum := e.checksum.addAll o }

/-- Puts the octets accepted so far into blocks, the first of them behind the header. -/
def inBlocks (final : Bool) (e : Encoder) : Encoder :=
  let header := if e.hasBegun then [] else Stored.header
  { e with
    plain := []
    held := e.held ++ header ++ Stored.encode final e.plain
    hasBegun := true }

def ended (e : Encoder) : Encoder :=
  if e.hasEnded then e
  else
    let e := e.inBlocks true
    { e with held := e.held ++ e.checksum.wire, hasEnded := true }

instance : Compressor Encoder where
  start := {}
  write pass o := do
    passOnAll pass id
    modify fun (e, s) => (e.accept o, s)
    return o.length
  flush pass flushBelow := do
    passOnAll pass (inBlocks false)
    fun (e, s) => match flushBelow s with
      | .ok () s => .ok () (e, s)
      | .error fault s => .error fault (e, s)
  finish pass := passOnAll pass ended

end Encoder
end ZoneSync.Deflate
