import ZoneSync.Deflate.Checksum
import ZoneSync.Deflate.Code

/-!
Decompressing a zlib stream that arrives in pieces. The decoder is a state machine whose step
takes one element of the format; a step that lacks input leaves the state as it was.
-/

namespace ZoneSync.Deflate

structure CodeSizes where
  literals : Nat
  distances : Nat
  lengths : Nat

inductive Phase where
  | header
  | block
  | storedSize (final : Bool)
  | stored (final : Bool) (left : Nat)
  | codeSizes (final : Bool)
  /-- The word lengths of the code that word lengths are written in. -/
  | lengthCode (final : Bool) (sizes : CodeSizes) (got : List Nat)
  /-- The word lengths of the two codes of a block, last one first. -/
  | codeLengths (final : Bool) (sizes : CodeSizes) (code : CanonicalCode) (got : List Nat)
  | symbols (final : Bool) (literals distances : CanonicalCode)
  | trailer
  | done

structure Inflater where
  phase : Phase := .header
  input : Bits := {}
  /-- Everything decompressed so far. -/
  output : Array UInt8 := #[]
  checksum : Checksum := {}

namespace Inflater

/-- What one step adds to the output. -/
inductive Addition where
  | octets (o : Octets)
  /-- Octets copied from `distance` octets back; they may overlap what is written. -/
  | copy (distance length : Nat)

inductive Step where
  | next (phase : Phase) (input : Bits) (addition : Addition := .octets [])
  | starved
  /-- There is no space for output left. -/
  | full
  | corrupt (input : Bits)
  | finished

def afterBlock (final : Bool) : Phase := if final then .trailer else .block

/-- Word lengths are announced in this order of their own symbols. -/
def lengthOrder : List Nat := [16, 17, 18, 0, 8, 7, 9, 6, 10, 5, 11, 4, 12, 3, 13, 2, 14, 1, 15]

def fixedLiteralLengths : List Nat :=
  List.replicate 144 8 ++ List.replicate 112 9 ++ List.replicate 24 7 ++ List.replicate 8 8

def fixedDistanceLengths : List Nat := List.replicate 32 5

/-- The base and the number of extra bits of each match length, from symbol 257 on. -/
def matchLengths : List (Nat × Nat) :=
  [(3, 0), (4, 0), (5, 0), (6, 0), (7, 0), (8, 0), (9, 0), (10, 0), (11, 1), (13, 1), (15, 1),
    (17, 1), (19, 2), (23, 2), (27, 2), (31, 2), (35, 3), (43, 3), (51, 3), (59, 3), (67, 4),
    (83, 4), (99, 4), (115, 4), (131, 5), (163, 5), (195, 5), (227, 5), (258, 0)]

def matchDistances : List (Nat × Nat) :=
  [(1, 0), (2, 0), (3, 0), (4, 0), (5, 1), (7, 1), (9, 2), (13, 2), (17, 3), (25, 3), (33, 4),
    (49, 4), (65, 5), (97, 5), (129, 6), (193, 6), (257, 7), (385, 7), (513, 8), (769, 8),
    (1025, 9), (1537, 9), (2049, 10), (3073, 10), (4097, 11), (6145, 11), (8193, 12),
    (12289, 12), (16385, 13), (24577, 13)]

/-- The two octets of a zlib header: deflate, a window of at most 32 KiB, no dictionary. -/
def headerIsGood (method flags : UInt8) : Bool :=
  (method.toNat * 256 + flags.toNat) % 31 = 0 && method.toNat % 16 = 8 &&
    method.toNat / 16 ≤ 7 && flags.toNat / 32 % 2 = 0

/-- Adds `length` octets, each the one `distance` octets back. -/
def copyBack (output : Array UInt8) (distance : Nat) : (length : Nat) → Array UInt8
  | 0 => output
  | length + 1 => copyBack (output.push (output.getD (output.size - distance) 0)) distance length

def add (s : Inflater) : Addition → Inflater
  | .octets o =>
    { s with output := o.foldl Array.push s.output, checksum := s.checksum.addAll o }
  | .copy distance length =>
    let checksum := s.checksum
    let phase := s.phase
    let input := s.input
    let start := s.output.size
    let output := copyBack s.output distance length
    let added := (output.extract start output.size).toList
    { phase, input, output, checksum := checksum.addAll added }

def stepHeader (s : Inflater) : Step :=
  match s.input.octets? 2 with
  | none => .starved
  | some (o, input) =>
    if headerIsGood (o.getD 0 0) (o.getD 1 0) then .next .block input
    else .corrupt input

def stepBlock (s : Inflater) : Step :=
  match s.input.take? 3 with
  | none => .starved
  | some (bits, input) =>
    let final := bits % 2 = 1
    match bits / 2 with
    | 0 => .next (.storedSize final) input
    | 1 =>
      match CanonicalCode.ofLengths? fixedLiteralLengths,
          CanonicalCode.ofLengths? fixedDistanceLengths with
      | some literals, some distances =>
        .next (.symbols final literals distances) input
      | _, _ => .corrupt input
    | 2 => .next (.codeSizes final) input
    | _ => .corrupt input

/-- The size of a stored block comes with its complement. -/
def stepStoredSize (s : Inflater) (final : Bool) : Step :=
  match s.input.align.octets? 4 with
  | none => .starved
  | some (o, input) =>
    let size := (o.getD 1 0).toNat * 256 + (o.getD 0 0).toNat
    let complement := (o.getD 3 0).toNat * 256 + (o.getD 2 0).toNat
    if size + complement ≠ 65535 then .corrupt input
    else .next (if size = 0 then afterBlock final else .stored final size) input

def stepStored (s : Inflater) (space : Nat) (final : Bool) (left : Nat) : Step :=
  let octets := s.input.rest.take (min left space)
  if space = 0 then .full
  else if octets.isEmpty then .starved
  else
    let left := left - octets.length
    .next (if left = 0 then afterBlock final else .stored final left)
      { rest := s.input.rest.drop octets.length } (.octets octets)

def stepCodeSizes (s : Inflater) (final : Bool) : Step :=
  match s.input.take? 14 with
  | none => .starved
  | some (bits, input) =>
    let sizes : CodeSizes :=
      { literals := bits % 32 + 257, distances := bits / 32 % 32 + 1, lengths := bits / 1024 + 4 }
    if sizes.literals > 286 ∨ sizes.distances > 30 then .corrupt input
    else .next (.lengthCode final sizes []) input

/-- The word length of each symbol, given the lengths in the order of announcement. -/
def lengthsInOrder (announced : List Nat) : List Nat :=
  (List.range 19).map fun symbol => ((lengthOrder.zip announced).lookup symbol).getD 0

def stepLengthCode (s : Inflater) (final : Bool) (sizes : CodeSizes) (got : List Nat) : Step :=
  match s.input.take? 3 with
  | none => .starved
  | some (length, input) =>
    let got := got ++ [length]
    if got.length < sizes.lengths then .next (.lengthCode final sizes got) input
    else match CanonicalCode.ofLengths? (lengthsInOrder got) with
      | none => .corrupt input
      | some code => .next (.codeLengths final sizes code []) input

/-- Goes on with word lengths, or with the block's symbols once all lengths are there. -/
def withLengths (final : Bool) (sizes : CodeSizes) (code : CanonicalCode)
    (input : Bits) (got : List Nat) : Step :=
  let total := sizes.literals + sizes.distances
  if got.length < total then .next (.codeLengths final sizes code got) input
  else if got.length > total then .corrupt input
  else
    let lengths := got.reverse
    match CanonicalCode.ofLengths? (lengths.take sizes.literals),
        CanonicalCode.ofLengths? (lengths.drop sizes.literals) with
    | some literals, some distances =>
      .next (.symbols final literals distances) input
    | _, _ => .corrupt input

/-- A word length stands for itself up to 15; 16 repeats the one before, 17 and 18 stand for
runs of unused symbols. -/
def stepCodeLengths (s : Inflater) (final : Bool) (sizes : CodeSizes) (code : CanonicalCode)
    (got : List Nat) : Step :=
  match code.decode s.input with
  | .starved => .starved
  | .invalid input => .corrupt input
  | .symbol symbol input =>
    if symbol < 16 then withLengths final sizes code input (symbol :: got)
    else
      let (extra, base) := if symbol = 16 then (2, 3) else if symbol = 17 then (3, 3) else (7, 11)
      match input.take? extra with
      | none => .starved
      | some (more, input) =>
        if symbol = 16 then
          match got with
          | [] => .corrupt input
          | last :: _ =>
            withLengths final sizes code input (List.replicate (base + more) last ++ got)
        else withLengths final sizes code input (List.replicate (base + more) 0 ++ got)

/-- Reads the distance of a match and copies its octets. -/
def stepMatch (s : Inflater) (input : Bits) (distances : CanonicalCode) (length : Nat) : Step :=
  match distances.decode input with
  | .starved => .starved
  | .invalid input => .corrupt input
  | .symbol symbol input =>
    match matchDistances[symbol]? with
    | none => .corrupt input
    | some (base, extra) =>
      match input.take? extra with
      | none => .starved
      | some (more, input) =>
        let distance := base + more
        if distance > s.output.size then .corrupt input
        else .next s.phase input (.copy distance length)

def stepSymbol (s : Inflater) (final : Bool) (literals distances : CanonicalCode) : Step :=
  match literals.decode s.input with
  | .starved => .starved
  | .invalid input => .corrupt input
  | .symbol symbol input =>
    if symbol < 256 then .next s.phase input (.octets [UInt8.ofNat symbol])
    else if symbol = 256 then .next (afterBlock final) input
    else match matchLengths[symbol - 257]? with
      | none => .corrupt input
      | some (base, extra) =>
        match input.take? extra with
        | none => .starved
        | some (more, input) => s.stepMatch input distances (base + more)

def stepTrailer (s : Inflater) : Step :=
  match s.input.align.octets? 4 with
  | none => .starved
  | some (o, input) =>
    if o = s.checksum.wire then .next .done input else .corrupt input

/-- The next step. A stored block is copied only as far as there is space. -/
def step (s : Inflater) (space : Nat) : Step :=
  match s.phase with
  | .header => s.stepHeader
  | .block => s.stepBlock
  | .storedSize final => s.stepStoredSize final
  | .stored final left => s.stepStored space final left
  | .codeSizes final => s.stepCodeSizes final
  | .lengthCode final sizes got => s.stepLengthCode final sizes got
  | .codeLengths final sizes code got => s.stepCodeLengths final sizes code got
  | .symbols final literals distances => s.stepSymbol final literals distances
  | .trailer => s.stepTrailer
  | .done => .finished

inductive Outcome where
  | starved
  | full
  | corrupt
  | finished
deriving DecidableEq, Repr

/-- Takes at most `rounds` steps, and none once the output goes beyond `limit` octets. -/
def run (limit : Nat) : (rounds : Nat) → Inflater → Inflater × Outcome
  | 0, s => (s, .starved)
  | rounds + 1, s =>
    if s.output.size > limit then (s, .full)
    else match s.step (limit - s.output.size) with
      | .next phase input addition => run limit rounds ({ s with phase, input }.add addition)
      | .starved => (s, .starved)
      | .full => (s, .full)
      | .corrupt input => ({ s with input }, .corrupt)
      | .finished => (s, .finished)

def supply (s : Inflater) (piece : Octets) : Inflater :=
  { s with input := { s.input with rest := s.input.rest ++ piece } }

/-- Goes as far as the input leads and the limit allows. Every step takes at least one bit. -/
def advance (s : Inflater) (limit : Nat) : Inflater × Outcome := run limit (s.input.size + 1) s

end Inflater
end ZoneSync.Deflate
