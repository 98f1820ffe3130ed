import ZoneSync.Deflate.Bits

/-!
Canonical codes: prefix-free bit codes that are given by the lengths of their code words.
Shorter words come before longer ones, and words of one length are in the order of their
symbols.
-/

namespace ZoneSync.Deflate

structure CanonicalCode where
  /-- The number of code words of each length from 1 to 15. -/
  counts : List Nat
  /-- The symbols in the order of their code words. -/
  symbols : Array Nat

namespace CanonicalCode

def maxLength : Nat := 15

def symbolsOf (lengths : List Nat) (length : Nat) : List Nat :=
  (lengths.zipIdx.filter (·.1 = length)).map (·.2)

/-- The code words of the lengths left over once `counts` are handed out, of `free` words of
the present length; `none` if there are too few. -/
def unused : (free : Nat) → (counts : List Nat) → Option Nat
  | free, [] => some free
  | free, count :: longer => if 2 * free < count then none else unused (2 * free - count) longer

/-- The code with the given word lengths, one for each symbol; 0 stands for no word. All words
have to be used, unless there is at most one. -/
def ofLengths? (lengths : List Nat) : Option CanonicalCode :=
  let groups := (List.range maxLength).map fun i => symbolsOf lengths (i + 1)
  let counts := groups.map List.length
  match unused 1 counts with
  | none => none
  | some 0 => some ⟨counts, groups.flatten.toArray⟩
  | some (_ + 1) =>
    if groups.flatten.length ≤ 1 then some ⟨counts, groups.flatten.toArray⟩ else none

inductive Decoded where
  | symbol (value : Nat) (rest : Bits)
  | starved
  | invalid (rest : Bits)

/-- Goes through the lengths: `word` is the code word read so far, `first` the first word of
this length and `index` its place among the symbols. -/
def decodeFrom (symbols : Array Nat) : (counts : List Nat) → (word first index : Nat) →
    Bits → Decoded
  | [], _, _, _, bits => .invalid bits
  | count :: longer, word, first, index, bits =>
    match bits.next? with
    | none => .starved
    | some (bit, bits) =>
      let word := word + bit.toNat
      if word < first + count then
        match symbols[index + (word - first)]? with
        | some value => .symbol value bits
        | none => .invalid bits
      else decodeFrom symbols longer (2 * word) (2 * (first + count)) (index + count) bits

def decode (c : CanonicalCode) (bits : Bits) : Decoded := decodeFrom c.symbols c.counts 0 0 0 bits

end CanonicalCode
end ZoneSync.Deflate
