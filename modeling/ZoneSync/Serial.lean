import ZoneSync.Text.Decimal

/-!
Serial numbers of zones. They count modulo `2 ^ 32`, so one is newer than another if it lies
at most `2 ^ 31 - 1` steps ahead of it on the circle. Two serials exactly `2 ^ 31` apart are
different, but neither is newer.
-/

namespace ZoneSync

structure Serial where
  value : UInt32
deriving DecidableEq, Hashable, Repr

namespace Serial

def half : UInt32 := 0x80000000

/-- `a` is newer than `b`. -/
def greater (a b : Serial) : Bool :=
  (a.value < b.value && b.value - a.value > half) ||
    (a.value > b.value && a.value - b.value < half)

/-- `a` is older than `b`. -/
def less (a b : Serial) : Bool :=
  (a.value < b.value && b.value - a.value < half) ||
    (a.value > b.value && a.value - b.value > half)

def greaterOrEqual (a b : Serial) : Bool := a == b || greater a b

def lessOrEqual (a b : Serial) : Bool := a == b || less a b

/-- The order of two serials, unless they are exactly half the space apart. -/
def compare? (a b : Serial) : Option Ordering :=
  if a = b then some .eq
  else if less a b then some .lt
  else if greater a b then some .gt
  else none

/-- The serial `n` steps ahead. A step may cover less than half of the space only. -/
def add? (a : Serial) (n : UInt32) : Option Serial :=
  if n < half then some ⟨a.value + n⟩ else none

def text (a : Serial) : String := toString a.value.toNat

def ofText (s : String) : Except DecimalError Serial :=
  (Decimal.read UInt32.size s).map fun n => ⟨UInt32.ofNat n⟩

end Serial
end ZoneSync
