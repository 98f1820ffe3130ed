import ZoneSync.Failure

/-!
Reading whole numbers in decimal digits. A single leading plus sign is allowed, a minus sign
never. The text is read from the left, and the first fault met is the one reported.
-/

namespace ZoneSync

inductive DecimalError where
  | empty
  | invalidDigit
  | tooLarge
deriving DecidableEq, Repr

def DecimalError.message : DecimalError → String
  | .empty => "cannot parse integer from empty string"
  | .invalidDigit => "invalid digit found in string"
  | .tooLarge => "number too large to fit in target type"

instance : Failure DecimalError where
  message := DecimalError.message

namespace Decimal

def digit? (c : Char) : Option Nat :=
  if c.isDigit then some (c.toNat - '0'.toNat) else none

/-- Reads the remaining digits after a number that stays below `bound`. -/
def readDigits (bound : Nat) (value : Nat) : List Char → Except DecimalError Nat
  | [] => .ok value
  | c :: rest =>
    match digit? c with
    | none => .error .invalidDigit
    | some d =>
      if value * 10 + d < bound then readDigits bound (value * 10 + d) rest
      else .error .tooLarge

def read (bound : Nat) (text : String) : Except DecimalError Nat :=
  match text.toList with
  | [] => .error .empty
  | ['+'] => .error .invalidDigit
  | '+' :: digits => readDigits bound 0 digits
  | digits => readDigits bound 0 digits

/-- The last three decimal digits of a number. -/
def padded3 (n : Nat) : String :=
  String.ofList ([n / 100, n / 10, n].map fun d => Nat.digitChar (d % 10))

end Decimal
end ZoneSync
