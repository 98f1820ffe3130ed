/-!
Reading JSON texts by their strict grammar: no comments, no comma behind the last element, no
sign or zero in front of a number, nothing behind the value.
-/

namespace ZoneSync

/-- A character of a string, or a code unit of UTF-16 that an escape stands for. -/
inductive JsonPiece where
  | char (c : Char)
  | unit (code : Nat)
deriving DecidableEq, Repr

inductive Json where
  | null
  | bool (value : Bool)
  /-- A number that is written in digits alone. -/
  | natural (value : Nat)
  | otherNumber
  | string (pieces : List JsonPiece)
  | array (elements : List Json)
  | object (members : List (List JsonPiece × Json))

namespace Json

def isBlank (c : Char) : Bool := c = ' ' || c = '\t' || c = '\n' || c = '\r'

def skipBlanks : List Char → List Char := List.dropWhile isBlank

def hexValue? (c : Char) : Option Nat :=
  if c.isDigit then some (c.toNat - '0'.toNat)
  else if 'a' ≤ c ∧ c ≤ 'f' then some (c.toNat - 'a'.toNat + 10)
  else if 'A' ≤ c ∧ c ≤ 'F' then some (c.toNat - 'A'.toNat + 10)
  else none

def escape? : Char → Option Char
  | '"' => some '"'
  | '\\' => some '\\'
  | '/' => some '/'
  | 'b' => some '\x08'
  | 'f' => some '\x0c'
  | 'n' => some '\n'
  | 'r' => some '\r'
  | 't' => some '\t'
  | _ => none

def readString : List Char → Option (List JsonPiece × List Char)
  | [] => none
  | '"' :: rest => some ([], rest)
  | '\\' :: 'u' :: a :: b :: c :: d :: rest => do
    let code := (← hexValue? a) * 4096 + (← hexValue? b) * 256 + (← hexValue? c) * 16 +
      (← hexValue? d)
    let (pieces, rest) ← readString rest
    return (.unit code :: pieces, rest)
  | '\\' :: letter :: rest => do
    let c ← escape? letter
    let (pieces, rest) ← readString rest
    return (.char c :: pieces, rest)
  | c :: rest =>
    if c.toNat < 0x20 ∨ c = '\\' then none
    else do
      let (pieces, rest) ← readString rest
      return (.char c :: pieces, rest)

/-- The text of a string, unless it has half of a surrogate pair. -/
def text? : List JsonPiece → Option (List Char)
  | [] => some []
  | .char c :: rest => (text? rest).map (c :: ·)
  | .unit high :: .unit low :: rest =>
    if 0xd800 ≤ high ∧ high < 0xdc00 then
      if 0xdc00 ≤ low ∧ low < 0xe000 then
        (text? rest).map (Char.ofNat (0x10000 + (high - 0xd800) * 0x400 + (low - 0xdc00)) :: ·)
      else none
    else if 0xdc00 ≤ high ∧ high < 0xe000 then none
    else (text? (.unit low :: rest)).map (Char.ofNat high :: ·)
  | .unit code :: rest =>
    if 0xd800 ≤ code ∧ code < 0xe000 then none else (text? rest).map (Char.ofNat code :: ·)

def readDigits (cs : List Char) : Option (List Char × List Char) :=
  let digits := cs.takeWhile Char.isDigit
  if digits.isEmpty then none else some (digits, cs.dropWhile Char.isDigit)

/-- Reads the digits in front of a point or an exponent. -/
def readInteger : List Char → Option (List Char × List Char)
  | '0' :: rest =>
    match rest with
    | c :: _ => if c.isDigit then none else some (['0'], rest)
    | [] => some (['0'], [])
  | cs => readDigits cs

def readFraction : List Char → Option (Bool × List Char)
  | '.' :: rest => (readDigits rest).map fun (_, rest) => (true, rest)
  | cs => some (false, cs)

def readExponent : List Char → Option (Bool × List Char)
  | c :: rest =>
    if c = 'e' ∨ c = 'E' then
      let digits := match rest with
        | '+' :: digits | '-' :: digits => digits
        | digits => digits
      (readDigits digits).map fun (_, rest) => (true, rest)
    else some (false, c :: rest)
  | [] => some (false, [])

def valueOf (digits : List Char) : Nat :=
  digits.foldl (fun n c => n * 10 + (c.toNat - '0'.toNat)) 0

def readNumber (cs : List Char) : Option (Json × List Char) := do
  let (negative, cs) := match cs with
    | '-' :: rest => (true, rest)
    | cs => (false, cs)
  let (digits, cs) ← readInteger cs
  let (hasFraction, cs) ← readFraction cs
  let (hasExponent, cs) ← readExponent cs
  let value :=
    if negative || hasFraction || hasExponent then otherNumber else natural (valueOf digits)
  return (value, cs)

mutual

/-- Reads a value. Every round takes at least one character. -/
def readValue : (rounds : Nat) → List Char → Option (Json × List Char)
  | 0, _ => none
  | rounds + 1, cs =>
    match skipBlanks cs with
    | 'n' :: 'u' :: 'l' :: 'l' :: rest => some (null, rest)
    | 't' :: 'r' :: 'u' :: 'e' :: rest => some (bool true, rest)
    | 'f' :: 'a' :: 'l' :: 's' :: 'e' :: rest => some (bool false, rest)
    | '"' :: rest => (readString rest).map fun (pieces, rest) => (string pieces, rest)
    | '[' :: rest =>
      match skipBlanks rest with
      | ']' :: rest => some (array [], rest)
      | rest => (readElements rounds rest).map fun (elements, rest) => (array elements, rest)
    | '{' :: rest =>
      match skipBlanks rest with
      | '}' :: rest => some (object [], rest)
      | rest => (readMembers rounds rest).map fun (members, rest) => (object members, rest)
    | rest => readNumber rest

def readElements : (rounds : Nat) → List Char → Option (List Json × List Char)
  | 0, _ => none
  | rounds + 1, cs => do
    let (value, rest) ← readValue rounds cs
    match skipBlanks rest with
    | ']' :: rest => return ([value], rest)
    | ',' :: rest =>
      let (values, rest) ← readElements rounds rest
      return (value :: values, rest)
    | _ => none

def readMembers : (rounds : Nat) → List Char →
    Option (List (List JsonPiece × Json) × List Char)
  | 0, _ => none
  | rounds + 1, cs =>
    match skipBlanks cs with
    | '"' :: rest => do
      let (key, rest) ← readString rest
      match skipBlanks rest with
      | ':' :: rest =>
        let (value, rest) ← readValue rounds rest
        match skipBlanks rest with
        | '}' :: rest => return ([(key, value)], rest)
        | ',' :: rest =>
          let (members, rest) ← readMembers rounds rest
          return ((key, value) :: members, rest)
        | _ => none
      | _ => none
    | _ => none

end

/-- Reads a text that holds exactly one value. -/
def ofText? (text : String) : Option Json := do
  let cs := text.toList
  let (value, rest) ← readValue (cs.length + 1) cs
  if (skipBlanks rest).isEmpty then return value else none

def below? (bound : Nat) : Json → Option Nat
  | natural n => if n < bound then some n else none
  | _ => none

def bool? : Json → Option Bool
  | bool b => some b
  | _ => none

/-- The values of the named fields. An object has each of them at most once, and its other
members do not count; an array has them in order and may lack the last ones. -/
def fields? (names : List String) : Json → Option (List (Option Json))
  | array elements =>
    if elements.length > names.length then none
    else some (elements.map some ++ List.replicate (names.length - elements.length) none)
  | object members => do
    let named ← members.mapM fun (key, value) => do
      return (String.ofList (← text? key), value)
    names.mapM fun name =>
      match named.filter fun (key, _) => key = name with
      | [] => some none
      | [(_, value)] => some (some value)
      | _ => none
  | _ => none

/-- The value of a field, or its default if it is not there. -/
def field? {α : Type} (default : α) (read : Json → Option α) : Option Json → Option α
  | none => some default
  | some j => read j

end Json
end ZoneSync
