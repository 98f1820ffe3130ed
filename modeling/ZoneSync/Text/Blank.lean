/-!
Words of a text: what stands between blank characters, those with the Unicode property
`White_Space`.
-/

namespace ZoneSync.Blank

/-- The first and the last character of each range of the property. -/
def ranges : List (Nat × Nat) :=
  [(0x09, 0x0d), (0x20, 0x20), (0x85, 0x85), (0xa0, 0xa0), (0x1680, 0x1680), (0x2000, 0x200a),
    (0x2028, 0x2029), (0x202f, 0x202f), (0x205f, 0x205f), (0x3000, 0x3000)]

def isBlank (c : Char) : Bool :=
  ranges.any fun (first, last) => first ≤ c.toNat && c.toNat ≤ last

/-- The words of the characters behind `word`, which is the one begun. -/
def wordsFrom (word : List Char) : List Char → List (List Char)
  | [] => if word.isEmpty then [] else [word]
  | c :: rest =>
    if !isBlank c then wordsFrom (word ++ [c]) rest
    else if word.isEmpty then wordsFrom [] rest
    else word :: wordsFrom [] rest

def words (text : String) : List String := (wordsFrom [] text.toList).map String.ofList

end ZoneSync.Blank
