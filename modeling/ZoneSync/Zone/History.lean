import ZoneSync.Zone.Diff

/-!
The history of a zone: its most recent diffs, oldest first.
-/

namespace ZoneSync.History

/-- Adds diffs and forgets the oldest beyond `limit`. -/
def push (limit : Nat) (history diffs : List ZoneDiff) : List ZoneDiff :=
  (history ++ diffs).drop ((history ++ diffs).length - limit)

/-- The part of the history from the last diff that starts at a serial. -/
def fromLast? (start : Serial) : List ZoneDiff → Option (List ZoneDiff)
  | [] => none
  | d :: later =>
    match fromLast? start later with
    | some part => some part
    | none => if d.fromSerial = start then some (d :: later) else none

/-- The diffs up to the first that ends at a serial, that one included. -/
def upTo (stop : Serial) : List ZoneDiff → List ZoneDiff
  | [] => []
  | d :: later => if d.toSerial = stop then [d] else d :: upTo stop later

/-- The chain of diffs from one serial to another, if the history holds one. -/
def chain? (history : List ZoneDiff) (start stop : Serial) : Option (List ZoneDiff) :=
  if start = stop then some []
  else
    match fromLast? start history with
    | none => none
    | some part =>
      let diffs := upTo stop part
      if ZoneDiff.isContiguous diffs start stop then some diffs else none

end ZoneSync.History
