/-!
What every kind of error can say about itself: its own text, and the texts of the errors
beneath it from the nearest to the deepest.
-/

namespace ZoneSync

class Failure (ε : Type) where
  message : ε → String
  causes : ε → List String := fun _ => []

/-- The causes of an error that passes on the failure `e`. -/
def Failure.below {ε : Type} [Failure ε] (e : ε) : List String :=
  message e :: causes e

end ZoneSync
