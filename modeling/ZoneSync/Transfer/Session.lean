import ZoneSync.Name.Basic

/-!
The zones that are being transferred in. There is at most one session for a zone.
-/

namespace ZoneSync

structure Sessions where
  active : List Name := []

namespace Sessions

def isActive (s : Sessions) (origin : Name) : Bool := s.active.any fun n => n.same origin

/-- Starts a session for a zone unless there is one. -/
def begin? (s : Sessions) (origin : Name) : Option Sessions :=
  if s.isActive origin then none else some { active := origin :: s.active }

def finish (s : Sessions) (origin : Name) : Sessions :=
  { active := s.active.filter fun n => !n.same origin }

end Sessions
end ZoneSync
