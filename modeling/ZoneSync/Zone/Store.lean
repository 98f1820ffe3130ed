import ZoneSync.Zone.History
import ZoneSync.Zone.Storage

/-!
A store of zones in memory. Each zone has its current generation, some earlier generations
that can still be enumerated, and a history of diffs. Generations of all zones take their
tokens from one counter, which a commit advances even if it then fails.
-/

namespace ZoneSync

/-- How much of the past a store keeps for each zone. -/
structure StoreLimits where
  maxDeltas : Nat := 64
  retainedGenerations : Nat := 4
deriving DecidableEq, Repr

structure Zone where
  origin : Name
  current : Option Generation := none
  /-- Earlier generations, oldest first. -/
  retained : List Generation := []
  history : List ZoneDiff := []
deriving DecidableEq

structure ZoneStore where
  limits : StoreLimits := {}
  zones : List Zone := []
  nextToken : Nat := 1
deriving DecidableEq

namespace ZoneStore

def find? (s : ZoneStore) (origin : Name) : Option Zone :=
  s.zones.find? fun z => z.origin.same origin

def zone (s : ZoneStore) (origin : Name) : Except StoreError Zone :=
  match s.find? origin with
  | some z => .ok z
  | none => .error (.unknownZone origin)

/-- Puts a zone in the place of the one with its name. -/
def replace (s : ZoneStore) (z : Zone) : ZoneStore :=
  { s with zones := s.zones.map fun old => if old.origin.same z.origin then z else old }

def addZone (s : ZoneStore) (origin : Name) : Except StoreError ZoneStore :=
  match s.find? origin with
  | some _ => .error (.rejected (.zoneExists origin))
  | none => .ok { s with zones := s.zones ++ [{ origin }] }

def removeZone (s : ZoneStore) (origin : Name) : Except StoreError ZoneStore :=
  match s.find? origin with
  | some _ => .ok { s with zones := s.zones.filter fun z => !z.origin.same origin }
  | none => .error (.unknownZone origin)

def origins (s : ZoneStore) : List Name :=
  (s.zones.map Zone.origin).mergeSort fun a b => a.compare b != .gt

def historyLength (s : ZoneStore) (origin : Name) : Except StoreError Nat :=
  (s.zone origin).map fun z => z.history.length

def current (s : ZoneStore) (origin : Name) : Except StoreError ZoneVersion := do
  let z ← s.zone origin
  match z.current with
  | some g => return g.version
  | none => throw .missingSoa

def enumerate (s : ZoneStore) (origin : Name) (token : Token) :
    Except StoreError (List Record) := do
  let z ← s.zone origin
  match (z.current.toList ++ z.retained).find? fun g => g.token = token with
  | some g => return g.allRecords
  | none => throw (.unknownGeneration token)

def delta (s : ZoneStore) (origin : Name) (start stop : Serial) :
    Except StoreError (Option (List ZoneDiff)) :=
  (s.zone origin).map fun z => History.chain? z.history start stop

/-- The zone with a new current generation. The one before it is retained, and the oldest
retained ones are forgotten beyond the limit. -/
def publish (limits : StoreLimits) (z : Zone) (g : Generation) : Zone :=
  let retained := z.retained ++ z.current.toList
  { z with
    current := some g
    retained :=
      if z.current.isNone then z.retained
      else retained.drop (retained.length - limits.retainedGenerations) }

def takeToken (s : ZoneStore) : Token × ZoneStore :=
  (⟨s.nextToken⟩, { s with nextToken := s.nextToken + 1 })

/-- Replaces the content of a zone. This ends its history. -/
def commitFull (origin : Name) (soa : Record) (records : List Record) :
    EStateM StoreError ZoneStore Token := fun s =>
  match s.zone origin with
  | .error e => .error e s
  | .ok z =>
    let (token, s) := s.takeToken
    match Generation.build token origin soa records with
    | .error e => .error e s
    | .ok g => .ok token (s.replace (publish s.limits { z with history := [] } g))

/-- Applies diffs to a zone. No diffs at all change nothing. -/
def commitDelta (origin : Name) (expected : Serial) (diffs : List ZoneDiff) :
    EStateM StoreError ZoneStore Token := fun s =>
  match s.zone origin with
  | .error e => .error e s
  | .ok z =>
    match z.current with
    | none => .error .missingSoa s
    | some g =>
      if g.serial ≠ expected then .error (.serialMismatch expected g.serial) s
      else if diffs.isEmpty then .ok g.token s
      else
        let (token, s) := s.takeToken
        match g.apply token origin diffs with
        | .error e => .error e s
        | .ok next =>
          let z := { z with history := History.push s.limits.maxDeltas z.history diffs }
          .ok token (s.replace (publish s.limits z next))

instance : ZoneStorage ZoneStore where
  current := current
  enumerate := enumerate
  delta := delta
  commitFull := commitFull
  commitDelta := commitDelta

end ZoneStore
end ZoneSync
