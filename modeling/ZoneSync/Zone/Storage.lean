import ZoneSync.Zone.Generation

/-!
What transfers and snapshots need from a store of zones. A generation once published does not
change, and a commit replaces the current generation as a whole or leaves the zone alone.
-/

namespace ZoneSync

class ZoneStorage (σ : Type) where
  /-- The present version of a zone. A zone without content has none. -/
  current : σ → (origin : Name) → Except StoreError ZoneVersion
  /-- All records of a generation, the start of authority first. -/
  enumerate : σ → (origin : Name) → Token → Except StoreError (List Record)
  /-- The diffs that lead from one serial to another, if the store has them all. -/
  delta : σ → (origin : Name) → (start stop : Serial) →
    Except StoreError (Option (List ZoneDiff))
  commitFull : (origin : Name) → (soa : Record) → List Record → EStateM StoreError σ Token
  /-- Changes a zone that has to be at serial `expected`. -/
  commitDelta : (origin : Name) → (expected : Serial) → List ZoneDiff →
    EStateM StoreError σ Token

end ZoneSync
