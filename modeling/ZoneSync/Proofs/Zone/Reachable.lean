import ZoneSync.Proofs.Zone.Distinct
import ZoneSync.Proofs.Zone.Store

/-!
The states of a store that commands lead to, and what they have in common: every generation has
its start of authority at the apex and other records that fit the zone and have different data.
What the diffs of a history put in fits the zone, too; nothing is known of the rest of a diff.
-/

namespace ZoneSync

/-- What changes a store. -/
inductive Command where
  | addZone (origin : Name)
  | removeZone (origin : Name)
  | commitFull (origin : Name) (soa : Record) (records : List Record)
  | commitDelta (origin : Name) (expected : Serial) (diffs : List ZoneDiff)

/-- The store after a command. One that is refused may still have used up a token. -/
def Command.run (s : ZoneStore) : Command → ZoneStore
  | addZone origin =>
    match s.addZone origin with
    | .ok s' => s'
    | .error _ => s
  | removeZone origin =>
    match s.removeZone origin with
    | .ok s' => s'
    | .error _ => s
  | commitFull origin soa records =>
    match ZoneStore.commitFull origin soa records s with
    | .ok _ s' | .error _ s' => s'
  | commitDelta origin expected diffs =>
    match ZoneStore.commitDelta origin expected diffs s with
    | .ok _ s' | .error _ s' => s'

/-- The error that a command is refused with, if it is refused. -/
def Command.refusal? (s : ZoneStore) : Command → Option StoreError
  | addZone origin =>
    match s.addZone origin with
    | .ok _ => none
    | .error e => some e
  | removeZone origin =>
    match s.removeZone origin with
    | .ok _ => none
    | .error e => some e
  | commitFull origin soa records =>
    match ZoneStore.commitFull origin soa records s with
    | .ok .. => none
    | .error e _ => some e
  | commitDelta origin expected diffs =>
    match ZoneStore.commitDelta origin expected diffs s with
    | .ok .. => none
    | .error e _ => some e

/-- What a command does to a zone. -/
inductive Event where
  | added (origin : Name)
  | removed (origin : Name)
  | published (origin : Name) (g : Generation)

/-- The present generation of a zone. -/
def ZoneStore.content? (s : ZoneStore) (origin : Name) : Option Generation :=
  (s.find? origin).bind Zone.current

/-- What happens through a command, unless it is refused or has nothing to commit. -/
def Command.event? (s : ZoneStore) (c : Command) : Option Event :=
  match c.refusal? s, c with
  | some _, _ => none
  | none, addZone origin => some (.added origin)
  | none, removeZone origin => some (.removed origin)
  | none, commitFull origin _ _ => ((c.run s).content? origin).map (.published origin)
  | none, commitDelta origin _ diffs =>
    if diffs.isEmpty then none else ((c.run s).content? origin).map (.published origin)

theorem Command.event?_of_refusal {s : ZoneStore} {c : Command} {e : StoreError}
    (h : c.refusal? s = some e) : c.event? s = none := by
  simp [event?, h]

/-- The content of a zone as it may be published. -/
structure Generation.Valid (origin : Name) (g : Generation) : Prop where
  owner : g.soa.owner.same origin
  fits : ∀ r ∈ g.records, Fits origin g.soa.cls r
  distinct : Distinct g.records

theorem Generation.valid_build {token : Token} {origin : Name} {soa : Record}
    {records : List Record} {g : Generation} (h : build token origin soa records = .ok g) :
    g.Valid origin := by
  obtain ⟨s, -, owner, fits, rfl⟩ := build_eq_ok_iff.mp h
  exact ⟨owner, fun r hr => fits r (mem_of_mem_keepLast hr), distinct_keepLast records⟩

theorem Generation.Valid.congr_origin {origin other : Name} {g : Generation} (h : g.Valid origin)
    (same : origin.same other) : g.Valid other :=
  ⟨Name.same_trans h.owner same, fun r hr => (h.fits r hr).congr_origin same, h.distinct⟩

/-- A valid generation can be built again, with any token, from its own records. -/
theorem Generation.Valid.build {origin : Name} {g : Generation} (h : g.Valid origin)
    (token : Token) :
    Generation.build token origin g.soa.record g.records = .ok { g with token } := by
  refine build_eq_ok_iff.mpr ⟨g.soa, rfl, h.owner, h.fits, ?_⟩
  rw [keepLast_eq_self h.distinct]

/-- All generations of the zone, the present one and those retained, are valid. -/
def Zone.Valid (z : Zone) : Prop := ∀ g ∈ z.current.toList ++ z.retained, g.Valid z.origin

/-- Every diff in the history put in records that fit the zone, in the class it had then. -/
def Zone.Recorded (z : Zone) : Prop :=
  ∀ d ∈ z.history, ∃ cls, ∀ r ∈ d.added, Generation.Fits z.origin cls r

namespace ZoneStore

def Valid (s : ZoneStore) : Prop := ∀ z ∈ s.zones, z.Valid

/-- The states that commands lead to from a store without zones. -/
inductive Reachable : ZoneStore → Prop
  | empty (limits : StoreLimits) (nextToken : Nat) : Reachable { limits, nextToken }
  | step {s : ZoneStore} (h : Reachable s) (c : Command) : Reachable (c.run s)

theorem Reachable.run {s : ZoneStore} (h : s.Reachable) (commands : List Command) :
    (commands.foldl Command.run s).Reachable := by
  induction commands generalizing s with
  | nil => exact h
  | cons c later ih => exact ih (h.step c)

theorem mem_of_find? {s : ZoneStore} {origin : Name} {z : Zone} (h : s.find? origin = some z) :
    z ∈ s.zones := List.mem_of_find?_eq_some h

/-- What a command can do to a store, and what happens to a zone by that. -/
inductive Changes (s : ZoneStore) : Option Event → ZoneStore → Prop
  | nothing {used : Nat} (once : used ≤ 1) :
      Changes s none { s with nextToken := s.nextToken + used }
  | added {origin : Name} (free : s.find? origin = none) :
      Changes s (some (.added origin)) { s with zones := s.zones ++ [{ origin }] }
  | removed {origin : Name} :
      Changes s (some (.removed origin))
        { s with zones := s.zones.filter fun z => !z.origin.same origin }
  | replaced {origin : Name} {z : Zone} {soa : Record} {records : List Record} {g : Generation}
      (found : s.find? origin = some z)
      (built : Generation.build ⟨s.nextToken⟩ origin soa records = .ok g) :
      Changes s (some (.published origin g)) ({ s with nextToken := s.nextToken + 1 }.replace
        (publish s.limits { z with history := [] } g))
  | advanced {origin : Name} {z : Zone} {g next : Generation} {diffs : List ZoneDiff}
      (found : s.find? origin = some z) (content : z.current = some g)
      (applied : g.apply ⟨s.nextToken⟩ origin diffs = .ok next) :
      Changes s (some (.published origin next)) ({ s with nextToken := s.nextToken + 1 }.replace
        (publish s.limits
          { z with history := History.push s.limits.maxDeltas z.history diffs } next))

theorem content?_publish {s : ZoneStore} {origin : Name} {z : Zone} {g : Generation}
    {history : List ZoneDiff} (found : s.find? origin = some z) (limits : StoreLimits)
    (next : Nat) :
    ({ s with nextToken := next }.replace (publish limits { z with history } g)).content? origin =
      some g := by
  have replaced := find?_replace (s := { s with nextToken := next })
    (z := publish limits { z with history } g) found rfl
  rw [content?, replaced]
  rfl

/-- A commit publishes a generation with the token that it returns. -/
theorem changes_commitFull {s s' : ZoneStore} {origin : Name} {soa : Record}
    {records : List Record} {token : Token}
    (h : commitFull origin soa records s = .ok token s') :
    ∃ g, g.token = token ∧ s'.content? origin = some g ∧
      Changes s (some (.published origin g)) s' := by
  obtain ⟨z, g, found, built, rfl, rfl⟩ := commitFull_eq_ok_iff.mp h
  exact ⟨g, Generation.build_token built, content?_publish found _ _, .replaced found built⟩

theorem changes_commitDelta {s s' : ZoneStore} {origin : Name} {expected : Serial}
    {diffs : List ZoneDiff} {token : Token} (nonempty : diffs ≠ [])
    (h : commitDelta origin expected diffs s = .ok token s') :
    ∃ g, g.token = token ∧ s'.content? origin = some g ∧
      Changes s (some (.published origin g)) s' := by
  obtain ⟨z, g, next, found, content, -, applied, rfl, rfl⟩ :=
    (commitDelta_eq_ok_iff nonempty).mp h
  obtain ⟨last, -, -, -, built⟩ := Generation.apply_eq_ok_iff.mp applied
  exact ⟨next, Generation.build_token built, content?_publish found _ _,
    .advanced found content applied⟩

theorem event?_commitFull {s s' : ZoneStore} {origin : Name} {soa : Record}
    {records : List Record} {token : Token} {g : Generation}
    (h : commitFull origin soa records s = .ok token s') (content : s'.content? origin = some g) :
    (Command.commitFull origin soa records).event? s = some (.published origin g) := by
  simp [Command.event?, Command.refusal?, Command.run, h, content]

theorem event?_commitDelta {s s' : ZoneStore} {origin : Name} {expected : Serial}
    {diffs : List ZoneDiff} {token : Token} {g : Generation} (nonempty : diffs ≠ [])
    (h : commitDelta origin expected diffs s = .ok token s')
    (content : s'.content? origin = some g) :
    (Command.commitDelta origin expected diffs).event? s = some (.published origin g) := by
  simp [Command.event?, Command.refusal?, Command.run, h, content, nonempty]

theorem changes_run (s : ZoneStore) (c : Command) : Changes s (c.event? s) (c.run s) := by
  cases c with
  | addZone origin =>
      cases free : s.find? origin with
      | some z =>
          simp only [Command.event?, Command.refusal?, Command.run, addZone, free]
          exact .nothing (Nat.zero_le 1)
      | none =>
          simp only [Command.event?, Command.refusal?, Command.run, addZone, free]
          exact .added free
  | removeZone origin =>
      cases found : s.find? origin with
      | some z =>
          simp only [Command.event?, Command.refusal?, Command.run, removeZone, found]
          exact .removed
      | none =>
          simp only [Command.event?, Command.refusal?, Command.run, removeZone, found]
          exact .nothing (Nat.zero_le 1)
  | commitFull origin soa records =>
      cases committed : commitFull origin soa records s with
      | error e s' =>
          obtain ⟨used, once, rfl⟩ := commitFull_error committed
          simp only [Command.event?, Command.refusal?, Command.run, committed]
          exact .nothing once
      | ok token s' =>
          obtain ⟨g, -, content, step⟩ := changes_commitFull committed
          rw [event?_commitFull committed content]
          simp only [Command.run, committed]
          exact step
  | commitDelta origin expected diffs =>
      cases committed : commitDelta origin expected diffs s with
      | error e s' =>
          obtain ⟨used, once, rfl⟩ := commitDelta_error committed
          simp only [Command.event?, Command.refusal?, Command.run, committed]
          exact .nothing once
      | ok token s' =>
          by_cases empty : diffs = []
          · subst empty
            obtain rfl := commitDelta_nil committed
            simp only [Command.event?, Command.refusal?, Command.run, committed]
            exact .nothing (Nat.zero_le 1)
          · obtain ⟨g, -, content, step⟩ := changes_commitDelta empty committed
            rw [event?_commitDelta empty committed content]
            simp only [Command.run, committed]
            exact step

theorem Changes.limits {s s' : ZoneStore} {e : Option Event} (h : Changes s e s') :
    s'.limits = s.limits := by
  cases h with
  | nothing _ | added _ | removed | replaced _ _ | advanced _ _ _ => rfl

theorem Changes.zones {s s' : ZoneStore} (h : Changes s none s') : s'.zones = s.zones := by
  cases h with
  | nothing _ => rfl

/-- A command that is refused leaves every zone as it is. -/
theorem zones_of_refusal {s : ZoneStore} {c : Command} {e : StoreError}
    (h : c.refusal? s = some e) : (c.run s).zones = s.zones := by
  have step := changes_run s c
  rw [Command.event?_of_refusal h] at step
  exact step.zones

/-- What new zones have in common and what every commit keeps. -/
structure Kept (limits : StoreLimits) (P : Zone → Prop) : Prop where
  fresh : ∀ origin, P { origin }
  replaced : ∀ {z token soa records g}, P z →
    Generation.build token z.origin soa records = .ok g →
    P (publish limits { z with history := [] } g)
  advanced : ∀ {z g next token diffs}, P z → z.current = some g →
    g.apply token z.origin diffs = .ok next →
    P (publish limits { z with history := History.push limits.maxDeltas z.history diffs } next)

/-- A property of all zones survives the replacement of one that has it, too. -/
theorem forall_zones_replace {P : Zone → Prop} {s : ZoneStore} {z : Zone}
    (h : ∀ x ∈ s.zones, P x) (hz : P z) : ∀ x ∈ (s.replace z).zones, P x := by
  intro x hx
  obtain ⟨old, known, rfl⟩ := List.mem_map.mp hx
  split
  · exact hz
  · exact h old known

theorem Changes.forall_zones {P : Zone → Prop} {s s' : ZoneStore} {e : Option Event}
    (step : Changes s e s') (kept : Kept s.limits P) (h : ∀ z ∈ s.zones, P z) :
    ∀ z ∈ s'.zones, P z := by
  cases step with
  | nothing _ => exact h
  | @added origin => exact List.forall_mem_append.mpr ⟨h, by simpa using kept.fresh origin⟩
  | removed => exact fun z hz => h z (List.mem_filter.mp hz).1
  | replaced found built =>
      have same := Name.same_symm (origin_of_find? found)
      exact forall_zones_replace h
        (kept.replaced (h _ (mem_of_find? found)) (Generation.build_congr_origin same built))
  | advanced found content applied =>
      have same := Name.same_symm (origin_of_find? found)
      exact forall_zones_replace h (kept.advanced (h _ (mem_of_find? found)) content
        (Generation.apply_congr_origin same applied))

/-- What commits keep is true of all zones in every state of the store. -/
theorem Reachable.forall_zones {P : Zone → Prop} {s : ZoneStore} (h : s.Reachable)
    (kept : Kept s.limits P) : ∀ z ∈ s.zones, P z := by
  induction h with
  | empty limits nextToken => exact fun z hz => by simp at hz
  | @step s _ c ih =>
      rw [(changes_run s c).limits] at kept
      exact (changes_run s c).forall_zones kept (ih kept)

theorem valid_publish {limits : StoreLimits} {z : Zone} {g : Generation} (h : z.Valid)
    (valid : g.Valid z.origin) : (publish limits z g).Valid := by
  intro x hx
  rw [publish_origin]
  cases List.mem_append.mp hx with
  | inl hx =>
      obtain rfl : x = g := by simpa using hx
      exact valid
  | inr hx =>
      rw [publish] at hx
      dsimp only at hx
      split at hx
      · exact h x (List.mem_append_right _ hx)
      · cases List.mem_append.mp (List.mem_of_mem_drop hx) with
        | inl hx => exact h x (List.mem_append_right _ hx)
        | inr hx => exact h x (List.mem_append_left _ hx)

theorem kept_valid (limits : StoreLimits) : Kept limits Zone.Valid where
  fresh origin g hg := by simp at hg
  replaced := by
    intro z token soa records g h built
    exact valid_publish (z := { z with history := [] }) h (Generation.valid_build built)
  advanced := by
    intro z g next token diffs h _ applied
    obtain ⟨last, -, -, -, built⟩ := Generation.apply_eq_ok_iff.mp applied
    exact valid_publish
      (z := { z with history := History.push limits.maxDeltas z.history diffs }) h
      (Generation.valid_build built)

theorem Reachable.valid {s : ZoneStore} (h : s.Reachable) : s.Valid :=
  h.forall_zones (kept_valid s.limits)

theorem Reachable.valid_current {s : ZoneStore} (h : s.Reachable) {origin : Name} {z : Zone}
    {g : Generation} (found : s.find? origin = some z) (content : z.current = some g) :
    g.Valid origin :=
  (h.valid z (mem_of_find? found) g (by simp [content])).congr_origin (origin_of_find? found)

theorem kept_recorded (limits : StoreLimits) : Kept limits Zone.Recorded where
  fresh origin d hd := by simp at hd
  replaced := by
    intro z token soa records g _ _ d hd
    simp at hd
  advanced := by
    intro z g next token diffs h _ applied d hd
    obtain ⟨last, -, -, fits, -⟩ := Generation.apply_eq_ok_iff.mp applied
    rw [publish_history, History.push] at hd
    cases List.mem_append.mp (List.mem_of_mem_drop hd) with
    | inl hd => exact h d hd
    | inr hd => exact ⟨g.soa.cls, fits d hd⟩

theorem Reachable.recorded {s : ZoneStore} (h : s.Reachable) : ∀ z ∈ s.zones, z.Recorded :=
  h.forall_zones (kept_recorded s.limits)

/-- Every store that knows the zone takes the records of a valid generation. -/
theorem commitFull_valid {s : ZoneStore} {origin : Name} {z : Zone} {g : Generation}
    (found : s.find? origin = some z) (valid : g.Valid origin) :
    ∃ token s' z', commitFull origin g.soa.record g.records s = .ok token s' ∧
      s'.find? origin = some z' ∧ z'.current = some { g with token } := by
  have committed := commitFull_eq_ok_iff.mpr ⟨z, _, found, valid.build _, rfl, rfl⟩
  have published := find?_replace (s := { s with nextToken := s.nextToken + 1 })
    (z := publish s.limits { z with history := [] } { g with token := ⟨s.nextToken⟩ }) found rfl
  exact ⟨_, _, _, committed, published, rfl⟩

end ZoneStore
end ZoneSync
