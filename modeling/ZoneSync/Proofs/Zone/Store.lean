import ZoneSync.Proofs.Zone.Generation
import ZoneSync.Zone.Store

/-!
What a commit does to a store: when it succeeds, which zone it changes and how, and that a
commit that fails changes no zone.
-/

namespace ZoneSync

theorem Generation.build_token {token : Token} {origin : Name} {soa : Record}
    {records : List Record} {g : Generation} (h : build token origin soa records = .ok g) :
    g.token = token := by
  obtain ⟨s, -, -, -, rfl⟩ := build_eq_ok_iff.mp h
  rfl

theorem Generation.build_soa {token : Token} {origin : Name} {soa : SoaRecord}
    {records : List Record} {g : Generation}
    (h : build token origin soa.record records = .ok g) : g.soa = soa := by
  obtain ⟨s, hs, -, -, rfl⟩ := build_eq_ok_iff.mp h
  have same : soa.record.soaRecord? = some s := Record.soaRecord?_eq_some.mpr hs
  exact (Option.some.inj same).symm

namespace ZoneStore

theorem find?_congr (s : ZoneStore) {origin other : Name} (h : origin.same other) :
    s.find? origin = s.find? other := by
  simp only [find?, Name.same_congr_right h]

theorem origin_of_find? {s : ZoneStore} {origin : Name} {z : Zone}
    (h : s.find? origin = some z) : z.origin.same origin := by
  rw [find?] at h
  simpa using List.find?_some h

theorem find?_replace {s : ZoneStore} {origin : Name} {old z : Zone}
    (found : s.find? origin = some old) (same : z.origin = old.origin) :
    (s.replace z).find? origin = some z := by
  rw [find?] at found
  rw [find?, replace, List.find?_map]
  have unchanged : ((fun z => z.origin.same origin) ∘
      fun old => if old.origin.same z.origin then z else old) =
      fun z => z.origin.same origin := by
    funext x
    by_cases hx : x.origin.same z.origin
    · simp only [Function.comp, hx, if_true]
      exact (Name.same_congr_left hx origin).symm
    · simp [hx]
  rw [unchanged, found]
  simp [same]

theorem find?_replace_other {s : ZoneStore} {origin : Name} {z : Zone}
    (other : ¬ z.origin.same origin) : (s.replace z).find? origin = s.find? origin := by
  simp only [find?, replace]
  induction s.zones with
  | nil => rfl
  | cons x later ih =>
      rw [List.map_cons]
      by_cases hx : x.origin.same z.origin
      · have hxo : ¬ x.origin.same origin := by rwa [Name.same_congr_left hx]
        simp only [if_pos hx, List.find?_cons, other, hxo]
        exact ih
      · by_cases hxo : x.origin.same origin <;> simp [hx, hxo, ih]

theorem find?_added {s : ZoneStore} {owner : Name} (free : s.find? owner = none)
    (origin : Name) :
    find? { s with zones := s.zones ++ [{ origin := owner }] } origin =
      if owner.same origin then some { origin := owner } else s.find? origin := by
  have found : find? { s with zones := s.zones ++ [{ origin := owner }] } origin =
      (s.find? origin).or (if owner.same origin then some { origin := owner } else none) := by
    simp only [find?, List.find?_append, List.find?_cons, List.find?_nil]
    cases owner.same origin <;> rfl
  by_cases same : owner.same origin
  · have absent : s.find? origin = none := by rwa [← find?_congr s same]
    simp [found, absent, same]
  · simp [found, same]

theorem find?_removed (s : ZoneStore) (owner origin : Name) :
    find? { s with zones := s.zones.filter fun z => !z.origin.same owner } origin =
      if owner.same origin then none else s.find? origin := by
  rw [find?, List.find?_filter]
  by_cases same : owner.same origin
  · rw [if_pos same]
    refine List.find?_eq_none.mpr fun z _ => ?_
    simp [Name.same_congr_right same]
  · have others : (fun z : Zone => decide (!z.origin.same owner ∧ z.origin.same origin)) =
        fun z => z.origin.same origin := by
      funext z
      by_cases hz : z.origin.same origin
      · have other : ¬ z.origin.same owner := by
          intro h
          exact same (Name.same_trans (Name.same_symm h) hz)
        simp [hz, other]
      · simp [hz]
    rw [others, if_neg same]
    rfl

/-- A zone that takes the place of another is found by every spelling of its name, and the search
for other zones does not see it. -/
theorem find?_replaced {s : ZoneStore} {owner : Name} {old z : Zone}
    (found : s.find? owner = some old) (named : z.origin = old.origin) (origin : Name) :
    (s.replace z).find? origin = if owner.same origin then some z else s.find? origin := by
  by_cases same : owner.same origin
  · rw [find?_congr s same] at found
    rw [if_pos same, find?_replace found named]
  · have other : ¬ z.origin.same origin := by
      rw [named]
      intro h
      exact same (Name.same_trans (Name.same_symm (origin_of_find? found)) h)
    rw [if_neg same, find?_replace_other other]

theorem zone_eq_ok_iff {s : ZoneStore} {origin : Name} {z : Zone} :
    s.zone origin = .ok z ↔ s.find? origin = some z := by
  rw [zone]
  cases s.find? origin <;> simp

theorem current_of_find? {s : ZoneStore} {origin : Name} {z : Zone} {g : Generation}
    (found : s.find? origin = some z) (content : z.current = some g) :
    s.current origin = .ok g.version := by
  simp [current, zone_eq_ok_iff.mpr found, content, bind, Except.bind, pure, Except.pure]

theorem current_eq_ok {s : ZoneStore} {origin : Name} {v : ZoneVersion}
    (h : s.current origin = .ok v) :
    ∃ z g, s.find? origin = some z ∧ z.current = some g ∧ v = g.version := by
  cases hz : s.zone origin with
  | error e => simp [current, hz, bind, Except.bind] at h
  | ok z =>
      cases content : z.current with
      | none => simp [current, hz, content, bind, Except.bind, throw, throwThe,
          MonadExceptOf.throw] at h
      | some g =>
          simp only [current, hz, content, bind, Except.bind, pure, Except.pure] at h
          exact ⟨z, g, zone_eq_ok_iff.mp hz, content, (Except.ok.inj h).symm⟩

theorem delta_of_find? {s : ZoneStore} {origin : Name} {z : Zone}
    (found : s.find? origin = some z) (start stop : Serial) :
    s.delta origin start stop = .ok (History.chain? z.history start stop) := by
  rw [delta, zone_eq_ok_iff.mpr found]
  rfl

theorem enumerate_current {s : ZoneStore} {origin : Name} {z : Zone} {g : Generation}
    (found : s.find? origin = some z) (content : z.current = some g) :
    s.enumerate origin g.token = .ok g.allRecords := by
  simp [enumerate, zone_eq_ok_iff.mpr found, content, bind, Except.bind, pure, Except.pure]

@[simp] theorem publish_origin (limits : StoreLimits) (z : Zone) (g : Generation) :
    (publish limits z g).origin = z.origin := rfl

@[simp] theorem publish_current (limits : StoreLimits) (z : Zone) (g : Generation) :
    (publish limits z g).current = some g := rfl

@[simp] theorem publish_history (limits : StoreLimits) (z : Zone) (g : Generation) :
    (publish limits z g).history = z.history := rfl

theorem commitFull_eq_ok_iff {s s' : ZoneStore} {origin : Name} {soa : Record}
    {records : List Record} {token : Token} :
    commitFull origin soa records s = .ok token s' ↔
      ∃ z g, s.find? origin = some z ∧
        Generation.build ⟨s.nextToken⟩ origin soa records = .ok g ∧ token = ⟨s.nextToken⟩ ∧
        s' = { s with nextToken := s.nextToken + 1 }.replace
          (publish s.limits { z with history := [] } g) := by
  rw [commitFull]
  cases hz : s.zone origin with
  | error e =>
      have missing : ∀ z, s.find? origin ≠ some z := fun z found => by
        rw [zone_eq_ok_iff.mpr found] at hz
        simp at hz
      simp [missing]
  | ok z =>
      simp only [takeToken, zone_eq_ok_iff.mp hz, Option.some.injEq]
      cases hg : Generation.build ⟨s.nextToken⟩ origin soa records with
      | error e => simp
      | ok g => simp [eq_comm (a := token), eq_comm (a := s')]

theorem commitDelta_eq_ok_iff {s s' : ZoneStore} {origin : Name} {expected : Serial}
    {diffs : List ZoneDiff} {token : Token} (nonempty : diffs ≠ []) :
    commitDelta origin expected diffs s = .ok token s' ↔
      ∃ z g next, s.find? origin = some z ∧ z.current = some g ∧ g.serial = expected ∧
        g.apply ⟨s.nextToken⟩ origin diffs = .ok next ∧ token = ⟨s.nextToken⟩ ∧
        s' = { s with nextToken := s.nextToken + 1 }.replace (publish s.limits
          { z with history := History.push s.limits.maxDeltas z.history diffs } next) := by
  rw [commitDelta]
  cases hz : s.zone origin with
  | error e =>
      have missing : ∀ z, s.find? origin ≠ some z := fun z found => by
        rw [zone_eq_ok_iff.mpr found] at hz
        simp at hz
      simp [missing]
  | ok z =>
      simp only [takeToken, zone_eq_ok_iff.mp hz, Option.some.injEq]
      cases hg : z.current with
      | none => simp [hg]
      | some g =>
          by_cases matching : g.serial = expected
          · cases applied : g.apply ⟨s.nextToken⟩ origin diffs with
            | error e => simp [hg, matching, nonempty, applied]
            | ok next =>
                simp [hg, matching, nonempty, applied, eq_comm (a := token), eq_comm (a := s')]
          · simp [hg, matching]

theorem commitDelta_nil {s s' : ZoneStore} {origin : Name} {expected : Serial} {token : Token}
    (h : commitDelta origin expected [] s = .ok token s') : s' = s := by
  rw [commitDelta] at h
  split at h
  · simp at h
  · split at h
    · simp at h
    · split at h
      · simp at h
      · exact (EStateM.Result.ok.inj h).2.symm

/-- A commit that fails may use up a token, and changes nothing else. -/
theorem commitFull_error {s s' : ZoneStore} {origin : Name} {soa : Record}
    {records : List Record} {e : StoreError} (h : commitFull origin soa records s = .error e s') :
    ∃ used ≤ 1, s' = { s with nextToken := s.nextToken + used } := by
  rw [commitFull, takeToken] at h
  split at h
  · obtain ⟨-, rfl⟩ := EStateM.Result.error.inj h
    exact ⟨0, Nat.zero_le 1, rfl⟩
  · dsimp only at h
    split at h
    · obtain ⟨-, rfl⟩ := EStateM.Result.error.inj h
      exact ⟨1, Nat.le_refl 1, rfl⟩
    · simp at h

theorem commitDelta_error {s s' : ZoneStore} {origin : Name} {expected : Serial}
    {diffs : List ZoneDiff} {e : StoreError}
    (h : commitDelta origin expected diffs s = .error e s') :
    ∃ used ≤ 1, s' = { s with nextToken := s.nextToken + used } := by
  rw [commitDelta, takeToken] at h
  split at h
  · obtain ⟨-, rfl⟩ := EStateM.Result.error.inj h
    exact ⟨0, Nat.zero_le 1, rfl⟩
  · split at h
    · obtain ⟨-, rfl⟩ := EStateM.Result.error.inj h
      exact ⟨0, Nat.zero_le 1, rfl⟩
    · split at h
      · obtain ⟨-, rfl⟩ := EStateM.Result.error.inj h
        exact ⟨0, Nat.zero_le 1, rfl⟩
      · split at h
        · simp at h
        · dsimp only at h
          split at h
          · obtain ⟨-, rfl⟩ := EStateM.Result.error.inj h
            exact ⟨1, Nat.le_refl 1, rfl⟩
          · simp at h

end ZoneStore
end ZoneSync
