import ZoneSync.Proofs.Zone.Events

/-!
Tokens name generations for as long as a store keeps them. Each is larger than all before it, and
it leads to the records that its generation was published with, for one zone only, until later
generations push it out or the zone is removed.
-/

namespace ZoneSync

/-- The events do not publish two generations with one token. -/
def Event.Apart (x y : Event) : Prop :=
  ∀ a, x.generation? = some a → ∀ b, y.generation? = some b → a.token ≠ b.token

instance : Std.Symm Event.Apart := ⟨fun _ _ h a ha b hb => (h b hb a ha).symm⟩

namespace ZoneStore

theorem enumerate_of_find? {s : ZoneStore} {origin : Name} {z : Zone}
    (found : s.find? origin = some z) (token : Token) :
    s.enumerate origin token =
      match (z.current.toList ++ z.retained).find? fun g => g.token = token with
      | some g => .ok g.allRecords
      | none => .error (.unknownGeneration token) := by
  rw [enumerate, zone_eq_ok_iff.mpr found]
  change (match (z.current.toList ++ z.retained).find? fun g => g.token = token with
    | some g => pure g.allRecords
    | none => throw (.unknownGeneration token) : Except StoreError (List Record)) = _
  split <;> rfl

theorem enumerate_of_absent {s : ZoneStore} {origin : Name} (absent : s.find? origin = none)
    (token : Token) : s.enumerate origin token = .error (.unknownZone origin) := by
  simp [enumerate, zone, absent, bind, Except.bind]

theorem mem_generations {s : ZoneStore} {origin : Name} {z : Zone} {g : Generation}
    (found : s.find? origin = some z) :
    g ∈ s.generations origin ↔ g ∈ z.current.toList ++ z.retained := by
  simp only [generations, found, List.mem_append]
  exact or_comm

/-- Where the generations of a zone have different tokens, each of them is found by its own. -/
theorem enumerate_eq_ok_iff {s : ZoneStore} {origin : Name} {token : Token}
    {records : List Record}
    (distinct : ∀ g ∈ s.generations origin, ∀ h ∈ s.generations origin,
      g.token = h.token → g = h) :
    s.enumerate origin token = .ok records ↔
      ∃ g ∈ s.generations origin, g.token = token ∧ records = g.allRecords := by
  cases found : s.find? origin with
  | none => simp [enumerate_of_absent found, generations, found]
  | some z =>
      rw [enumerate_of_find? found]
      cases named : (z.current.toList ++ z.retained).find? fun g => g.token = token with
      | none =>
          have unnamed := List.find?_eq_none.mp named
          constructor
          · intro h
            simp at h
          · rintro ⟨g, hg, same, -⟩
            exact absurd same (by simpa using unnamed g ((mem_generations found).mp hg))
      | some g =>
          have known := (mem_generations found).mpr (List.mem_of_find?_eq_some named)
          have same : g.token = token := by simpa using List.find?_some named
          constructor
          · intro h
            exact ⟨g, known, same, (Except.ok.inj h).symm⟩
          · rintro ⟨h, hh, named_h, rfl⟩
            rw [distinct g known h hh (same.trans named_h.symm)]

theorem enumerate_eq_error {s : ZoneStore} {origin : Name} {token : Token} {e : StoreError}
    (h : s.enumerate origin token = .error e) :
    e = .unknownZone origin ∨ e = .unknownGeneration token := by
  cases found : s.find? origin with
  | none =>
      rw [enumerate_of_absent found] at h
      exact .inl (Except.error.inj h).symm
  | some z =>
      rw [enumerate_of_find? found] at h
      split at h
      · simp at h
      · exact .inr (Except.error.inj h).symm

theorem commitDelta_nil_token {s s' : ZoneStore} {origin : Name} {expected : Serial}
    {token : Token} (h : commitDelta origin expected [] s = .ok token s') :
    ∃ v, s.current origin = .ok v ∧ v.token = token := by
  rw [commitDelta] at h
  split at h
  · simp at h
  · rename_i z known
    split at h
    · simp at h
    · rename_i g content
      split at h
      · simp at h
      · obtain ⟨rfl, -⟩ := EStateM.Result.ok.inj h
        exact ⟨g.version, current_of_find? (zone_eq_ok_iff.mp known) content, rfl⟩

/-- How tokens name generations in the store `s` that a run of `used` commands has led to. The run
had the given events, and `start` was the first token to be given out. -/
structure Pins (limits : StoreLimits) (start used : Nat) (s : ZoneStore) (events : List Event) :
    Prop where
  /-- Every new token is larger than those of all zones before. -/
  increasing : (Event.generations events).Pairwise fun g h => g.token.value < h.token.value
  /-- One command uses up one token at most. -/
  bounded : ∀ g ∈ Event.generations events, g.token.value < start + used
  /-- A commit returns the token of the generation that it publishes. -/
  full : ∀ {origin soa records token s'}, commitFull origin soa records s = .ok token s' →
    ∃ g, (Command.commitFull origin soa records).event? s = some (.published origin g) ∧
      g.token = token
  delta : ∀ {origin expected diffs token s'}, diffs ≠ [] →
    commitDelta origin expected diffs s = .ok token s' →
    ∃ g, (Command.commitDelta origin expected diffs).event? s = some (.published origin g) ∧
      g.token = token
  /-- A commit of no diffs publishes nothing. -/
  empty : ∀ {origin expected token s'}, commitDelta origin expected [] s = .ok token s' →
    s' = s ∧ ∃ v, s.current origin = .ok v ∧ v.token = token
  /-- A token resolves exactly while its generation is one of the last of its zone. -/
  resolves : ∀ {origin token records}, s.enumerate origin token = .ok records ↔
    ∃ g ∈ (Event.since origin events).rtake (limits.retainedGenerations + 1),
      g.token = token ∧ records = g.soa.record :: g.records
  fails : ∀ {origin token e}, s.enumerate origin token = .error e →
    e = .unknownZone origin ∨ e = .unknownGeneration token
  /-- Tokens of another zone do not resolve. -/
  other : ∀ {owner origin g}, .published owner g ∈ events → ¬ owner.same origin →
    ∃ e, s.enumerate origin g.token = .error e
  /-- Tokens from before the removal of their zone do not resolve, also if it was added again. -/
  removed : ∀ {before after remover origin owner g}, events = before ++ .removed remover :: after →
    remover.same origin → .published owner g ∈ before → ∃ e, s.enumerate origin g.token = .error e

variable {s : ZoneStore} {events : List Event}

/-- A token tells when, for which zone and with what content it was published. -/
theorem eq_of_token (sorted : (Event.generations events).Pairwise
      fun g h => g.token.value < h.token.value) {owner other : Name} {g h : Generation}
    (hg : .published owner g ∈ events) (hh : .published other h ∈ events)
    (same : g.token = h.token) : owner = other ∧ g = h := by
  have unequal : events.Pairwise Event.Apart := by
    refine (List.pairwise_filterMap.mp sorted).imp ?_
    intro x y less a ha b hb equal
    have := less a ha b hb
    rw [equal] at this
    exact Nat.lt_irrefl _ this
  by_contra different
  have apart : Event.published owner g ≠ .published other h := by
    intro equal
    exact different (Event.published.inj equal)
  exact unequal.forall hg hh apart g rfl h rfl same

theorem KeepsLast.subset (keeps : s.KeepsLast events) (origin : Name) :
    s.generations origin ⊆ Event.since origin events := by
  intro g hg
  rw [keeps origin, List.rtake] at hg
  exact List.mem_of_mem_drop hg

theorem KeepsLast.resolves (keeps : s.KeepsLast events)
    (sorted : (Event.generations events).Pairwise fun g h => g.token.value < h.token.value)
    {origin : Name} {token : Token} {records : List Record} :
    s.enumerate origin token = .ok records ↔
      ∃ g ∈ (Event.since origin events).rtake (s.limits.retainedGenerations + 1),
        g.token = token ∧ records = g.soa.record :: g.records := by
  rw [← keeps origin]
  refine enumerate_eq_ok_iff fun g hg h hh same => ?_
  obtain ⟨owner, -, known⟩ := Event.published_of_mem_since (keeps.subset origin hg)
  obtain ⟨other, -, known'⟩ := Event.published_of_mem_since (keeps.subset origin hh)
  exact (eq_of_token sorted known known' same).2

/-- A token that is not one of those counted for a zone is an error there. -/
theorem KeepsLast.error (keeps : s.KeepsLast events)
    (sorted : (Event.generations events).Pairwise fun g h => g.token.value < h.token.value)
    {origin : Name} {token : Token} (foreign : ∀ g ∈ Event.since origin events, g.token ≠ token) :
    ∃ e, s.enumerate origin token = .error e := by
  cases result : s.enumerate origin token with
  | error e => exact ⟨e, rfl⟩
  | ok records =>
      obtain ⟨g, hg, same, -⟩ := (keeps.resolves sorted).mp result
      rw [← keeps origin] at hg
      exact absurd same (foreign g (keeps.subset origin hg))

/-- In every run of a store, tokens name the last generations of each zone and nothing else. -/
theorem tokens_pin (limits : StoreLimits) (start : Nat) (commands : List Command) :
    let first : ZoneStore := { limits, nextToken := start }
    Pins limits start commands.length (commands.foldl Command.run first)
      (first.events commands) := by
  intro first
  obtain ⟨keeps, increasing⟩ := events_run limits start commands
  have same_limits : (commands.foldl Command.run first).limits = limits := limits_run first commands
  have sorted := increasing.sorted
  refine {
    increasing := sorted
    bounded := fun g hg => Nat.lt_of_lt_of_le (increasing.fresh g hg) increasing.bounded
    full := ?_
    delta := ?_
    empty := fun h => ⟨commitDelta_nil h, commitDelta_nil_token h⟩
    resolves := by
      rw [← same_limits]
      exact keeps.resolves sorted
    fails := enumerate_eq_error
    other := ?_
    removed := ?_ }
  · intro origin soa records token s' h
    obtain ⟨g, same, content, -⟩ := changes_commitFull h
    exact ⟨g, event?_commitFull h content, same⟩
  · intro origin expected diffs token s' nonempty h
    obtain ⟨g, same, content, -⟩ := changes_commitDelta nonempty h
    exact ⟨g, event?_commitDelta nonempty h content, same⟩
  · intro owner origin g known different
    refine keeps.error sorted fun h hh same => ?_
    obtain ⟨other, of_origin, known'⟩ := Event.published_of_mem_since hh
    obtain ⟨rfl, -⟩ := eq_of_token sorted known' known same
    exact different of_origin
  · intro before after remover origin owner g split same known
    refine keeps.error sorted fun h hh equal => ?_
    -- What still counts for the zone was published after the removal, so its token is larger.
    rw [split, Event.since_removed same] at hh
    rw [split, Event.generations_append] at sorted
    have later : h ∈ Event.generations (.removed remover :: after) :=
      (Event.since_sublist origin after).subset hh
    have less := (List.pairwise_append.mp sorted).2.2 g (Event.mem_generations.mpr ⟨owner, known⟩)
      h later
    rw [equal] at less
    exact Nat.lt_irrefl _ less

end ZoneStore
end ZoneSync
