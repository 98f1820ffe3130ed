import ZoneSync.Proofs.Zone.Committing
import ZoneSync.Proofs.Zone.Lookup

/-!
What was published for a zone since it was last replaced as a whole. The history of the zone ends
with the diffs committed since then, and leads from each of these generations to the present one
unless it was cut in between.
-/

namespace ZoneSync

/-- A generation that was published, with the diffs that made it out of the one before. One that
replaced the zone as a whole has none. -/
structure Edition where
  generation : Generation
  diffs : List ZoneDiff
deriving DecidableEq

/-- The diffs of all editions, oldest first. -/
def Edition.allDiffs (editions : List Edition) : List ZoneDiff := editions.flatMap Edition.diffs

@[simp] theorem Edition.allDiffs_nil : allDiffs [] = [] := rfl

@[simp] theorem Edition.allDiffs_cons (e : Edition) (later : List Edition) :
    allDiffs (e :: later) = e.diffs ++ allDiffs later := rfl

@[simp] theorem Edition.allDiffs_append (editions later : List Edition) :
    allDiffs (editions ++ later) = allDiffs editions ++ allDiffs later :=
  List.flatMap_append

/-- The editions of a zone since it was last replaced as a whole, after one more command. A zone
that is added or removed has none. -/
def Command.editions (origin : Name) (s : ZoneStore) (known : List Edition) (c : Command) :
    List Edition :=
  match c.event? s, c with
  | some (.published owner g), .commitDelta _ _ diffs =>
    if owner.same origin then known ++ [⟨g, diffs⟩] else known
  | some (.published owner g), _ => if owner.same origin then [⟨g, []⟩] else known
  | some (.added owner), _ | some (.removed owner), _ => if owner.same origin then [] else known
  | none, _ => known

/-- The editions of a zone after commands that run one after the other. -/
def ZoneStore.editions (origin : Name) (s : ZoneStore) (known : List Edition) :
    List Command → List Edition
  | [] => known
  | c :: later => (c.run s).editions origin (c.editions origin s known) later

/-- Editions of which each was made out of the one before, from a generation to the last one. -/
inductive Lineage (origin : Name) (g : Generation) : List Edition → Generation → Prop
  | start : Lineage origin g [] g
  | commit {known : List Edition} {last next : Generation} {token : Token} {diffs : List ZoneDiff}
      (h : Lineage origin g known last) (applied : last.apply token origin diffs = .ok next) :
      Lineage origin g (known ++ [⟨next, diffs⟩]) next

namespace Lineage

variable {origin : Name} {g current : Generation} {e : Edition}
  {known earlier later : List Edition}

theorem concat_iff :
    Lineage origin g (earlier ++ [e]) current ↔
      e.generation = current ∧ ∃ last token, Lineage origin g earlier last ∧
        last.apply token origin e.diffs = .ok current := by
  constructor
  · generalize whole : earlier ++ [e] = known
    intro h
    cases h with
    | start => simp at whole
    | commit h applied =>
        obtain ⟨rfl, rfl⟩ := List.append_inj' whole rfl |>.imp id List.singleton_inj.mp
        exact ⟨rfl, _, _, h, applied⟩
  · rintro ⟨rfl, last, token, h, applied⟩
    exact h.commit applied

/-- Every edition splits its lineage. -/
theorem split (h : Lineage origin g (earlier ++ e :: later) current) :
    Lineage origin g (earlier ++ [e]) e.generation ∧ Lineage origin e.generation later current := by
  -- A lineage grows at its end, so the editions behind are taken from there.
  induction later using List.reverseRecOn generalizing current with
  | nil =>
      obtain ⟨rfl, -⟩ := concat_iff.mp h
      exact ⟨h, .start⟩
  | append_singleton later x ih =>
      rw [← List.cons_append, ← List.append_assoc] at h
      obtain ⟨same, last, token, h, applied⟩ := concat_iff.mp h
      obtain ⟨before, after⟩ := ih h
      exact ⟨before, concat_iff.mpr ⟨same, last, token, after, applied⟩⟩

theorem valid (h : Lineage origin g later current) (valid : g.Valid origin) :
    current.Valid origin := by
  cases h with
  | start => exact valid
  | commit _ applied =>
      obtain ⟨last, -, -, -, built⟩ := Generation.apply_eq_ok_iff.mp applied
      exact Generation.valid_build built

/-- The present generation is the first one, or has the start of authority of the last diff. -/
theorem soa (h : Lineage origin g later current) :
    current = g ∨ ∃ d ∈ Edition.allDiffs later, current.soa = d.toSoa := by
  cases h with
  | start => exact .inl rfl
  | @commit _ _ _ _ diffs _ applied =>
      obtain ⟨last, hl, -, -, built⟩ := Generation.apply_eq_ok_iff.mp applied
      refine .inr ⟨last, ?_, Generation.build_soa built⟩
      simpa using Or.inr (List.mem_of_getLast? hl)

theorem cls (h : Lineage origin g later current)
    (classes : ∀ d ∈ Edition.allDiffs later, d.toSoa.cls = g.soa.cls) :
    current.soa.cls = g.soa.cls := by
  rcases h.soa with rfl | ⟨d, hd, same⟩
  · rfl
  · rw [same, classes d hd]

theorem serial_mem (h : Lineage origin g later current) :
    current.serial ∈ g.serial :: (Edition.allDiffs later).map ZoneDiff.toSerial := by
  rcases h.soa with rfl | ⟨d, hd, same⟩
  · exact List.mem_cons_self
  · refine List.mem_cons_of_mem _ (List.mem_map.mpr ⟨d, hd, ?_⟩)
    rw [Generation.serial, same]
    rfl

/-- All diffs of a lineage, applied at once, lead from its first generation to its last. -/
theorem applies (h : Lineage origin g later current) (valid : g.Valid origin)
    (classes : ∀ d ∈ Edition.allDiffs later, d.toSoa.cls = g.soa.cls) (nonempty : later ≠ []) :
    Generation.Applies g origin (Edition.allDiffs later) current.soa current.records := by
  induction h with
  | start => exact absurd rfl nonempty
  | @commit known last next token diffs h applied ih =>
      have led := ((Generation.apply_iff_applies (h.valid valid).distinct).mp applied).2
      have all : Edition.allDiffs (known ++ [⟨next, diffs⟩]) = Edition.allDiffs known ++ diffs := by
        simp
      rw [all] at classes ⊢
      obtain ⟨earlier, -⟩ := List.forall_mem_append.mp classes
      by_cases begun : known = []
      · subst begun
        obtain rfl : last = g := by simpa using h.soa
        exact led
      · exact (ih earlier begun).trans led (h.cls earlier)

theorem replay (h : Lineage origin g later current) (valid : g.Valid origin)
    (classes : ∀ d ∈ Edition.allDiffs later, d.toSoa.cls = g.soa.cls) (nonempty : later ≠ [])
    (token : Token) :
    g.apply token origin (Edition.allDiffs later) = .ok { current with token } :=
  (Generation.apply_iff_applies valid.distinct).mpr ⟨rfl, h.applies valid classes nonempty⟩

/-- An edition stands between those before it and those that follow from it. -/
theorem exists_before (h : Lineage origin g known current)
    (known_split : ⟨g, []⟩ :: known = earlier ++ e :: later) :
    ∃ before, known = before ++ later ∧ Lineage origin g before e.generation ∧
      Lineage origin e.generation later current := by
  cases earlier with
  | nil =>
      obtain ⟨rfl, rfl⟩ := List.cons.inj known_split
      exact ⟨[], rfl, .start, h⟩
  | cons first earlier =>
      obtain ⟨-, rfl⟩ := List.cons.inj known_split
      obtain ⟨before, after⟩ := h.split
      exact ⟨earlier ++ [e], by simp, before, after⟩

/-- If all serials of a lineage are different, so are those from any of its generations on. -/
theorem apart {before : List Edition} (h : Lineage origin g before current)
    (all : (g.serial :: (Edition.allDiffs (before ++ later)).map ZoneDiff.toSerial).Nodup) :
    (current.serial :: (Edition.allDiffs later).map ZoneDiff.toSerial).Nodup := by
  rw [Edition.allDiffs_append, List.map_append, ← List.cons_append] at all
  obtain ⟨-, rest, different⟩ := List.nodup_append.mp all
  refine List.nodup_cons.mpr ⟨fun again => ?_, rest⟩
  exact different _ h.serial_mem _ again rfl

end Lineage

namespace ZoneStore

theorem find?_of_zones {s s' : ZoneStore} (h : s'.zones = s.zones) (origin : Name) :
    s'.find? origin = s.find? origin := by
  rw [find?, find?, h]

/-- Only commits publish, and they publish what is then the content of the zone. -/
theorem commit_of_published {s : ZoneStore} {c : Command} {owner : Name} {g : Generation}
    (h : c.event? s = some (.published owner g)) :
    (c.run s).content? owner = some g ∧
      ((∃ soa records token, c = .commitFull owner soa records ∧
          commitFull owner soa records s = .ok token (c.run s)) ∨
        ∃ expected diffs token, c = .commitDelta owner expected diffs ∧ diffs ≠ [] ∧
          commitDelta owner expected diffs s = .ok token (c.run s)) := by
  cases c with
  | addZone origin =>
      cases added : s.addZone origin <;> simp [Command.event?, Command.refusal?, added] at h
  | removeZone origin =>
      cases removed : s.removeZone origin <;> simp [Command.event?, Command.refusal?, removed] at h
  | commitFull origin soa records =>
      cases committed : commitFull origin soa records s with
      | error e s' => simp [Command.event?, Command.refusal?, committed] at h
      | ok token s' =>
          simp only [Command.event?, Command.refusal?, Command.run, committed] at h ⊢
          obtain ⟨g', content, same⟩ := Option.map_eq_some_iff.mp h
          obtain ⟨rfl, rfl⟩ := Event.published.inj same
          exact ⟨content, .inl ⟨soa, records, token, rfl, committed⟩⟩
  | commitDelta origin expected diffs =>
      cases committed : commitDelta origin expected diffs s with
      | error e s' => simp [Command.event?, Command.refusal?, committed] at h
      | ok token s' =>
          simp only [Command.event?, Command.refusal?, Command.run, committed] at h ⊢
          by_cases empty : diffs = []
          · simp [empty] at h
          · rw [if_neg (by simpa using empty)] at h
            obtain ⟨g', content, same⟩ := Option.map_eq_some_iff.mp h
            obtain ⟨rfl, rfl⟩ := Event.published.inj same
            exact ⟨content, .inr ⟨expected, diffs, token, rfl, empty, committed⟩⟩

/-- What the editions of a zone say of it. Without any it has no content, and otherwise they end
with the present one, and the history with their diffs. -/
inductive Chronicle (origin : Name) (s : ZoneStore) : List Edition → Prop
  | blank (nothing : s.content? origin = none) : Chronicle origin s []
  | told {z : Zone} {base g : Generation} {since : List Edition} (has : s.Has origin z g)
      (valid : base.Valid origin) (lineage : Lineage origin base since g)
      (history : z.history = History.push s.limits.maxDeltas [] (Edition.allDiffs since)) :
      Chronicle origin s (⟨base, []⟩ :: since)

variable {origin : Name} {s s' : ZoneStore} {known : List Edition}

theorem Chronicle.congr (h : Chronicle origin s known)
    (found : s'.find? origin = s.find? origin) (limits : s'.limits = s.limits) :
    Chronicle origin s' known := by
  cases h with
  | blank nothing =>
      refine .blank ?_
      rw [content?, found]
      exact nothing
  | told has valid lineage history =>
      refine .told ⟨found.trans has.found, has.content⟩ valid lineage ?_
      rw [limits, history]

theorem Chronicle.replaced {owner : Name} {soa : Record} {records : List Record} {token : Token}
    {g : Generation} (h : Chronicle origin s known)
    (committed : commitFull owner soa records s = .ok token s')
    (content : s'.content? owner = some g) :
    Chronicle origin s' (if owner.same origin then [⟨g, []⟩] else known) := by
  obtain ⟨z, g', found, built, -, rfl⟩ := commitFull_eq_ok_iff.mp committed
  obtain rfl := Option.some.inj ((content?_publish found _ _).symm.trans content)
  have replaced := find?_replaced (s := { s with nextToken := s.nextToken + 1 })
    (z := publish s.limits { z with history := [] } g') found rfl origin
  by_cases same : owner.same origin
  · rw [if_pos same] at replaced ⊢
    refine .told ⟨replaced, rfl⟩ ((Generation.valid_build built).congr_origin same) .start ?_
    simp [History.push]
  · rw [if_neg same] at replaced ⊢
    exact h.congr replaced rfl

theorem Chronicle.advanced {owner : Name} {expected : Serial} {diffs : List ZoneDiff}
    {token : Token} {g : Generation} (h : Chronicle origin s known) (nonempty : diffs ≠ [])
    (committed : commitDelta owner expected diffs s = .ok token s')
    (content : s'.content? owner = some g) :
    Chronicle origin s' (if owner.same origin then known ++ [⟨g, diffs⟩] else known) := by
  obtain ⟨z, old, next, found, current, -, applied, -, changed⟩ :=
    (commitDelta_eq_ok_iff nonempty).mp committed
  obtain rfl : s' = s.advance z diffs next := changed
  obtain rfl := Option.some.inj ((content?_publish found _ _).symm.trans content)
  by_cases same : owner.same origin
  · rw [if_pos same]
    rw [find?_congr s same] at found
    cases h with
    | blank nothing => simp [content?, found, current] at nothing
    | told has valid lineage history =>
        obtain rfl := Option.some.inj (found.symm.trans has.found)
        obtain rfl := Option.some.inj (current.symm.trans has.content)
        obtain ⟨z', has', history'⟩ := has.advance diffs next
        refine .told has' valid (lineage.commit (Generation.apply_congr_origin same applied)) ?_
        rw [history', history, limits_advance, History.push_push]
        simp
  · rw [if_neg same]
    exact h.congr ((find?_advance found diffs next origin).trans (if_neg same)) rfl

theorem Chronicle.step (h : Chronicle origin s known) (c : Command) :
    Chronicle origin (c.run s) (c.editions origin s known) := by
  have step := changes_run s c
  cases happened : c.event? s with
  | none =>
      rw [happened] at step
      simp only [Command.editions, happened]
      exact h.congr (find?_of_zones step.zones origin) step.limits
  | some e =>
      rw [happened] at step
      cases e with
      | added owner =>
          simp only [Command.editions, happened]
          generalize c.run s = s' at step
          cases step with
          | added free =>
              have found := find?_added free origin
              by_cases same : owner.same origin
              · rw [if_pos same] at found ⊢
                exact .blank (by rw [content?, found]; rfl)
              · rw [if_neg same] at found ⊢
                exact h.congr found rfl
      | removed owner =>
          simp only [Command.editions, happened]
          generalize c.run s = s' at step
          cases step with
          | removed =>
              have found := find?_removed s owner origin
              by_cases same : owner.same origin
              · rw [if_pos same] at found ⊢
                exact .blank (by rw [content?, found]; rfl)
              · rw [if_neg same] at found ⊢
                exact h.congr found rfl
      | published owner g =>
          obtain ⟨content, ⟨soa, records, token, rfl, committed⟩ |
            ⟨expected, diffs, token, rfl, nonempty, committed⟩⟩ := commit_of_published happened
          · simp only [Command.editions, happened]
            exact h.replaced committed content
          · simp only [Command.editions, happened]
            exact h.advanced nonempty committed content

/-- What the editions of a zone tell after all commands. -/
theorem Chronicle.run (h : Chronicle origin s known) (commands : List Command) :
    Chronicle origin (commands.foldl Command.run s) (s.editions origin known commands) := by
  induction commands generalizing s known with
  | nil => exact h
  | cons c later ih => exact ih (h.step c)

/-- Between two generations of a zone the history holds the diffs committed in between, unless it
was cut in there. -/
theorem chain?_of_lineage (limit : Nat) (older : List ZoneDiff) {g current : Generation}
    {later : List Edition} (h : Lineage origin g later current) (valid : g.Valid origin)
    (classes : ∀ d ∈ Edition.allDiffs later, d.toSoa.cls = g.soa.cls)
    (apart : (g.serial :: (Edition.allDiffs later).map ZoneDiff.toSerial).Nodup)
    (nonempty : later ≠ []) :
    g.serial ≠ current.serial ∧
      History.chain? (History.push limit [] (older ++ Edition.allDiffs later)) g.serial
          current.serial =
        if (Edition.allDiffs later).length ≤ limit then some (Edition.allDiffs later)
        else none := by
  have led := h.applies valid classes nonempty
  have changed : Edition.allDiffs later ≠ [] := by
    intro empty
    simpa [empty] using led.ends
  exact ⟨ZoneDiff.ne_of_fresh led.contiguous changed (List.nodup_cons.mp apart).1,
    History.chain?_push limit older led.contiguous changed apart⟩

/-- The store answers with the diffs since each generation that was published for a zone after it
was last replaced as a whole, as long as they fit into the history. They make the present generation
out of that one. -/
theorem delta_replays {limits : StoreLimits} {start : Nat} {commands : List Command}
    {origin : Name} {base : Edition} {since : List Edition}
    (told : editions origin { limits, nextToken := start } [] commands = base :: since)
    (apart : (base.generation.serial ::
      (Edition.allDiffs since).map ZoneDiff.toSerial).Nodup)
    (apex : ∀ d ∈ Edition.allDiffs since,
      d.toSoa.owner.same origin ∧ d.toSoa.cls = base.generation.soa.cls) :
    let s := commands.foldl Command.run { limits, nextToken := start }
    ∃ current, s.content? origin = some current ∧
      ∀ earlier e later, base :: since = earlier ++ e :: later →
        ∃ found, s.delta origin e.generation.serial current.serial = .ok found ∧
          (found = none ↔ limits.maxDeltas < (Edition.allDiffs later).length) ∧
          ∀ diffs, found = some diffs →
            (e.generation = current → diffs = []) ∧
            (e.generation ≠ current → ∀ token, ∃ next,
              e.generation.apply token origin diffs = .ok next ∧
              next.soa = current.soa ∧ next.records = current.records) := by
  intro s
  have opened : Chronicle origin { limits, nextToken := start } [] := .blank rfl
  have chronicle := opened.run commands
  rw [told] at chronicle
  have same_limits : s.limits = limits := limits_run _ commands
  cases chronicle with
  | @told z base current _ has valid lineage history =>
      refine ⟨current, ?_, fun earlier e later parted => ?_⟩
      · rw [content?, has.found]
        exact has.content
      · obtain ⟨before, rfl, reached, follows⟩ := lineage.exists_before parted
        -- The history is parted at the same edition, and only a cut behind it loses the chain.
        rw [Edition.allDiffs_append] at apex history
        obtain ⟨apex_before, apex_later⟩ := List.forall_mem_append.mp apex
        have cls := reached.cls fun d hd => (apex_before d hd).2
        have classes : ∀ d ∈ Edition.allDiffs later, d.toSoa.cls = e.generation.soa.cls := by
          intro d hd
          rw [(apex_later d hd).2, cls]
        refine ⟨_, delta_of_find? has.found _ _, ?_⟩
        by_cases present : later = []
        · subst present
          obtain rfl : current = e.generation := by simpa using follows.soa
          simp [History.chain?]
        · have was_valid := reached.valid valid
          obtain ⟨other, found⟩ := chain?_of_lineage s.limits.maxDeltas (Edition.allDiffs before)
            follows was_valid classes (reached.apart apart) present
          rw [history, found, same_limits]
          by_cases fits : (Edition.allDiffs later).length ≤ limits.maxDeltas
          · rw [if_pos fits]
            refine ⟨by simpa using fits, ?_⟩
            rintro diffs ⟨⟩
            refine ⟨fun same => ?_, fun _ token => ?_⟩
            · exact absurd (congrArg Generation.serial same) other
            · exact ⟨_, follows.replay was_valid classes present token, rfl, rfl⟩
          · rw [if_neg fits]
            refine ⟨by simpa using fits, fun diffs unknown => ?_⟩
            simp at unknown

/-- Three diffs in two commits, and a history with room for two: it still leads from the generation
between the commits to the present one. -/
theorem delta_replays_root :
    let diff (older newer : UInt32) (last : UInt8) : ZoneDiff :=
      ⟨rootSoa older, rootSoa newer, [rootAddress 1], [rootAddress last]⟩
    let commands := [Command.addZone .root, .commitFull .root (rootSoa 7).record [rootAddress 1],
      .commitDelta .root ⟨7⟩ [diff 7 8 2], .commitDelta .root ⟨8⟩ [diff 8 9 1, diff 9 10 3]]
    let first : ZoneStore := { limits := { maxDeltas := 2 } }
    let s := commands.foldl Command.run first
    let between : Generation := ⟨⟨2⟩, rootSoa 8, [rootAddress 2]⟩
    let current : Generation := ⟨⟨3⟩, rootSoa 10, [rootAddress 2, rootAddress 3]⟩
    let since : List Edition :=
      [⟨between, [diff 7 8 2]⟩, ⟨current, [diff 8 9 1, diff 9 10 3]⟩]
    first.editions .root [] commands = ⟨⟨⟨1⟩, rootSoa 7, [rootAddress 1]⟩, []⟩ :: since ∧
      ((⟨7⟩ : Serial) :: (Edition.allDiffs since).map ZoneDiff.toSerial).Nodup ∧
      (∀ d ∈ Edition.allDiffs since, d.toSoa.owner.same .root ∧ d.toSoa.cls = .internet) ∧
      ∃ diffs next, s.delta .root ⟨8⟩ ⟨10⟩ = .ok (some diffs) ∧
        between.apply ⟨4⟩ .root diffs = .ok next ∧ next.soa = current.soa ∧
        next.records = current.records := by
  intro diff commands first s between current since
  have told : first.editions .root [] commands =
      ⟨⟨⟨1⟩, rootSoa 7, [rootAddress 1]⟩, []⟩ :: since := by decide +kernel
  have present : s.content? .root = some current := by decide +kernel
  have apart : ((⟨7⟩ : Serial) :: (Edition.allDiffs since).map ZoneDiff.toSerial).Nodup := by decide
  have apex : ∀ d ∈ Edition.allDiffs since, d.toSoa.owner.same .root ∧ d.toSoa.cls = .internet := by
    decide
  obtain ⟨latest, content, replays⟩ := delta_replays told apart apex
  obtain rfl : latest = current := Option.some.inj (content.symm.trans present)
  obtain ⟨found, answer, kept, led⟩ := replays [_] _ [_] rfl
  cases found with
  | none => exact absurd (kept.mp rfl) (by decide)
  | some diffs =>
      obtain ⟨next, applied, soa, records⟩ := (led diffs rfl).2 (by decide) ⟨4⟩
      exact ⟨told, apart, apex, diffs, next, answer, applied, soa, records⟩

end ZoneStore
end ZoneSync
