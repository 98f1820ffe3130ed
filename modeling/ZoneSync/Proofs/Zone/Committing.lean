import ZoneSync.Proofs.Zone.Invariant

/-!
Diffs committed at once and in two parts. A generation that was reached in the middle is valid, so
applying the rest to it neither refuses nor changes what applying all of them does not, and the
history forgets the same diffs.
-/

namespace ZoneSync

theorem History.push_push (limit : Nat) (history diffs more : List ZoneDiff) :
    push limit (push limit history diffs) more = push limit history (diffs ++ more) := by
  simp only [push, ← List.append_assoc]
  rw [← List.drop_append_of_le_length (Nat.sub_le _ _), List.drop_drop]
  congr 1
  simp only [List.length_append, List.length_drop]
  omega

namespace Generation

/-- Diffs lead from a generation whose records have different data to a start of authority and
records of the zone. -/
structure Applies (g : Generation) (origin : Name) (diffs : List ZoneDiff) (soa : SoaRecord)
    (records : List Record) : Prop where
  ends : diffs.getLast?.map ZoneDiff.toSoa = some soa
  contiguous : ZoneDiff.isContiguous diffs g.serial soa.serial
  added : ∀ d ∈ diffs, ∀ r ∈ d.added, Fits origin g.soa.cls r
  owner : soa.owner.same origin
  fits : ∀ r ∈ records, Fits origin soa.cls r
  records : records = diffs.foldl change g.records

variable {g next : Generation} {origin : Name} {diffs first second : List ZoneDiff}

theorem apply_iff_applies (distinct : Distinct g.records) {token : Token} :
    g.apply token origin diffs = .ok next ↔
      next.token = token ∧ Applies g origin diffs next.soa next.records := by
  rw [apply_eq_ok_iff]
  constructor
  · rintro ⟨last, hl, contiguous, added, built⟩
    have token := build_token built
    have soa := build_soa built
    obtain ⟨s, -, owner, fits, rfl⟩ := build_eq_ok_iff.mp built
    obtain rfl : s = last.toSoa := soa
    have kept := keepLast_eq_self (distinct_changes distinct diffs)
    refine ⟨token, ?_, contiguous, added, owner, ?_, kept⟩
    · rw [hl]
      rfl
    · rwa [kept]
  · rintro ⟨rfl, h⟩
    obtain ⟨last, hl, soa⟩ := Option.map_eq_some_iff.mp h.ends
    obtain ⟨token, _, _⟩ := next
    obtain rfl := soa
    obtain rfl := h.records
    refine ⟨last, hl, h.contiguous, h.added, build_eq_ok_iff.mpr
      ⟨last.toSoa, rfl, h.owner, h.fits, ?_⟩⟩
    rw [keepLast_eq_self (distinct_changes distinct diffs)]

/-- Diffs may go on from a generation in the middle that has kept the class of the zone. -/
theorem Applies.trans {middle : Generation} {soa : SoaRecord} {records : List Record}
    (h : Applies g origin first middle.soa middle.records)
    (later : Applies middle origin second soa records) (cls : middle.soa.cls = g.soa.cls) :
    Applies g origin (first ++ second) soa records where
  ends := by
    obtain ⟨last, hl, ends⟩ := Option.map_eq_some_iff.mp later.ends
    rw [List.getLast?_append, hl, ← ends]
    rfl
  contiguous :=
    ZoneDiff.isContiguous_append.mpr ⟨middle.serial, h.contiguous, later.contiguous⟩
  added := by
    have added := later.added
    rw [cls] at added
    exact List.forall_mem_append.mpr ⟨h.added, added⟩
  owner := later.owner
  fits := later.fits
  records := by rw [later.records, h.records, List.foldl_append]

/-- What diffs lead to can be reached in two parts, if the first of them ends at the apex and in the
class of the zone. -/
theorem Applies.split (valid : g.Valid origin) {last : ZoneDiff}
    (hl : first.getLast? = some last) (nonempty : second ≠ [])
    (owner : last.toSoa.owner.same origin) (cls : last.toSoa.cls = g.soa.cls) {soa : SoaRecord}
    {records : List Record} (h : Applies g origin (first ++ second) soa records)
    (token : Token) :
    Applies g origin first last.toSoa (first.foldl change g.records) ∧
      Applies ⟨token, last.toSoa, first.foldl change g.records⟩ origin second soa records := by
  obtain ⟨earlier, more⟩ := List.forall_mem_append.mp h.added
  obtain ⟨middle, contiguous, rest⟩ := ZoneDiff.isContiguous_append.mp h.contiguous
  -- The middle of the way is where the last diff of the first part ends.
  obtain ⟨-, -, reached⟩ := ZoneDiff.linked_of_isContiguous contiguous
  obtain rfl := reached last hl
  refine ⟨⟨?_, contiguous, earlier, owner, ?_, rfl⟩, ⟨?_, rest, ?_, h.owner, h.fits, ?_⟩⟩
  · rw [hl]
    rfl
  · rw [cls]
    exact forall_mem_changes valid.fits earlier
  · rw [← List.getLast?_append_of_ne_nil first nonempty]
    exact h.ends
  · rwa [cls]
  · rw [h.records, List.foldl_append]

/-- Applying diffs does not depend on the tokens, and may be done in two parts. -/
theorem apply_append_iff (valid : g.Valid origin) {last : ZoneDiff}
    (hl : first.getLast? = some last) (nonempty : second ≠ [])
    (owner : last.toSoa.owner.same origin) (cls : last.toSoa.cls = g.soa.cls)
    (token early late : Token) {soa : SoaRecord} {records : List Record} :
    g.apply token origin (first ++ second) = .ok ⟨token, soa, records⟩ ↔
      ∃ middle, g.apply early origin first = .ok middle ∧
        middle.apply late origin second = .ok ⟨late, soa, records⟩ := by
  rw [apply_iff_applies valid.distinct]
  constructor
  · rintro ⟨-, h⟩
    obtain ⟨before, after⟩ := h.split valid hl nonempty owner cls early
    exact ⟨⟨early, last.toSoa, first.foldl change g.records⟩,
      (apply_iff_applies valid.distinct).mpr ⟨rfl, before⟩,
      (apply_iff_applies (distinct_changes valid.distinct first)).mpr ⟨rfl, after⟩⟩
  · rintro ⟨middle, applied, led⟩
    obtain ⟨-, before⟩ := (apply_iff_applies valid.distinct).mp applied
    have distinct : Distinct middle.records := by
      rw [before.records]
      exact distinct_changes valid.distinct first
    obtain ⟨-, after⟩ := (apply_iff_applies distinct).mp led
    have soa : last.toSoa = middle.soa := by simpa [hl] using before.ends
    exact ⟨rfl, before.trans after (by rwa [← soa])⟩

/-- Diffs lead to the serial that the last of them ends at. -/
theorem serial_of_apply {token : Token} {last : ZoneDiff} (hl : diffs.getLast? = some last)
    (applied : g.apply token origin diffs = .ok next) : next.serial = last.toSerial := by
  obtain ⟨last', hl', -, -, built⟩ := apply_eq_ok_iff.mp applied
  obtain rfl := Option.some.inj (hl.symm.trans hl')
  rw [serial, build_soa built]
  rfl

theorem token_of_apply {token : Token} (applied : g.apply token origin diffs = .ok next) :
    next.token = token := by
  obtain ⟨last, -, -, -, built⟩ := apply_eq_ok_iff.mp applied
  exact build_token built

end Generation

namespace ZoneStore

/-- The store after a commit of diffs has published the generation that they lead a zone to. -/
def advance (s : ZoneStore) (z : Zone) (diffs : List ZoneDiff) (next : Generation) : ZoneStore :=
  { s with nextToken := s.nextToken + 1 }.replace
    (publish s.limits { z with history := History.push s.limits.maxDeltas z.history diffs } next)

@[simp] theorem limits_advance (s : ZoneStore) (z : Zone) (diffs : List ZoneDiff)
    (next : Generation) : (s.advance z diffs next).limits = s.limits := rfl

theorem find?_advance {s : ZoneStore} {owner : Name} {z : Zone} (found : s.find? owner = some z)
    (diffs : List ZoneDiff) (next : Generation) (origin : Name) :
    (s.advance z diffs next).find? origin =
      if owner.same origin then
        some (publish s.limits
          { z with history := History.push s.limits.maxDeltas z.history diffs } next)
      else s.find? origin :=
  find?_replaced (s := { s with nextToken := s.nextToken + 1 }) (z := publish s.limits
    { z with history := History.push s.limits.maxDeltas z.history diffs } next) found rfl origin

/-- The store has the zone, with the generation as its content. -/
structure Has (s : ZoneStore) (origin : Name) (z : Zone) (g : Generation) : Prop where
  found : s.find? origin = some z
  content : z.current = some g

variable {s s' : ZoneStore} {origin : Name} {z : Zone} {g next : Generation}
  {diffs first second : List ZoneDiff}

theorem Has.advance (h : s.Has origin z g) (diffs : List ZoneDiff) (next : Generation) :
    ∃ z', (s.advance z diffs next).Has origin z' next ∧
      z'.history = History.push s.limits.maxDeltas z.history diffs :=
  ⟨_, ⟨(find?_advance h.found diffs next origin).trans (if_pos (Name.same_refl origin)), rfl⟩, rfl⟩

theorem Has.commitDelta_iff (h : s.Has origin z g) (nonempty : diffs ≠ []) {expected : Serial}
    {token : Token} :
    commitDelta origin expected diffs s = .ok token s' ↔
      g.serial = expected ∧ token = ⟨s.nextToken⟩ ∧
        ∃ next, g.apply ⟨s.nextToken⟩ origin diffs = .ok next ∧ s' = s.advance z diffs next := by
  rw [commitDelta_eq_ok_iff nonempty]
  constructor
  · rintro ⟨z', g', next, found, content, serial, applied, token, changed⟩
    obtain rfl := Option.some.inj (h.found.symm.trans found)
    obtain rfl := Option.some.inj (h.content.symm.trans content)
    exact ⟨serial, token, next, applied, changed⟩
  · rintro ⟨serial, token, next, applied, changed⟩
    exact ⟨z, g, next, h.found, h.content, serial, applied, token, changed⟩

/-- What two commits of diffs do of which the second goes on where the first has ended. -/
theorem Has.commitDelta_twice_iff (h : s.Has origin z g) {middle : ZoneDiff}
    (hl : first.getLast? = some middle) (nonempty : second ≠ []) {expected : Serial}
    {early late : Token} {half parts : ZoneStore} :
    (commitDelta origin expected first s = .ok early half ∧
        commitDelta origin middle.toSerial second half = .ok late parts) ↔
      g.serial = expected ∧ early = ⟨s.nextToken⟩ ∧ late = ⟨s.nextToken + 1⟩ ∧
        ∃ between last z', g.apply ⟨s.nextToken⟩ origin first = .ok between ∧
          between.apply ⟨s.nextToken + 1⟩ origin second = .ok last ∧
          half = s.advance z first between ∧ half.Has origin z' between ∧
          z'.history = History.push s.limits.maxDeltas z.history first ∧
          parts = half.advance z' second last := by
  have begun : first ≠ [] := by
    rintro rfl
    simp at hl
  rw [h.commitDelta_iff begun]
  constructor
  · rintro ⟨⟨serial, rfl, between, applied, rfl⟩, committed⟩
    obtain ⟨z', has, history⟩ := h.advance first between
    obtain ⟨-, rfl, last, led, rfl⟩ := (has.commitDelta_iff nonempty).mp committed
    exact ⟨serial, rfl, rfl, between, last, z', applied, led, rfl, has, history, rfl⟩
  · rintro ⟨serial, rfl, rfl, between, last, z', applied, led, rfl, has, history, rfl⟩
    have reached := Generation.serial_of_apply hl applied
    exact ⟨⟨serial, rfl, between, applied, rfl⟩,
      (has.commitDelta_iff nonempty).mpr ⟨reached, rfl, last, led, rfl⟩⟩

/-- Committing diffs at once does what committing them in two parts does, and succeeds if and only
if both parts do. -/
theorem commitDelta_append (reachable : s.Reachable) (found : s.find? origin = some z)
    (content : z.current = some g) {middle : ZoneDiff} (hl : first.getLast? = some middle)
    (nonempty : second ≠ [])
    (apex : ∀ d ∈ first ++ second, d.toSoa.owner.same origin ∧ d.toSoa.cls = g.soa.cls)
    (expected : Serial) :
    ((∃ token whole, commitDelta origin expected (first ++ second) s = .ok token whole) ↔
      ∃ early half late parts, commitDelta origin expected first s = .ok early half ∧
        commitDelta origin middle.toSerial second half = .ok late parts) ∧
    ∀ token whole early half late parts,
      commitDelta origin expected (first ++ second) s = .ok token whole →
      commitDelta origin expected first s = .ok early half →
      commitDelta origin middle.toSerial second half = .ok late parts →
      ∃ z₁ z₂ g₁ g₂, whole.find? origin = some z₁ ∧ z₁.current = some g₁ ∧
        parts.find? origin = some z₂ ∧ z₂.current = some g₂ ∧
        g₁.soa = g₂.soa ∧ g₁.records = g₂.records ∧ z₁.history = z₂.history := by
  have valid := reachable.valid_current found content
  have h : s.Has origin z g := ⟨found, content⟩
  obtain ⟨owner, cls⟩ := apex middle (List.mem_append_left _ (List.mem_of_getLast? hl))
  have joined : first ++ second ≠ [] := List.append_ne_nil_of_right_ne_nil first nonempty
  constructor
  · constructor
    · rintro ⟨token, whole, committed⟩
      obtain ⟨serial, -, next, applied, -⟩ := (h.commitDelta_iff joined).mp committed
      obtain ⟨token, soa, records⟩ := next
      obtain rfl := Generation.token_of_apply applied
      obtain ⟨between, before, after⟩ := (Generation.apply_append_iff valid hl nonempty owner cls
        _ ⟨s.nextToken⟩ ⟨s.nextToken + 1⟩).mp applied
      obtain ⟨z', has, history⟩ := h.advance first between
      exact ⟨_, _, _, _, (h.commitDelta_twice_iff hl nonempty).mpr
        ⟨serial, rfl, rfl, between, _, z', before, after, rfl, has, history, rfl⟩⟩
    · rintro ⟨early, half, late, parts, committed⟩
      obtain ⟨serial, -, -, between, last, -, before, after, -⟩ :=
        (h.commitDelta_twice_iff hl nonempty).mp committed
      obtain ⟨token, soa, records⟩ := last
      obtain rfl := Generation.token_of_apply after
      have applied := (Generation.apply_append_iff valid hl nonempty owner cls
        ⟨s.nextToken⟩ ⟨s.nextToken⟩ _).mpr ⟨between, before, after⟩
      exact ⟨_, _, (h.commitDelta_iff joined).mpr ⟨serial, rfl, _, applied, rfl⟩⟩
  · intro token whole early half late parts committed begun ended
    obtain ⟨-, -, next, applied, rfl⟩ := (h.commitDelta_iff joined).mp committed
    obtain ⟨-, -, -, between, last, z', before, after, rfl, has, kept, rfl⟩ :=
      (h.commitDelta_twice_iff hl nonempty).mp ⟨begun, ended⟩
    obtain ⟨z₁, whole_has, history⟩ := h.advance (first ++ second) next
    obtain ⟨z₂, parts_has, parts_history⟩ := has.advance second last
    obtain ⟨late, soa, records⟩ := last
    obtain rfl := Generation.token_of_apply after
    -- The two ways differ in the token of the last generation, and in nothing else.
    have same := (Generation.apply_append_iff valid hl nonempty owner cls
      ⟨s.nextToken⟩ ⟨s.nextToken⟩ _).mpr ⟨between, before, after⟩
    obtain rfl := Except.ok.inj (applied.symm.trans same)
    refine ⟨z₁, z₂, _, _, whole_has.found, whole_has.content, parts_has.found, parts_has.content,
      rfl, rfl, ?_⟩
    rw [history, parts_history, kept, limits_advance, History.push_push]

/-- A diff that replaces a record, and two more of which the first gives the new one another time
to live. The history has room for two diffs. -/
theorem commitDelta_append_root :
    let s : ZoneStore := [Command.addZone .root,
      .commitFull .root (rootSoa 7).record [rootAddress 1]].foldl Command.run
        { limits := { maxDeltas := 2 } }
    let z : Zone := { origin := .root, current := some ⟨⟨1⟩, rootSoa 7, [rootAddress 1]⟩ }
    let middle : ZoneDiff := ⟨rootSoa 7, rootSoa 8, [rootAddress 1], [rootAddress 2]⟩
    let second : List ZoneDiff := [⟨rootSoa 8, rootSoa 9, [], [{ rootAddress 2 with ttl := 5 }]⟩,
      ⟨rootSoa 9, rootSoa 10, [], [rootAddress 3]⟩]
    s.Reachable ∧ s.find? .root = some z ∧
      (∀ d ∈ middle :: second, d.toSoa.owner.same .root ∧ d.toSoa.cls = .internet) ∧
      ∃ token whole early half late parts,
        commitDelta .root ⟨7⟩ (middle :: second) s = .ok token whole ∧
        commitDelta .root ⟨7⟩ [middle] s = .ok early half ∧
        commitDelta .root ⟨8⟩ second half = .ok late parts ∧
        ∃ z₁ z₂ g₁ g₂, whole.find? .root = some z₁ ∧ z₁.current = some g₁ ∧
          parts.find? .root = some z₂ ∧ z₂.current = some g₂ ∧
          g₁.soa = g₂.soa ∧ g₁.records = g₂.records ∧ z₁.history = z₂.history := by
  intro s z middle second
  have reachable : s.Reachable := (Reachable.empty { maxDeltas := 2 } 1).run _
  have found : s.find? .root = some z := by decide
  have apex : ∀ d ∈ middle :: second, d.toSoa.owner.same .root ∧ d.toSoa.cls = .internet := by
    decide
  obtain ⟨both, equal⟩ := commitDelta_append reachable found rfl
    (rfl : [middle].getLast? = some middle) (List.cons_ne_nil _ _ : second ≠ []) apex ⟨7⟩
  have committed : ∃ token whole, commitDelta .root ⟨7⟩ (middle :: second) s = .ok token whole :=
    ⟨⟨2⟩, _, rfl⟩
  obtain ⟨early, half, late, parts, begun, ended⟩ := both.mp committed
  obtain ⟨token, whole, committed⟩ := committed
  exact ⟨reachable, found, apex, token, whole, early, half, late, parts, committed, begun, ended,
    equal token whole early half late parts committed begun ended⟩

end ZoneStore
end ZoneSync
