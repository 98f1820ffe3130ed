import ZoneSync.Proofs.Zone.Chain
import ZoneSync.Proofs.Zone.Reachable

/-!
Zones that have changed by diffs only. Whatever happened to other zones in between, the content
of the zone is what the diffs make of the earlier one, and its history ends with them as far as
the limit allows.
-/

namespace ZoneSync.ZoneStore

/-- Between two states of a store the zone has changed by exactly the given diffs. -/
inductive Advanced (origin : Name) (s : ZoneStore) : List ZoneDiff → ZoneStore → Prop
  | start : Advanced origin s [] s
  | commit {diffs more : List ZoneDiff} {before after : ZoneStore} {owner : Name}
      {expected : Serial} {token : Token} (h : Advanced origin s diffs before)
      (same : owner.same origin)
      (committed : commitDelta owner expected more before = .ok token after) :
      Advanced origin s (diffs ++ more) after
  | other {diffs : List ZoneDiff} {before : ZoneStore} {c : Command}
      (h : Advanced origin s diffs before)
      (unchanged : (c.run before).find? origin = before.find? origin) :
      Advanced origin s diffs (c.run before)

/-- A zone and its generation as diffs have made them out of earlier ones. -/
structure Follows (origin : Name) (z : Zone) (g : Generation) (diffs : List ZoneDiff) (z' : Zone)
    (g' : Generation) : Prop where
  current : z'.current = some g'
  history : z'.history <:+ z.history ++ diffs
  contiguous : ZoneDiff.isContiguous diffs g.serial g'.serial
  soa : g'.soa = (diffs.getLast?.map ZoneDiff.toSoa).getD g.soa
  records : g'.records = diffs.foldl Generation.change g.records
  fits : ∀ d ∈ diffs, ∀ r ∈ d.added, Generation.Fits origin g.soa.cls r

/-- The diffs stay in the class of the zone. -/
def InClass (g : Generation) (diffs : List ZoneDiff) : Prop := ∀ d ∈ diffs, d.toSoa.cls = g.soa.cls

theorem Follows.cls {origin : Name} {z z' : Zone} {g g' : Generation} {diffs : List ZoneDiff}
    (h : Follows origin z g diffs z' g') (classes : InClass g diffs) : g'.soa.cls = g.soa.cls := by
  rw [h.soa]
  cases hl : diffs.getLast? with
  | none => rfl
  | some last => exact classes last (List.mem_of_getLast? hl)

theorem suffix_push {limit : Nat} {history older diffs more : List ZoneDiff}
    (h : history <:+ older ++ diffs) :
    History.push limit history more <:+ older ++ (diffs ++ more) := by
  rw [← List.append_assoc]
  refine List.IsSuffix.trans (List.drop_suffix _ _) ?_
  obtain ⟨cut, split⟩ := h
  exact ⟨cut, by rw [← split, List.append_assoc]⟩

/-- A generation with different data in all its records keeps all that diffs leave in it. -/
theorem records_of_apply {origin : Name} {g next : Generation} {token : Token}
    {diffs : List ZoneDiff} (distinct : Generation.Distinct g.records)
    (applied : g.apply token origin diffs = .ok next) :
    next.records = diffs.foldl Generation.change g.records := by
  obtain ⟨last, -, -, -, built⟩ := Generation.apply_eq_ok_iff.mp applied
  obtain ⟨soa, -, -, -, rfl⟩ := Generation.build_eq_ok_iff.mp built
  exact Generation.keepLast_eq_self (Generation.distinct_changes distinct diffs)

theorem Follows.commit {origin owner : Name} {z z' : Zone} {g g' next : Generation}
    {diffs more : List ZoneDiff} {limit : Nat} {token : Token} {published : Zone}
    (h : Follows origin z g diffs z' g') (distinct : Generation.Distinct g.records)
    (classes : InClass g diffs) (same : owner.same origin)
    (applied : g'.apply token owner more = .ok next) (content : published.current = some next)
    (history : published.history = History.push limit z'.history more) :
    Follows origin z g (diffs ++ more) published next := by
  have changed : Generation.Distinct g'.records := by
    rw [h.records]
    exact Generation.distinct_changes distinct diffs
  have records := records_of_apply changed applied
  obtain ⟨last, hl, contiguous, fits, built⟩ := Generation.apply_eq_ok_iff.mp applied
  have soa := Generation.build_soa built
  refine ⟨content, ?_, ?_, ?_, ?_, ?_⟩
  · rw [history]
    exact suffix_push h.history
  · have serial : next.serial = last.toSerial := by
      rw [Generation.serial, soa]
      rfl
    rw [serial]
    exact ZoneDiff.isContiguous_append.mpr ⟨g'.serial, h.contiguous, contiguous⟩
  · rw [soa, List.getLast?_append, hl]
    rfl
  · rw [records, h.records, List.foldl_append]
  · intro d hd r hr
    cases List.mem_append.mp hd with
    | inl hd => exact h.fits d hd r hr
    | inr hd =>
        rw [← h.cls classes]
        exact (fits d hd r hr).congr_origin same

/-- A zone that changed by diffs only follows from what it was. -/
theorem Advanced.follows {origin : Name} {s s' : ZoneStore} {diffs : List ZoneDiff}
    (h : Advanced origin s diffs s') {z : Zone} {g : Generation}
    (found : s.find? origin = some z) (content : z.current = some g)
    (distinct : Generation.Distinct g.records) (classes : InClass g diffs) :
    ∃ z' g', s'.find? origin = some z' ∧ Follows origin z g diffs z' g' := by
  induction h with
  | start =>
      exact ⟨z, g, found, content, by simp, by simp [ZoneDiff.isContiguous], rfl, rfl, by simp⟩
  | @commit diffs more before after owner expected token _ same committed ih =>
      obtain ⟨earlier, -⟩ := List.forall_mem_append.mp classes
      obtain ⟨z', g', found', follows⟩ := ih earlier
      -- A commit of no diffs succeeds without a new generation.
      by_cases empty : more = []
      · subst empty
        obtain rfl := commitDelta_nil committed
        exact ⟨z', g', found', by rwa [List.append_nil]⟩
      · obtain ⟨old, g₁, next, known, current, -, applied, -, rfl⟩ :=
          (commitDelta_eq_ok_iff empty).mp committed
        rw [find?_congr before same] at known
        obtain rfl := Option.some.inj (known.symm.trans found')
        obtain rfl := Option.some.inj (current.symm.trans follows.current)
        have published := find?_replace (s := { before with nextToken := before.nextToken + 1 })
          (z := publish before.limits
            { old with history := History.push before.limits.maxDeltas old.history more } next)
          known rfl
        exact ⟨_, next, published, follows.commit distinct earlier same applied rfl rfl⟩
  | other _ unchanged ih =>
      obtain ⟨z', g', found', follows⟩ := ih classes
      exact ⟨z', g', unchanged.trans found', follows⟩

end ZoneSync.ZoneStore
