import Mathlib.Data.List.Chain
import ZoneSync.Proofs.Zone.Chain
import ZoneSync.Proofs.Zone.Reachable

/-!
What every zone of a store satisfies after any commands: all generations it still has are valid,
its history is a chain of diffs without gaps that ends at its present serial, and neither holds
more than the limits allow. A command that is refused changes no zone.
-/

namespace ZoneSync

namespace ZoneDiff

/-- Every diff starts at the serial that the one before it ends at. -/
def Linked (diffs : List ZoneDiff) : Prop :=
  diffs.IsChain fun d next => next.fromSerial = d.toSerial

/-- A contiguous chain is linked, and it is anchored at both of its ends. -/
theorem linked_of_isContiguous {diffs : List ZoneDiff} {start stop : Serial}
    (h : isContiguous diffs start stop) :
    Linked diffs ∧ (∀ first ∈ diffs.head?, first.fromSerial = start) ∧
      ∀ last ∈ diffs.getLast?, last.toSerial = stop := by
  induction diffs generalizing start with
  | nil => exact ⟨.nil, by simp, by simp⟩
  | cons d later ih =>
      obtain ⟨first, rest⟩ := isContiguous_cons.mp h
      obtain ⟨linked, next, last⟩ := ih rest
      refine ⟨List.isChain_cons.mpr ⟨next, linked⟩, by simpa using first, ?_⟩
      cases later with
      | nil =>
          have same : d.toSerial = stop := by simpa [isContiguous] using rest
          simpa using same
      | cons next later =>
          rw [List.getLast?_cons_cons]
          exact last

end ZoneDiff

namespace History

theorem length_push_le (limit : Nat) (history diffs : List ZoneDiff) :
    (push limit history diffs).length ≤ limit := by
  rw [push, List.length_drop]
  omega

theorem push_suffix (limit : Nat) (history diffs : List ZoneDiff) :
    push limit history diffs <:+ history ++ diffs := List.drop_suffix _ _

end History

/-- What is true of a zone in a store with the given limits, whatever was done to it. -/
structure Zone.Sound (limits : StoreLimits) (z : Zone) : Prop where
  valid : z.Valid
  authority : ∀ g ∈ z.current.toList ++ z.retained,
    ∃ start, g.soa.record.soa? = some start ∧ start.serial = g.serial
  retained_length : z.retained.length ≤ limits.retainedGenerations
  history_length : z.history.length ≤ limits.maxDeltas
  linked : ZoneDiff.Linked z.history
  ended : ∀ last ∈ z.history.getLast?, ∃ g, z.current = some g ∧ last.toSerial = g.serial
  unpublished : z.current = none → z.history = [] ∧ z.retained = []

namespace ZoneStore

theorem length_retained_publish {limits : StoreLimits} {z : Zone} {g : Generation}
    (h : z.retained.length ≤ limits.retainedGenerations) :
    (publish limits z g).retained.length ≤ limits.retainedGenerations := by
  rw [publish]
  dsimp only
  split
  · exact h
  · rw [List.length_drop]
    omega

/-- A new generation keeps a zone sound if its history leads to the generation's serial. -/
theorem sound_publish {limits : StoreLimits} {z : Zone} {g : Generation}
    {history : List ZoneDiff} (h : z.Sound limits) (valid : g.Valid z.origin)
    (length : history.length ≤ limits.maxDeltas) (linked : ZoneDiff.Linked history)
    (ended : ∀ last ∈ history.getLast?, last.toSerial = g.serial) :
    (publish limits { z with history } g).Sound limits where
  valid := valid_publish (z := { z with history }) h.valid valid
  authority g _ := ⟨g.soa.soa, rfl, rfl⟩
  retained_length := length_retained_publish (z := { z with history }) h.retained_length
  history_length := length
  linked := linked
  ended last hl := ⟨g, rfl, ended last hl⟩
  unpublished none := by simp at none

/-- The history of a zone with the diffs of a commit leads on to where they end. -/
theorem linked_push {limits : StoreLimits} {z : Zone} {g : Generation} {diffs : List ZoneDiff}
    {stop : Serial} (h : z.Sound limits) (content : z.current = some g)
    (contiguous : ZoneDiff.isContiguous diffs g.serial stop) (nonempty : diffs ≠ []) :
    ZoneDiff.Linked (History.push limits.maxDeltas z.history diffs) ∧
      ∀ last ∈ (History.push limits.maxDeltas z.history diffs).getLast?, last.toSerial = stop := by
  obtain ⟨linked, first, last⟩ := ZoneDiff.linked_of_isContiguous contiguous
  have joined : ZoneDiff.Linked (z.history ++ diffs) := by
    refine List.isChain_append.mpr ⟨h.linked, linked, fun d hd next hnext => ?_⟩
    obtain ⟨g', content', ends⟩ := h.ended d hd
    obtain rfl := Option.some.inj (content.symm.trans content')
    rw [ends, first next hnext]
  obtain ⟨cut, split⟩ := History.push_suffix limits.maxDeltas z.history diffs
  refine ⟨List.IsChain.suffix joined ⟨cut, split⟩, fun d hd => last d ?_⟩
  have whole : (z.history ++ diffs).getLast? = some d := by
    rw [← split, List.getLast?_append, Option.mem_def.mp hd]
    rfl
  rwa [List.getLast?_append_of_ne_nil _ nonempty] at whole

theorem kept_sound (limits : StoreLimits) : Kept limits (Zone.Sound limits) where
  fresh origin := by
    refine ⟨?_, ?_, Nat.zero_le _, Nat.zero_le _, .nil, ?_, fun _ => ⟨rfl, rfl⟩⟩ <;>
      simp [Zone.Valid]
  replaced := by
    intro z token soa records g h built
    exact sound_publish h (Generation.valid_build built) (Nat.zero_le _) .nil (by simp)
  advanced := by
    intro z g next token diffs h content applied
    obtain ⟨last, hl, contiguous, -, built⟩ := Generation.apply_eq_ok_iff.mp applied
    have nonempty : diffs ≠ [] := by
      rintro rfl
      simp at hl
    have serial : next.serial = last.toSerial := by
      rw [Generation.serial, Generation.build_soa built]
      rfl
    obtain ⟨linked, ended⟩ := linked_push h content contiguous nonempty
    refine sound_publish h (Generation.valid_build built) (History.length_push_le _ _ _) linked ?_
    rwa [serial]

theorem Reachable.sound {s : ZoneStore} (h : s.Reachable) : ∀ z ∈ s.zones, z.Sound s.limits :=
  h.forall_zones (kept_sound s.limits)

theorem limits_run (s : ZoneStore) (commands : List Command) :
    (commands.foldl Command.run s).limits = s.limits := by
  induction commands generalizing s with
  | nil => rfl
  | cons c later ih => rw [List.foldl_cons, ih, (changes_run s c).limits]

/-- After any commands all zones are sound, and one more command that is refused changes none. -/
theorem run_sound (limits : StoreLimits) (nextToken : Nat) (commands : List Command) :
    let s := commands.foldl Command.run { limits, nextToken }
    (∀ z ∈ s.zones, z.Sound limits) ∧
      ∀ (c : Command) e, c.refusal? s = some e → (c.run s).zones = s.zones := by
  intro s
  have reachable : s.Reachable := (Reachable.empty limits nextToken).run commands
  have same : s.limits = limits := limits_run _ commands
  refine ⟨fun z hz => ?_, fun c e => zones_of_refusal⟩
  rw [← same]
  exact reachable.sound z hz

end ZoneStore
end ZoneSync
