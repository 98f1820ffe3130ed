import ZoneSync.Proofs.Transfer.Receiving
import ZoneSync.Proofs.Zone.Store

/-!
A transfer changes the store as a whole or not at all, whatever the peer sends. If it succeeds
with a commit, one zone has a new generation, and its history is either gone or longer by the
diffs that led there.
-/

namespace ZoneSync.Secondary

/-- A zone has gone from the client's serial to another one by diffs that its history keeps as
far as the limit allows. -/
structure BroughtForward (limits : StoreLimits) (client : Option Serial) (z z' : Zone)
    (serial : Serial) (diffs : List ZoneDiff) : Prop where
  client : ∃ g, z.current = some g ∧ client = some g.serial ∧
    ZoneDiff.isContiguous diffs g.serial serial
  nonempty : diffs ≠ []
  history : z'.history = History.push limits.maxDeltas z.history diffs

/-- A store in which a transfer has been committed. Only the zone that was asked for differs. -/
structure Commits (request : TransferRequest) (before after : ZoneStore) (serial : Serial)
    (token : Token) (type : TransferType) : Prop where
  others : ∀ origin, ¬ origin.same request.origin → after.find? origin = before.find? origin
  zone : ∃ z z' g, before.find? request.origin = some z ∧
    after.find? request.origin = some z' ∧ z'.current = some g ∧ g.token = token ∧
    g.serial = serial ∧
    match type with
    | .axfr => z'.history = []
    | .ixfr => ∃ diffs, BroughtForward before.limits request.clientSerial z z' serial diffs

/-- The store after publishing a generation of one zone. -/
theorem find?_publish {s : ZoneStore} {origin : Name} {old z : Zone} {g : Generation}
    (found : s.find? origin = some old) (same : z.origin = old.origin) (limits : StoreLimits)
    (next : Nat) :
    ({ s with nextToken := next }.replace (ZoneStore.publish limits z g)).find? origin =
        some (ZoneStore.publish limits z g) ∧
      ∀ other : Name, ¬ other.same origin →
        ({ s with nextToken := next }.replace (ZoneStore.publish limits z g)).find? other =
          s.find? other := by
  refine ⟨ZoneStore.find?_replace (s := { s with nextToken := next }) found same, ?_⟩
  intro other different
  refine ZoneStore.find?_replace_other (s := { s with nextToken := next }) ?_
  rw [ZoneStore.publish_origin, same]
  intro h
  exact different (Name.same_trans (Name.same_symm h) (ZoneStore.origin_of_find? found))

theorem commits_of_delta {request : TransferRequest} {before after : ZoneStore} {start : Serial}
    {diffs : List ZoneDiff} {token : Token} (client : request.clientSerial = some start)
    (nonempty : diffs ≠ [])
    (h : ZoneStore.commitDelta request.origin start diffs before = .ok token after) :
    Commits request before after (Received.delta start diffs).serial token .ixfr := by
  obtain ⟨z, g, next, found, hg, rfl, applied, rfl, rfl⟩ :=
    (ZoneStore.commitDelta_eq_ok_iff nonempty).mp h
  obtain ⟨last, hl, contiguous, -, built⟩ := Generation.apply_eq_ok_iff.mp applied
  have reached : (Received.delta g.serial diffs).serial = last.toSerial :=
    Received.serial_delta contiguous
  obtain ⟨current, others⟩ := find?_publish (g := next)
    (z := { z with history := History.push before.limits.maxDeltas z.history diffs }) found rfl
    before.limits (before.nextToken + 1)
  refine ⟨others, z, _, next, found, current, rfl, Generation.build_token built, ?_, diffs, ?_⟩
  · rw [Generation.serial, Generation.build_soa built, reached]
    rfl
  · rw [reached]
    exact ⟨⟨g, hg, client, contiguous⟩, nonempty, rfl⟩

theorem delta_of_answer {config : TransferConfig} {request : TransferRequest}
    {records : List Record} {start : Serial} {diffs : List ZoneDiff}
    (h : Answer (expectation config request) records (.delta start diffs)) :
    request.clientSerial = some start ∧ diffs ≠ [] := by
  cases h with
  | chain start nonempty => exact ⟨Assembly.deltaStart_eq_some start, nonempty⟩
  | framed start _ nonempty => exact ⟨Assembly.deltaStart_eq_some start, nonempty⟩

end ZoneSync.Secondary
