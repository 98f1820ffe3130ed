import ZoneSync.Proofs.Transfer.Planning
import ZoneSync.Proofs.Zone.Lookup
import ZoneSync.Transfer.Secondary

/-!
What a primary decides on and what a secondary asks for. Both depend on how many steps the serial
of the primary is ahead, and the primary needs the diffs in between as well.
-/

namespace ZoneSync

namespace Primary

/-- How a primary at a serial with a history of diffs answers a secondary at another serial. -/
structure Settles (history : List ZoneDiff) (client serial : Serial) (p : AnswerPlan) : Prop where
  upToDate : p.negotiation.plan = .upToDate ↔ client = serial
  ixfr : p.negotiation.plan = .ixfr ↔
    serial.greater client ∧ History.HasChain history client serial
  diffs : p.negotiation.plan = .ixfr →
    p.diffs ≠ [] ∧ p.diffs <:+: history ∧ ZoneDiff.isContiguous p.diffs client serial
  no_diffs : p.negotiation.plan ≠ .ixfr → p.diffs = []
  axfr : p.negotiation.plan = .axfr ↔ p.negotiation.fallback.isSome
  local_copy : p.negotiation.fallback ≠ some .noLocalCopy
  not_older : p.negotiation.fallback = some .secondaryNotOlder ↔ serial.less client
  incomparable : p.negotiation.fallback = some .serialsIncomparable ↔
    client.distance serial = 2 ^ 31
  unavailable : p.negotiation.fallback = some .deltaUnavailable ↔
    serial.greater client ∧ ¬ History.HasChain history client serial

/-- The diffs that a plan may send, if there are any. -/
def offered (history : List ZoneDiff) (client serial : Serial) : Option (List ZoneDiff) :=
  if serial.greater client then History.chain? history client serial else none

theorem settles_offered {history : List ZoneDiff} {client serial : Serial}
    (linked : ZoneDiff.Linked history)
    (ended : ∀ last ∈ history.getLast?, last.toSerial = serial) (version : ZoneVersion) :
    let found := offered history client serial
    let negotiation := negotiate (some client) serial found.isSome
    Settles history client serial
      ⟨version, negotiation, if negotiation.plan = .ixfr then found.getD [] else []⟩ := by
  intro found negotiation
  have available : serial.greater client →
      (found.isSome ↔ History.HasChain history client serial) := fun newer => by
    rw [← History.isSome_chain?_iff linked ended (Serial.ne_of_greater newer)]
    simp only [found, offered, newer, if_true]
  refine ⟨negotiate_upToDate_iff .., ?_, ?_, fun plan => if_neg plan, negotiate_axfr_iff ..,
    fallback_ne_noLocalCopy client serial _, secondaryNotOlder_iff ..,
    serialsIncomparable_iff .., ?_⟩
  · exact (negotiate_ixfr_iff ..).trans (and_congr_right available)
  · intro plan
    obtain ⟨newer, some_found⟩ := (negotiate_ixfr_iff ..).mp plan
    obtain ⟨diffs, here⟩ := Option.isSome_iff_exists.mp some_found
    have chain : History.chain? history client serial = some diffs := by
      simpa only [found, offered, newer, if_true] using here
    obtain ⟨run, contiguous, -⟩ := History.chain?_sound (Serial.ne_of_greater newer) chain
    dsimp only
    rw [if_pos plan, here, Option.getD_some]
    exact ⟨ZoneDiff.ne_nil_of_isContiguous (Serial.ne_of_greater newer) contiguous, run, contiguous⟩
  · exact (deltaUnavailable_iff ..).trans
      (and_congr_right fun newer => not_congr (available newer))

section Store

variable {s : ZoneStore} {request : TransferRequest} {z : Zone} {g : Generation}

theorem diffsSince_eq (found : s.find? request.origin = some z) (client : Serial) :
    diffsSince s request.origin g.version client = .ok (offered z.history client g.serial) := by
  rw [diffsSince, offered]
  by_cases newer : g.serial.greater client
  · have kept : ZoneStorage.delta s request.origin client g.version.serial =
        .ok (History.chain? z.history client g.serial) :=
      ZoneStore.delta_of_find? found client g.serial
    rw [if_pos (show g.version.serial.greater client from newer), if_pos newer, kept]
    cases chain : History.chain? z.history client g.serial with
    | none => rfl
    | some diffs =>
        have contiguous := (History.chain?_sound (Serial.ne_of_greater newer) chain).2.1
        exact congrArg Except.ok (Option.filter_some_pos contiguous)
  · rw [if_neg (show ¬ g.version.serial.greater client from newer), if_neg newer]

theorem plan_since (found : s.find? request.origin = some z) (content : z.current = some g)
    {client : Serial} (asks : askedSerial request = some client) :
    plan s request = .ok (
      let diffs := offered z.history client g.serial
      let negotiation := negotiate (some client) g.serial diffs.isSome
      ⟨g.version, negotiation, if negotiation.plan = .ixfr then diffs.getD [] else []⟩) := by
  have current : ZoneStorage.current s request.origin = .ok g.version :=
    ZoneStore.current_of_find? found content
  rw [plan, planFor]
  simp only [current, asks, diffsSince_eq found client, bind, Except.bind]
  rfl

theorem plan_whole (found : s.find? request.origin = some z) (content : z.current = some g)
    (asks : askedSerial request = none) :
    plan s request = .ok ⟨g.version, ⟨.axfr, none⟩, []⟩ := by
  have current : ZoneStorage.current s request.origin = .ok g.version :=
    ZoneStore.current_of_find? found content
  rw [plan, planFor]
  simp only [current, asks, bind, Except.bind]
  rfl

theorem plan_of_error {e : StoreError} (absent : s.current request.origin = .error e) :
    plan s request = .error ⟨request.origin, .produce, .storage e⟩ := by
  have absent : ZoneStorage.current s request.origin = .error e := absent
  rw [plan, planFor]
  simp only [absent, bind, Except.bind]

end Store

end Primary

namespace Secondary

variable {τ : Type} [ZoneStorage τ]

/-- A secondary with content that knows the serial of the primary. -/
theorem request_eq {secondary : τ} {origin : Name} {version : ZoneVersion}
    (current : ZoneStorage.current secondary origin = .ok version) (id : UInt16) (serial : Serial) :
    request secondary origin id (some serial) = .ok (
      match (negotiate (some version.serial) serial true).plan with
      | .upToDate => none
      | .ixfr => some { TransferRequest.ixfr id origin version.soa.record with target := serial }
      | .axfr => some { TransferRequest.axfr id origin with target := serial }) := by
  rw [request]
  simp only [current, Option.map_some]
  cases (negotiate (some version.serial) serial true).plan <;> rfl

/-- What a secondary asks for when it hears of the serial of a primary, beside the plan that the
primary would make for a request for the changes. -/
structure AsksAlike (client serial : Serial) (p : Primary.AnswerPlan)
    (asked : Option TransferRequest) : Prop where
  nothing : asked = none ↔ p.negotiation.plan = .upToDate
  changes : (∃ r ∈ asked, r.type = .ixfr ∧ r.clientSerial = some client) ↔ serial.greater client
  whole : ∀ r ∈ asked, r.type = .axfr → p.negotiation.plan = .axfr

theorem asksAlike {history : List ZoneDiff} {serial : Serial} {p : Primary.AnswerPlan}
    {version : ZoneVersion} (settles : Primary.Settles history version.serial serial p)
    {secondary : τ} {origin : Name}
    (current : ZoneStorage.current secondary origin = .ok version) (id : UInt16) :
    ∃ asked, request secondary origin id (some serial) = .ok asked ∧
      AsksAlike version.serial serial p asked := by
  refine ⟨_, request_eq current id serial, ?_⟩
  have same := negotiate_upToDate_iff version.serial serial true
  have newer := negotiate_ixfr_iff version.serial serial true
  cases plan : (negotiate (some version.serial) serial true).plan with
  | upToDate =>
      have up_to_date := settles.upToDate.mpr (same.mp plan)
      rw [plan] at newer
      exact ⟨by simp [up_to_date], by simpa using newer, by simp⟩
  | ixfr =>
      have newer := (newer.mp plan).1
      have behind : p.negotiation.plan ≠ .upToDate := by
        rw [Ne, settles.upToDate, ← same, plan]
        simp
      refine ⟨by simp [behind], ?_, ?_⟩
      · simp only [newer, iff_true]
        exact ⟨_, rfl, rfl, rfl⟩
      · rintro _ ⟨⟩ full
        cases full
  | axfr =>
      rw [plan] at same newer
      have full : p.negotiation.plan = .axfr := by
        cases other : p.negotiation.plan with
        | upToDate => simpa using same.mpr (settles.upToDate.mp other)
        | ixfr => simpa using newer.mpr ⟨(settles.ixfr.mp other).1, rfl⟩
        | axfr => rfl
      refine ⟨by simp [full], ?_, fun _ _ _ => full⟩
      simpa [TransferRequest.axfr] using newer

end Secondary

namespace Primary

theorem askedSerial_eq_some {request : TransferRequest} {client : Serial} :
    askedSerial request = some client ↔
      request.type = .ixfr ∧ request.clientSerial = some client := by
  rw [askedSerial]
  split <;> simp_all

/-- A plan fails only without content to send. -/
theorem plan_eq_error_iff {s : ZoneStore} {request : TransferRequest} {e : TransferError} :
    plan s request = .error e ↔
      (s.find? request.origin = none ∧
          e = ⟨request.origin, .produce, .storage (.unknownZone request.origin)⟩) ∨
        ∃ z, s.find? request.origin = some z ∧ z.current = none ∧
          e = ⟨request.origin, .produce, .storage .missingSoa⟩ := by
  cases found : s.find? request.origin with
  | none =>
      have absent : s.current request.origin = .error (.unknownZone request.origin) := by
        simp [ZoneStore.current, ZoneStore.zone, found, bind, Except.bind]
      simp [plan_of_error absent, eq_comm]
  | some z =>
      cases content : z.current with
      | none =>
          have absent : s.current request.origin = .error .missingSoa := by
            simp [ZoneStore.current, ZoneStore.zone, found, content, bind, Except.bind, throw,
              throwThe, MonadExceptOf.throw]
          simp [plan_of_error absent, content, eq_comm]
      | some g =>
          cases asks : askedSerial request with
          | none => simp [plan_whole found content asks, content]
          | some client => simp [plan_since found content asks, content]

/-- A plan fails only without content to send. Otherwise it sends the present version: whole where
no changes are asked for, and else as the serials and the history settle it. A secondary that hears
of the serial decides alike. -/
theorem plan_settles {s : ZoneStore} (reachable : s.Reachable) (request : TransferRequest) :
    (∀ e, plan s request = .error e ↔
      (s.find? request.origin = none ∧
          e = ⟨request.origin, .produce, .storage (.unknownZone request.origin)⟩) ∨
        ∃ z, s.find? request.origin = some z ∧ z.current = none ∧
          e = ⟨request.origin, .produce, .storage .missingSoa⟩) ∧
    ∀ z g, s.find? request.origin = some z → z.current = some g →
      ∃ p, plan s request = .ok p ∧ p.version = g.version ∧
        ((∀ client, ¬ (request.type = .ixfr ∧ request.clientSerial = some client)) →
          p.negotiation = ⟨.axfr, none⟩ ∧ p.diffs = []) ∧
        ∀ client, request.type = .ixfr → request.clientSerial = some client →
          Settles z.history client g.serial p ∧
          ∀ {τ : Type} [ZoneStorage τ] (secondary : τ) (origin : Name) (version : ZoneVersion)
            (id : UInt16), ZoneStorage.current secondary origin = .ok version →
            version.serial = client → ∃ asked,
              Secondary.request secondary origin id (some g.serial) = .ok asked ∧
              Secondary.AsksAlike client g.serial p asked := by
  refine ⟨fun _ => plan_eq_error_iff, ?_⟩
  intro z g found content
  have sound := reachable.sound z (ZoneStore.mem_of_find? found)
  have ended : ∀ last ∈ z.history.getLast?, last.toSerial = g.serial := by
    intro last known
    obtain ⟨g', content', ends⟩ := sound.ended last known
    rwa [Option.some.inj (content.symm.trans content')]
  cases asks : askedSerial request with
  | none =>
      refine ⟨_, plan_whole found content asks, rfl, fun _ => ⟨rfl, rfl⟩, ?_⟩
      intro client changes since
      rw [askedSerial_eq_some.mpr ⟨changes, since⟩] at asks
      cases asks
  | some client =>
      have settles : Settles z.history client g.serial _ :=
        settles_offered sound.linked ended g.version
      refine ⟨_, plan_since found content asks, rfl, ?_, ?_⟩
      · intro never
        exact absurd (askedSerial_eq_some.mp asks) (never client)
      · intro other changes since
        obtain rfl : client = other :=
          Option.some.inj (asks.symm.trans (askedSerial_eq_some.mpr ⟨changes, since⟩))
        refine ⟨settles, ?_⟩
        rintro τ _ secondary origin version id current rfl
        exact Secondary.asksAlike settles current id

/-- Two diffs, the later one for a secondary that has the serial in between. -/
theorem plan_settles_root :
    let step (older newer : UInt32) : ZoneDiff := ⟨rootSoa older, rootSoa newer, [], []⟩
    let s : ZoneStore := [Command.addZone .root, .commitFull .root (rootSoa 7).record [],
      .commitDelta .root ⟨7⟩ [step 7 8, step 8 9]].foldl Command.run {}
    let secondary : ZoneStore := [Command.addZone .root,
      .commitFull .root (rootSoa 8).record []].foldl Command.run {}
    let request : TransferRequest := .ixfr 7 .root (rootSoa 8).record
    s.Reachable ∧ ∃ p asked, plan s request = .ok p ∧
      Settles [step 7 8, step 8 9] ⟨8⟩ ⟨9⟩ p ∧ p.negotiation.plan = .ixfr ∧
      Secondary.request secondary .root 3 (some ⟨9⟩) = .ok asked ∧
      Secondary.AsksAlike ⟨8⟩ ⟨9⟩ p asked ∧ asked ≠ none := by
  intro step s secondary request
  have reachable : s.Reachable := (ZoneStore.Reachable.empty {} 1).run _
  have found : s.find? .root = some {
      origin := .root
      current := some ⟨⟨2⟩, rootSoa 9, []⟩
      retained := [⟨⟨1⟩, rootSoa 7, []⟩]
      history := [step 7 8, step 8 9] } := rfl
  have current : ZoneStorage.current secondary .root = .ok ⟨⟨1⟩, rootSoa 8⟩ := rfl
  obtain ⟨p, planned, -, -, since⟩ := (plan_settles reachable request).2 _ _ found rfl
  obtain ⟨settles, alike⟩ := since ⟨8⟩ rfl rfl
  obtain ⟨asked, requested, asks_alike⟩ := alike secondary .root _ 3 current rfl
  have incremental : p.negotiation.plan = .ixfr :=
    settles.ixfr.mpr ⟨by decide, [step 8 9], by simp, ⟨[step 7 8], [], rfl⟩, by decide⟩
  refine ⟨reachable, p, asked, planned, settles, incremental, requested, asks_alike, ?_⟩
  rw [Ne, asks_alike.nothing, incremental]
  simp

end Primary
end ZoneSync
