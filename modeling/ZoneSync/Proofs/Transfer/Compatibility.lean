import ZoneSync.Proofs.Transfer.Incremental

/-!
Which incremental answers of a primary a secondary takes in. A store checks that the diffs of a
commit are a chain and that what they put in fits the zone. An answer has to meet more than that,
so a store can hold diffs that every secondary refuses.
-/

namespace ZoneSync

/-- Diffs as a history has them between a serial and that of the generation. -/
structure Generation.Excerpt (origin : Name) (g : Generation) (client : Serial)
    (diffs : List ZoneDiff) : Prop where
  owner : g.soa.owner.same origin
  other : client ≠ g.serial
  contiguous : ZoneDiff.isContiguous diffs client g.serial
  early : ∀ d ∈ diffs.dropLast, d.toSerial ≠ g.serial
  added : ∀ d ∈ diffs, Plain d.added

theorem Generation.Excerpt.nonempty {origin : Name} {g : Generation} {client : Serial}
    {diffs : List ZoneDiff} (h : g.Excerpt origin client diffs) : diffs ≠ [] := by
  intro empty
  have contiguous := h.contiguous
  rw [empty] at contiguous
  exact h.other (by simpa [ZoneDiff.isContiguous] using contiguous)

/-- An incremental plan of a store is an excerpt of what the store has kept. -/
theorem Primary.Planned.excerpt {store : ZoneStore} (reachable : store.Reachable)
    {request : TransferRequest} {p : AnswerPlan} (h : Planned store request p)
    (incremental : p.negotiation.plan = .ixfr) :
    ∃ (g : Generation) (client : Serial), p.version = g.version ∧
      askedSerial request = some client ∧ g.Excerpt request.origin client p.diffs := by
  obtain ⟨client, asks, other, contiguous, kept⟩ := h.since_client incremental
  obtain ⟨z, g, found, content, version⟩ := ZoneStore.current_eq_ok h.current
  have serial : p.version.serial = g.serial := congrArg ZoneVersion.serial version
  have valid := reachable.valid_current found content
  have recorded := reachable.recorded z (ZoneStore.mem_of_find? found)
  have chain : History.chain? z.history client p.version.serial = some p.diffs :=
    Except.ok.inj ((ZoneStore.delta_of_find? found _ _).symm.trans kept)
  obtain ⟨run, -, early⟩ := History.chain?_sound other chain
  rw [serial] at other contiguous early
  refine ⟨g, client, version, asks, valid.owner, other, contiguous, early, ?_⟩
  intro d hd r hr
  obtain ⟨cls, fits⟩ := recorded d (run.subset hd)
  exact (fits r hr).plain

/-- What diffs have to meet, beyond what the store has checked, so that a secondary takes in the
answer that they are sent in. -/
structure Receivable (config : TransferConfig) (request : TransferRequest) (stop : Serial)
    (diffs : List ZoneDiff) : Prop where
  owners : ∀ d ∈ diffs, d.fromSoa.owner.same request.origin ∧ d.toSoa.owner.same request.origin
  removed : ∀ d ∈ diffs, Plain d.removed
  forward : ∀ d ∈ diffs, d.toSerial.greaterOrEqual d.fromSerial
  bounded : config.ixfrLeadingSoa → ∀ d ∈ diffs, d.toSerial.lessOrEqual stop
  aimed : config.ixfrLeadingSoa = false →
    ∀ target, request.target = some target → ¬ stop.less target

theorem Answer.sendable {e : Expectation} {records : List Record} {start : Serial}
    {diffs : List ZoneDiff} (h : Answer e records (.delta start diffs)) :
    ∀ d ∈ diffs, d.Sendable := by
  cases h with
  | chain _ _ sendable => exact sendable
  | framed _ _ _ sendable => exact sendable

namespace Generation

variable {g : Generation} {e : Expectation} {config : TransferConfig} {start : Serial}
  {diffs : List ZoneDiff}

/-- The two framings of the same diffs are told apart by their lengths. -/
theorem bounded_of_answer (h : Answer e (g.incrementalAnswer config diffs) (.delta start diffs))
    (leading : config.ixfrLeadingSoa) : ∀ d ∈ diffs, d.toSerial.lessOrEqual g.serial := by
  rw [incrementalAnswer, if_pos leading] at h
  generalize records : [g.soa.record] ++ diffs.flatMap Primary.diffRecords ++ [g.soa.record] =
    answer at h
  cases h with
  | chain =>
      have lengths := congrArg List.length records
      simp only [List.length_append, List.length_singleton] at lengths
      omega
  | @framed _ _ first last _ _ _ _ _ bounded =>
      obtain ⟨same, -⟩ := List.cons.inj records
      rw [serial, SoaRecord.record_inj.mp same]
      exact bounded

theorem aimed_of_answer (h : Answer e (g.incrementalAnswer config diffs) (.delta start diffs))
    (bare : config.ixfrLeadingSoa = false) :
    ∀ target, e.target = some target → ¬ g.serial.less target := by
  rw [incrementalAnswer, if_neg (by simp [bare])] at h
  generalize records : [] ++ diffs.flatMap Primary.diffRecords ++ [g.soa.record] = answer at h
  cases h with
  | @chain _ _ last _ _ _ _ reached =>
      have same : g.soa.record = last.record := by simpa using records
      rw [serial, SoaRecord.record_inj.mp same]
      exact reached
  | framed =>
      have lengths := congrArg List.length records
      simp only [List.length_append, List.length_cons, List.length_nil] at lengths
      omega

theorem mem_incrementalAnswer_of_diff {d : ZoneDiff} (hd : d ∈ diffs) {r : Record}
    (hr : r ∈ Primary.diffRecords d) : r ∈ g.incrementalAnswer config diffs :=
  List.mem_append_left _ (List.mem_append_right _ (List.mem_flatMap.mpr ⟨d, hd, hr⟩))

theorem owners_of_ownedBy {origin : Name} (h : OwnedBy origin (g.incrementalAnswer config diffs)) :
    ∀ d ∈ diffs, d.fromSoa.owner.same origin ∧ d.toSoa.owner.same origin := by
  intro d hd
  constructor
  · apply h d.fromSoa.record
    · exact mem_incrementalAnswer_of_diff hd (by simp [Primary.diffRecords])
    · exact SoaRecord.soaRecord?_record d.fromSoa
  · apply h d.toSoa.record
    · exact mem_incrementalAnswer_of_diff hd (by simp [Primary.diffRecords])
    · exact SoaRecord.soaRecord?_record d.toSoa

theorem Excerpt.assemble_iff {producer consumer : TransferConfig} {request : TransferRequest}
    (h : g.Excerpt request.origin start diffs) (asks : Primary.askedSerial request = some start)
    (unlimited : consumer.maxTransferRecords = none) :
    Assembly.assemble (Secondary.expectation consumer request)
        (g.incrementalAnswer producer diffs) = .ok (.delta start diffs) ↔
      Receivable producer request g.serial diffs := by
  rw [Assembly.assemble_eq_ok_iff unlimited]
  constructor
  · rintro ⟨owned, answer⟩
    have sendable := answer.sendable
    exact ⟨owners_of_ownedBy owned, fun d hd => (sendable d hd).removed,
      fun d hd => (sendable d hd).forward, bounded_of_answer answer, aimed_of_answer answer⟩
  · intro receivable
    have plain : ∀ d ∈ diffs, Plain d.removed ∧ Plain d.added := fun d hd =>
      ⟨receivable.removed d hd, h.added d hd⟩
    have sendable : ∀ d ∈ diffs, d.Sendable := fun d hd =>
      ⟨receivable.forward d hd, receivable.removed d hd, h.added d hd⟩
    rw [← Secondary.deltaStart_expectation consumer] at asks
    exact ⟨ownedBy_incrementalAnswer producer h.owner receivable.owners plain,
      answer_incremental asks h.other h.nonempty sendable h.contiguous h.early
        receivable.bounded receivable.aimed⟩

end Generation

/-- The records of an incremental plan are taken in as the diffs from the client's serial to the
present one exactly if the diffs are receivable. -/
theorem ixfr_received_iff {store : ZoneStore} (reachable : store.Reachable)
    (request : TransferRequest) {p : Primary.AnswerPlan}
    (planned : Primary.plan store request = .ok p) (incremental : p.negotiation.plan = .ixfr)
    (producer consumer : TransferConfig) (unlimited : consumer.maxTransferRecords = none) :
    ∃ client records, request.clientSerial = some client ∧
      Primary.answerRecords store producer request.origin p = .ok records ∧
      (Received.delta client p.diffs).serial = p.version.serial ∧
      (Assembly.assemble (Secondary.expectation consumer request) records =
          .ok (.delta client p.diffs) ↔
        Receivable producer request p.version.serial p.diffs) := by
  obtain ⟨g, client, version, asks, excerpt⟩ :=
    (Primary.planned_of_plan planned).excerpt reachable incremental
  have serial : p.version.serial = g.serial := congrArg ZoneVersion.serial version
  have soa : p.version.soa = g.soa := congrArg ZoneVersion.soa version
  refine ⟨client, g.incrementalAnswer producer p.diffs, ?_, ?_, ?_, ?_⟩
  · rw [← Secondary.deltaStart_expectation consumer] at asks
    exact Assembly.deltaStart_eq_some asks
  · simp only [Primary.answerRecords, incremental, soa, Generation.incrementalAnswer]
  · rw [serial]
    exact Received.serial_delta excerpt.contiguous
  · rw [serial]
    exact excerpt.assemble_iff asks unlimited

/-- The changes of the root zone from serial 9 to serial 10, in the framing with the newest start
of authority in front. -/
theorem ixfr_received_root :
    let primary : ZoneStore := (Command.commitDelta .root ⟨9⟩ [rootDiff]).run rootStore
    let request : TransferRequest := .ixfr 7 .root (rootSoa 9).record
    ∃ records, Primary.answerRecords primary { ixfrLeadingSoa := true } .root
        ⟨⟨⟨2⟩, rootSoa 10⟩, ⟨.ixfr, none⟩, [rootDiff]⟩ = .ok records ∧
      Assembly.assemble (Secondary.expectation {} request) records =
        .ok (.delta ⟨9⟩ [rootDiff]) := by
  have reachable := reachable_rootStore.step (.commitDelta .root ⟨9⟩ [rootDiff])
  have receivable : Receivable { ixfrLeadingSoa := true }
      (.ixfr 7 .root (rootSoa 9).record) ⟨10⟩ [rootDiff] := by
    refine ⟨by decide, by decide, by decide, by decide, ?_⟩
    intro bare
    simp at bare
  obtain ⟨client, records, asks, sent, -, accepts⟩ := ixfr_received_iff reachable
    (.ixfr 7 .root (rootSoa 9).record)
    (p := ⟨⟨⟨2⟩, rootSoa 10⟩, ⟨.ixfr, none⟩, [rootDiff]⟩) (by cbv) rfl
    { ixfrLeadingSoa := true } {} rfl
  obtain rfl : ⟨9⟩ = client := Option.some.inj asks
  exact ⟨records, sent, accepts.mpr receivable⟩

/-- The root zone at serial 1, with the given diffs committed to it. -/
def changedRoot (diffs : List ZoneDiff) : ZoneStore :=
  [Command.addZone .root, .commitFull .root (rootSoa 1).record [],
    .commitDelta .root ⟨1⟩ diffs].foldl Command.run {}

theorem reachable_changedRoot (diffs : List ZoneDiff) : (changedRoot diffs).Reachable :=
  (ZoneStore.Reachable.empty {} 1).run _

/-- The primary plans an incremental answer, and a secondary without a limit refuses it. -/
def Primary.PlansRefused (store : ZoneStore) (leading : Bool) (request : TransferRequest)
    (why : Violation) : Prop :=
  ∃ p records, plan store request = .ok p ∧ p.negotiation.plan = .ixfr ∧
    answerRecords store { ixfrLeadingSoa := leading } request.origin p = .ok records ∧
    Assembly.assemble (Secondary.expectation {} request) records = .error why

def childOfRoot : Name := ⟨[⟨[97], by decide, by decide⟩], by decide⟩

/-- Every demand of an answer is one that a store lets diffs break: a step back, a start of
authority taken out, one of another owner, a step around the circle, and a serial older than the
one that is expected. -/
theorem ixfr_refused :
    let request : TransferRequest := .ixfr 7 .root (rootSoa 1).record
    let step (older newer : UInt32) : ZoneDiff := ⟨rootSoa older, rootSoa newer, [], []⟩
    let back := [step 1 5, step 5 3]
    let around := [step 1 0x60000000, step 0x60000000 0xC0000000, step 0xC0000000 3]
    let foreign : ZoneDiff := ⟨{ rootSoa 1 with owner := childOfRoot }, rootSoa 2, [], []⟩
    (∀ diffs, (changedRoot diffs).Reachable) ∧
      Primary.PlansRefused (changedRoot back) true request (.unexpectedSerial ⟨3⟩ ⟨5⟩) ∧
      Primary.PlansRefused (changedRoot back) false request (.unexpectedSerial ⟨5⟩ ⟨3⟩) ∧
      Primary.PlansRefused (changedRoot [⟨rootSoa 1, rootSoa 2, [(rootSoa 7).record], []⟩]) false
        request (.unexpectedSerial ⟨7⟩ ⟨2⟩) ∧
      Primary.PlansRefused (changedRoot [foreign]) false request
        (.wrongOrigin .root childOfRoot) ∧
      Primary.PlansRefused (changedRoot around) true request
        (.unexpectedSerial ⟨3⟩ ⟨0x60000000⟩) ∧
      Primary.PlansRefused (changedRoot [step 1 2]) false { request with target := some ⟨3⟩ }
        .incomplete := by
  refine ⟨reachable_changedRoot, ?_, ?_, ?_, ?_, ?_, ?_⟩
  · exact ⟨_, _, rfl, rfl, rfl, rfl⟩
  · exact ⟨_, _, rfl, rfl, rfl, rfl⟩
  · exact ⟨_, _, rfl, rfl, rfl, rfl⟩
  · exact ⟨_, _, rfl, rfl, rfl, rfl⟩
  · exact ⟨_, _, rfl, rfl, rfl, rfl⟩
  · exact ⟨_, _, rfl, rfl, rfl, rfl⟩

end ZoneSync
