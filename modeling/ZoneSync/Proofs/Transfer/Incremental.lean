import ZoneSync.Proofs.Transfer.Full
import ZoneSync.Proofs.Zone.Advance

/-!
Incremental transfers. A secondary with the records that the primary had at some serial is sent
the diffs committed since then, and has the records that the primary has now.
-/

namespace ZoneSync

/-- A diff that an answer for the zone can carry. -/
structure ZoneDiff.Portable (origin : Name) (cls : RecordClass) (d : ZoneDiff) : Prop where
  from_owner : d.fromSoa.owner.same origin
  to_owner : d.toSoa.owner.same origin
  cls : d.toSoa.cls = cls
  removed : Plain d.removed
  typed : ∀ r ∈ d.removed ++ d.added, r.WellTyped
  room : ∀ r ∈ d.removed ++ d.added, preambleLength + r.length ≤ maxMessageLength

namespace Generation

def incrementalAnswer (g : Generation) (config : TransferConfig) (diffs : List ZoneDiff) :
    List Record :=
  (if config.ixfrLeadingSoa then [g.soa.record] else []) ++
    diffs.flatMap Primary.diffRecords ++ [g.soa.record]

theorem incrementalAnswer_eq_cons (g : Generation) (config : TransferConfig)
    (diffs : List ZoneDiff) : ∃ (soa : SoaRecord) (later : List Record),
      g.incrementalAnswer config diffs = soa.record :: later := by
  rw [incrementalAnswer]
  cases config.ixfrLeadingSoa with
  | false => exact exists_soa_cons diffs g.soa []
  | true => exact ⟨g.soa, _, rfl⟩

theorem mem_incrementalAnswer {g : Generation} {config : TransferConfig}
    {diffs : List ZoneDiff} {r : Record} (h : r ∈ g.incrementalAnswer config diffs) :
    r = g.soa.record ∨ ∃ d ∈ diffs, r = d.fromSoa.record ∨ r = d.toSoa.record ∨
      r ∈ d.removed ++ d.added := by
  rw [incrementalAnswer] at h
  cases List.mem_append.mp h with
  | inl h =>
      cases List.mem_append.mp h with
      | inl h =>
          split at h
          · exact .inl (List.mem_singleton.mp h)
          · simp at h
      | inr h =>
          obtain ⟨d, hd, h⟩ := List.mem_flatMap.mp h
          refine .inr ⟨d, hd, ?_⟩
          simp only [Primary.diffRecords, List.cons_append, List.mem_cons, List.mem_append] at h ⊢
          rcases h with h | h | h | h
          · exact .inl h
          · exact .inr (.inr (.inl h))
          · exact .inr (.inl h)
          · exact .inr (.inr (.inr h))
  | inr h => exact .inl (List.mem_singleton.mp h)

theorem ownedBy_incrementalAnswer {g : Generation} {origin : Name} (config : TransferConfig)
    {diffs : List ZoneDiff} (owner : g.soa.owner.same origin)
    (owners : ∀ d ∈ diffs, d.fromSoa.owner.same origin ∧ d.toSoa.owner.same origin)
    (plain : ∀ d ∈ diffs, Plain d.removed ∧ Plain d.added) :
    OwnedBy origin (g.incrementalAnswer config diffs) := by
  intro r hr soa found
  rcases mem_incrementalAnswer hr with rfl | ⟨d, hd, rfl | rfl | hr⟩
  · rw [SoaRecord.soaRecord?_record] at found
    rwa [← Option.some.inj found]
  · rw [SoaRecord.soaRecord?_record] at found
    rw [← Option.some.inj found]
    exact (owners d hd).1
  · rw [SoaRecord.soaRecord?_record] at found
    rw [← Option.some.inj found]
    exact (owners d hd).2
  · obtain ⟨removed, added⟩ := plain d hd
    cases List.mem_append.mp hr with
    | inl hr => simp [removed r hr] at found
    | inr hr => simp [added r hr] at found

/-- Diffs between one serial and another are an answer in the framing of the configuration. -/
theorem answer_incremental {g : Generation} {e : Expectation} {config : TransferConfig}
    {diffs : List ZoneDiff} {start : Serial} (asks : e.deltaStart = some start)
    (other : start ≠ g.serial) (nonempty : diffs ≠ []) (sendable : ∀ d ∈ diffs, d.Sendable)
    (contiguous : ZoneDiff.isContiguous diffs start g.serial)
    (early : ∀ d ∈ diffs.dropLast, d.toSerial ≠ g.serial)
    (bounded : config.ixfrLeadingSoa → ∀ d ∈ diffs, d.toSerial.lessOrEqual g.serial)
    (aimed : config.ixfrLeadingSoa = false →
      ∀ target, e.target = some target → ¬ g.serial.less target) :
    Answer e (g.incrementalAnswer config diffs) (.delta start diffs) := by
  rw [incrementalAnswer]
  cases leading : config.ixfrLeadingSoa with
  | false => exact .chain asks nonempty sendable contiguous (aimed leading)
  | true => exact .framed asks other.symm nonempty sendable contiguous (bounded leading) early rfl

end Generation

/-- Diffs with their records that can be sent in one answer. -/
structure Sendable (origin : Name) (cls : RecordClass) (diffs : List ZoneDiff) : Prop where
  forward : ZoneDiff.Forward diffs
  portable : ∀ d ∈ diffs, d.Portable origin cls
  fits : ∀ d ∈ diffs, ∀ r ∈ d.added, Generation.Fits origin cls r

namespace Sendable

variable {origin : Name} {cls : RecordClass} {diffs : List ZoneDiff} {g : Generation}

theorem room (h : Sendable origin cls diffs) (config : TransferConfig) :
    ∀ r ∈ g.incrementalAnswer config diffs, preambleLength + r.length ≤ maxMessageLength := by
  intro r hr
  rcases Generation.mem_incrementalAnswer hr with rfl | ⟨d, hd, rfl | rfl | hr⟩
  · exact g.soa.has_room
  · exact d.fromSoa.has_room
  · exact d.toSoa.has_room
  · exact (h.portable d hd).room r hr

theorem typed (h : Sendable origin cls diffs) {config : TransferConfig} :
    ∀ r ∈ g.incrementalAnswer config diffs, r.WellTyped := by
  intro r hr
  rcases Generation.mem_incrementalAnswer hr with rfl | ⟨d, hd, rfl | rfl | hr⟩
  · trivial
  · trivial
  · trivial
  · exact (h.portable d hd).typed r hr

theorem plain (h : Sendable origin cls diffs) {d : ZoneDiff} (hd : d ∈ diffs) :
    Plain d.removed ∧ Plain d.added :=
  ⟨(h.portable d hd).removed, fun r hr => (h.fits d hd r hr).plain⟩

theorem ownedBy (h : Sendable origin cls diffs) {config : TransferConfig}
    (owner : g.soa.owner.same origin) : OwnedBy origin (g.incrementalAnswer config diffs) :=
  Generation.ownedBy_incrementalAnswer config owner
    (fun d hd => ⟨(h.portable d hd).from_owner, (h.portable d hd).to_owner⟩) fun _ => h.plain

theorem diff (h : Sendable origin cls diffs) {d : ZoneDiff} (hd : d ∈ diffs) : d.Sendable :=
  ⟨Serial.greaterOrEqual_of_greater (h.forward.newer d hd), (h.plain hd).1, (h.plain hd).2⟩

/-- In both framings the records are an answer that means the diffs. -/
theorem answer (h : Sendable origin cls diffs) {producer consumer : TransferConfig}
    {request : TransferRequest} {start : Serial} (nonempty : diffs ≠ [])
    (asks : Primary.askedSerial request = some start)
    (contiguous : ZoneDiff.isContiguous diffs start g.serial)
    (aimed : producer.ixfrLeadingSoa = false →
      ∀ target, request.target = some target → ¬ g.serial.less target) :
    Answer (Secondary.expectation consumer request) (g.incrementalAnswer producer diffs)
      (.delta start diffs) := by
  rw [← Secondary.deltaStart_expectation consumer] at asks
  obtain ⟨bounded, early⟩ := h.forward.serials contiguous
  exact Generation.answer_incremental asks (h.forward.ne_start contiguous nonempty) nonempty
    (fun _ => h.diff) contiguous early (fun _ => bounded) aimed

/-- Without the newest start of authority in front, the records are taken in, but they are no answer
to a request that expects a newer serial than they lead to. -/
theorem short (h : Sendable origin cls diffs) {producer consumer : TransferConfig}
    (bare : producer.ixfrLeadingSoa = false) (unlimited : consumer.maxTransferRecords = none)
    {request : TransferRequest} {start target : Serial} (nonempty : diffs ≠ [])
    (asks : Primary.askedSerial request = some start)
    (contiguous : ZoneDiff.isContiguous diffs start g.serial)
    (owned : OwnedBy request.origin (g.incrementalAnswer producer diffs))
    (expected : request.target = some target) (short : g.serial.less target) :
    ∃ a, Assembly.processAll (g.incrementalAnswer producer diffs)
      { expectation := Secondary.expectation consumer request } = .ok () a ∧
      a.finish = .error .incomplete := by
  rw [← Secondary.deltaStart_expectation consumer] at asks
  have shape : g.incrementalAnswer producer diffs =
      diffs.flatMap Primary.diffRecords ++ [g.soa.record] := by
    simp [Generation.incrementalAnswer, bare]
  rw [shape] at owned ⊢
  exact Assembly.processAll_short unlimited asks nonempty (fun _ => h.diff) contiguous owned
    expected short

end Sendable

/-- An incremental plan sends exactly the diffs that the zone has changed by since the client's
serial. -/
theorem Primary.diffs_of_plan {store : ZoneStore} {request : TransferRequest} {p : AnswerPlan}
    {past zone : Zone} {g latest : Generation} {diffs : List ZoneDiff}
    (planned : Planned store request p) (incremental : p.negotiation.plan = .ixfr)
    (found : store.find? request.origin = some zone)
    (follows : ZoneStore.Follows request.origin past g diffs zone latest)
    (client : request.clientSerial = some g.serial) (forward : ZoneDiff.Forward diffs) :
    p.version = latest.version ∧ p.diffs = diffs ∧ diffs ≠ [] ∧
      askedSerial request = some g.serial := by
  have version : p.version = latest.version :=
    Except.ok.inj (planned.current.symm.trans
      (ZoneStore.current_of_find? found follows.current))
  obtain ⟨start, asks, other, -, chain⟩ := planned.since_client incremental
  obtain rfl : start = g.serial := by
    rw [askedSerial] at asks
    split at asks
    · exact Option.some.inj (asks.symm.trans client)
    · simp at asks
  have current : p.version.serial = latest.serial := congrArg ZoneVersion.serial version
  rw [current] at other chain
  have nonempty : diffs ≠ [] := by
    rintro rfl
    have reached : g.serial = latest.serial := by
      simpa [ZoneDiff.isContiguous] using follows.contiguous
    exact other reached
  have found : History.chain? zone.history g.serial latest.serial = some p.diffs :=
    Except.ok.inj ((ZoneStore.delta_of_find? found _ _).symm.trans chain)
  exact ⟨version, History.chain?_eq follows.history forward follows.contiguous nonempty found,
    nonempty, asks⟩

/-- What the primary sends for an incremental plan: the diffs that have led from one generation of
the zone to the present one. -/
structure Primary.SendsChanges (store : ZoneStore) (producer : TransferConfig)
    (request : TransferRequest) (p : AnswerPlan) (past zone : Zone) (g latest : Generation)
    (diffs : List ZoneDiff) : Prop where
  follows : ZoneStore.Follows request.origin past g diffs zone latest
  sendable : Sendable request.origin g.soa.cls diffs
  nonempty : diffs ≠ []
  asks : askedSerial request = some g.serial
  owner : latest.soa.owner.same request.origin
  sent : answerRecords store producer request.origin p =
    .ok (latest.incrementalAnswer producer diffs)

theorem ZoneStore.Follows.soa_eq {origin : Name} {z z' : Zone} {g g' : Generation}
    {diffs : List ZoneDiff} (h : Follows origin z g diffs z' g') {last : ZoneDiff}
    (hl : diffs.getLast? = some last) : g'.soa = last.toSoa := by
  rw [h.soa, hl]
  rfl

theorem Primary.sendsChanges {past primary : ZoneStore} (reachable : past.Reachable)
    {request : TransferRequest} {old zone : Zone} {g latest : Generation}
    (known : past.find? request.origin = some old) (was : old.current = some g)
    {diffs : List ZoneDiff} (advanced : ZoneStore.Advanced request.origin past diffs primary)
    (forward : ZoneDiff.Forward diffs)
    (portable : ∀ d ∈ diffs, d.Portable request.origin g.soa.cls)
    (found : primary.find? request.origin = some zone) (content : zone.current = some latest)
    (producer : TransferConfig) {p : AnswerPlan} (planned : plan primary request = .ok p)
    (incremental : p.negotiation.plan = .ixfr) (client : request.clientSerial = some g.serial) :
    SendsChanges primary producer request p old zone g latest diffs := by
  have distinct := (reachable.valid_current known was).distinct
  have classes : ZoneStore.InClass g diffs := fun d hd => (portable d hd).cls
  obtain ⟨zone', latest', found', follows⟩ := advanced.follows known was distinct classes
  obtain rfl := Option.some.inj (found.symm.trans found')
  obtain rfl := Option.some.inj (content.symm.trans follows.current)
  obtain ⟨version, sends, nonempty, asks⟩ :=
    diffs_of_plan (planned_of_plan planned) incremental found follows client forward
  refine ⟨follows, ⟨forward, portable, follows.fits⟩, nonempty, asks, ?_, ?_⟩
  · rw [follows.soa_eq (List.getLast?_eq_some_getLast nonempty)]
    exact (portable _ (List.getLast_mem nonempty)).to_owner
  · simp only [answerRecords, incremental, version, sends]
    rfl

/-- Diffs of the zone can be applied to every copy of the generation that they start from. -/
theorem Sendable.apply {origin : Name} {diffs : List ZoneDiff} {copy : Generation} {stop : Serial}
    (h : Sendable origin copy.soa.cls diffs) (nonempty : diffs ≠ [])
    (contiguous : ZoneDiff.isContiguous diffs copy.serial stop)
    (fits : ∀ r ∈ copy.records, Generation.Fits origin copy.soa.cls r) (token : Token) :
    ∃ last, diffs.getLast? = some last ∧ copy.apply token origin diffs = .ok
      ⟨token, last.toSoa, Generation.keepLast (diffs.foldl Generation.change copy.records)⟩ := by
  obtain ⟨older, last, rfl⟩ : ∃ older last, diffs = older ++ [last] :=
    ⟨_, _, (List.dropLast_concat_getLast nonempty).symm⟩
  have portable := h.portable last (by simp)
  refine ⟨last, by simp, Generation.apply_eq_ok_iff.mpr ⟨last, by simp, ?_, h.fits, ?_⟩⟩
  · obtain ⟨first, rfl⟩ := ZoneDiff.isContiguous_concat.mp contiguous
    exact contiguous
  · refine Generation.build_eq_ok_iff.mpr ⟨last.toSoa, rfl, portable.to_owner, ?_, rfl⟩
    rw [portable.cls]
    exact Generation.forall_mem_changes fits h.fits

theorem Sendable.commitDelta {origin : Name} {diffs : List ZoneDiff} {copy : Generation}
    {stop : Serial} {s : ZoneStore} {z : Zone} (h : Sendable origin copy.soa.cls diffs)
    (nonempty : diffs ≠ []) (contiguous : ZoneDiff.isContiguous diffs copy.serial stop)
    (fits : ∀ r ∈ copy.records, Generation.Fits origin copy.soa.cls r)
    (found : s.find? origin = some z) (has_copy : z.current = some copy) :
    ∃ token s' z' last, ZoneStore.commitDelta origin copy.serial diffs s = .ok token s' ∧
      s'.find? origin = some z' ∧ diffs.getLast? = some last ∧ z'.current = some
        ⟨token, last.toSoa, Generation.keepLast (diffs.foldl Generation.change copy.records)⟩ := by
  obtain ⟨last, hl, applied⟩ := h.apply nonempty contiguous fits ⟨s.nextToken⟩
  have committed := (ZoneStore.commitDelta_eq_ok_iff nonempty).mpr
    ⟨z, copy, _, found, has_copy, rfl, applied, rfl, rfl⟩
  have published := ZoneStore.find?_replace (s := { s with nextToken := s.nextToken + 1 })
    (z := ZoneStore.publish s.limits
      { z with history := History.push s.limits.maxDeltas z.history diffs }
      ⟨⟨s.nextToken⟩, last.toSoa,
        Generation.keepLast (diffs.foldl Generation.change copy.records)⟩) found rfl
  exact ⟨_, _, _, last, committed, published, hl, rfl⟩

theorem Sendable.commit {origin : Name} {diffs : List ZoneDiff} {copy latest : Generation}
    {s : ZoneStore} {z : Zone} (h : Sendable origin copy.soa.cls diffs) (nonempty : diffs ≠ [])
    (contiguous : ZoneDiff.isContiguous diffs copy.serial latest.serial)
    (fits : ∀ r ∈ copy.records, Generation.Fits origin copy.soa.cls r)
    (found : s.find? origin = some z) (has_copy : z.current = some copy)
    (soa : ∀ last, diffs.getLast? = some last → latest.soa = last.toSoa) (count : Nat) :
    ∃ token s' z' next, Secondary.commit origin (.delta copy.serial diffs) count s =
        .ok (.committed latest.serial token .ixfr count) s' ∧
      s'.find? origin = some z' ∧ z'.current = some next ∧ next.token = token ∧
      next.soa = latest.soa ∧
      next.records = Generation.keepLast (diffs.foldl Generation.change copy.records) := by
  obtain ⟨token, s', z', last, committed, published, hl, current⟩ :=
    h.commitDelta nonempty contiguous fits found has_copy
  have reached : (Received.delta copy.serial diffs).serial = latest.serial :=
    Received.serial_delta contiguous
  refine ⟨token, s', z', _, ?_, published, current, rfl, (soa last hl).symm, rfl⟩
  rw [← reached]
  exact (bind_of_ok committed).trans rfl

variable {σ ρ : Type} [WriteStream σ] [ReadStream ρ] {Has : σ → Octets → Prop}
  {At : ρ → Octets → Octets → Prop}

/-- A secondary whose records are those that the primary had at a serial, and that asks for the
changes since then, has the records of the primary after an incremental answer. Without the newest
start of authority in front, the answer has to reach the serial that the request expects. -/
theorem ixfr_converges (sink : Sink Has) (source : Source At) (ends : Ends At)
    {past primary : ZoneStore} (reachable : past.Reachable) (request : TransferRequest)
    {old zone : Zone} {g latest : Generation} (known : past.find? request.origin = some old)
    (was : old.current = some g) {diffs : List ZoneDiff}
    (advanced : ZoneStore.Advanced request.origin past diffs primary)
    (forward : ZoneDiff.Forward diffs)
    (portable : ∀ d ∈ diffs, d.Portable request.origin g.soa.cls)
    (found : primary.find? request.origin = some zone) (content : zone.current = some latest)
    (producer : TransferConfig) {p : Primary.AnswerPlan}
    (planned : Primary.plan primary request = .ok p) (incremental : p.negotiation.plan = .ixfr)
    {consumer : TransferConfig} (unlimited : consumer.maxTransferRecords = none)
    (server : Secondary ZoneStore) {mirror : Zone} {copy : Generation}
    (mirrored : server.store.find? request.origin = some mirror)
    (has_copy : mirror.current = some copy) (cls : copy.soa.cls = g.soa.cls)
    (serial : copy.serial = g.serial)
    (same : Generation.SameRecords copy.records g.records)
    (client : request.clientSerial = some copy.serial)
    (aimed : producer.ixfrLeadingSoa = false →
      ∀ target, request.target = some target → ¬ latest.serial.less target)
    (idle : ¬ server.sessions.isActive request.origin) {w : σ} {start : Octets}
    (has : Has w start) :
    ∃ stats w' octets, Primary.serve primary producer request w = .ok stats w' ∧
      Has w' (start ++ octets) ∧
      stats.records = (latest.incrementalAnswer producer diffs).length ∧
      ∀ r before, At r before octets → ∃ token server' r' mirror' next,
        Secondary.transfer consumer request (server, r) =
          .ok (.committed latest.serial token .ixfr stats.records) (server', r') ∧
        server'.store.find? request.origin = some mirror' ∧ mirror'.current = some next ∧
        next.token = token ∧ next.soa = latest.soa ∧
        Generation.SameRecords next.records latest.records := by
  have valid := reachable.valid_current known was
  rw [serial] at client
  obtain ⟨follows, sendable, nonempty, asks, owner, sent⟩ := Primary.sendsChanges reachable known
    was advanced forward portable found content producer planned incremental client
  have copy_sendable : Sendable request.origin copy.soa.cls diffs := by rwa [cls]
  -- The copy may have other letter case and another order, but the same keys.
  have copy_fits : ∀ r ∈ copy.records, Generation.Fits request.origin copy.soa.cls r := by
    intro r hr
    obtain ⟨s, hs, equal⟩ := same.left r hr
    rw [cls]
    exact (valid.fits s hs).of_key (Record.same_iff.mp equal).1.symm
  obtain ⟨stats, w', octets, served, has, count, received⟩ := exchange_eq sink source ends
    unlimited planned sent (sendable.answer nonempty asks follows.contiguous aimed)
    (sendable.room producer) sendable.typed (sendable.ownedBy owner) has
  refine ⟨stats, w', octets, served, has, count, fun r before stands => ?_⟩
  obtain ⟨r', received⟩ := received r before stands
  rw [← serial] at received
  obtain ⟨token, store, mirror', next, committed, published, current, named, soa, records⟩ :=
    copy_sendable.commit nonempty (by rw [serial]; exact follows.contiguous) copy_fits mirrored
      has_copy (fun last hl => follows.soa_eq hl) stats.records
  obtain ⟨sessions, transferred⟩ := Secondary.transfer_eq idle received committed
  refine ⟨token, _, r', mirror', next, transferred, published, current, named, soa, ?_⟩
  rw [records, follows.records]
  exact (same.changes diffs).keepLast (Generation.distinct_changes valid.distinct diffs)

/-- Without the newest start of authority in front, an answer that stops before the serial that the
request expects is refused by every secondary, and nothing is committed. -/
theorem ixfr_stops_short (sink : Sink Has) (source : Source At) (ends : Ends At)
    {past primary : ZoneStore} (reachable : past.Reachable) (request : TransferRequest)
    {old zone : Zone} {g latest : Generation} (known : past.find? request.origin = some old)
    (was : old.current = some g) {diffs : List ZoneDiff}
    (advanced : ZoneStore.Advanced request.origin past diffs primary)
    (forward : ZoneDiff.Forward diffs)
    (portable : ∀ d ∈ diffs, d.Portable request.origin g.soa.cls)
    (found : primary.find? request.origin = some zone) (content : zone.current = some latest)
    (producer : TransferConfig) (bare : producer.ixfrLeadingSoa = false) {p : Primary.AnswerPlan}
    (planned : Primary.plan primary request = .ok p) (incremental : p.negotiation.plan = .ixfr)
    (consumer : TransferConfig) (unlimited : consumer.maxTransferRecords = none)
    (client : request.clientSerial = some g.serial) {target : Serial}
    (expected : request.target = some target) (short : latest.serial.less target)
    (server : Secondary ZoneStore) (idle : ¬ server.sessions.isActive request.origin) {w : σ}
    {start : Octets} (has : Has w start) :
    ∃ stats w' octets, Primary.serve primary producer request w = .ok stats w' ∧
      Has w' (start ++ octets) ∧
      ∀ r before, At r before octets → ∃ sessions r',
        Secondary.transfer consumer request (server, r) =
          .error ⟨request.origin, .consume, .protocol .incomplete⟩
            ({ server with sessions }, r') := by
  obtain ⟨follows, sendable, nonempty, asks, owner, sent⟩ := Primary.sendsChanges reachable known
    was advanced forward portable found content producer planned incremental client
  obtain ⟨a, processed, refused⟩ := sendable.short bare unlimited nonempty asks follows.contiguous
    (sendable.ownedBy owner) expected short
  have assembled := (Assembly.assemble_of_processAll processed).trans refused
  obtain ⟨stats, w', octets, served, has, -, received⟩ := exchange_records sink source ends planned
    sent (latest.incrementalAnswer_eq_cons producer diffs)
    (Assembly.noneBehind_of_processAll processed) (sendable.room producer) sendable.typed has
  refine ⟨stats, w', octets, served, has, fun r before stands => ?_⟩
  obtain ⟨r', received⟩ := received r before stands
  rw [assembled] at received
  obtain ⟨sessions, transferred⟩ := Secondary.transfer_eq_of_receive_error idle received
  exact ⟨sessions, r', transferred⟩

def rootDiff : ZoneDiff where
  fromSoa := rootSoa 9
  toSoa := rootSoa 10
  removed := [rootAddress 1]
  added := [rootAddress 2]

theorem commitDelta_rootDiff :
    ZoneStore.commitDelta .root ⟨9⟩ [rootDiff] rootStore =
      .ok ⟨2⟩ ((Command.commitDelta .root ⟨9⟩ [rootDiff]).run rootStore) := by
  cbv

theorem advanced_rootDiff :
    ZoneStore.Advanced .root rootStore [rootDiff]
      ((Command.commitDelta .root ⟨9⟩ [rootDiff]).run rootStore) :=
  ZoneStore.Advanced.start.commit (Name.same_refl .root) commitDelta_rootDiff

theorem find?_rootDiff :
    ((Command.commitDelta .root ⟨9⟩ [rootDiff]).run rootStore).find? .root = some {
      origin := .root
      current := some (rootGeneration 2 10 2)
      retained := [rootGeneration 1 9 1]
      history := [rootDiff] } := by
  cbv

theorem forward_rootDiff : ZoneDiff.Forward [rootDiff] := ⟨by decide, by decide⟩

theorem portable_rootDiff : ∀ d ∈ [rootDiff], d.Portable .root (rootSoa 9).cls := by
  intro d hd
  obtain rfl := List.mem_singleton.mp hd
  exact ⟨by decide, by decide, rfl, by decide, by decide, by decide⟩

/-- One diff from serial 9 to serial 10, without the newest start of authority in front. -/
theorem ixfr_converges_root :
    let primary : ZoneStore := (Command.commitDelta .root ⟨9⟩ [rootDiff]).run rootStore
    let latest := rootGeneration 2 10 2
    let request : TransferRequest := .ixfr 7 .root (rootSoa 9).record
    ∃ stats w' octets, Primary.serve primary {} request ({} : MemoryWriter) = .ok stats w' ∧
      w'.Holds octets ∧ stats.records = 5 ∧
      ∀ (r : MemoryReader) before, r.Stands before octets → ∃ token server' r' mirror' next,
        Secondary.transfer {} request ({ store := rootStore }, r) =
          .ok (.committed ⟨10⟩ token .ixfr stats.records) (server', r') ∧
        server'.store.find? .root = some mirror' ∧ mirror'.current = some next ∧
        next.token = token ∧ next.soa = latest.soa ∧
        Generation.SameRecords next.records latest.records :=
  ixfr_converges MemoryWriter.sink MemoryReader.source MemoryReader.ends reachable_rootStore
    (.ixfr 7 .root (rootSoa 9).record) find?_rootStore rfl advanced_rootDiff forward_rootDiff
    portable_rootDiff find?_rootDiff rfl {}
    (p := ⟨⟨⟨2⟩, rootSoa 10⟩, ⟨.ixfr, none⟩, [rootDiff]⟩) (by cbv) rfl rfl
    { store := rootStore } find?_rootStore rfl rfl rfl (Generation.SameRecords.refl _) rfl
    (fun _ target known => by simp [TransferRequest.ixfr] at known) (by decide)
    (⟨rfl, rfl⟩ : MemoryWriter.Holds {} [])

/-- The same answer is refused if the request expects serial 11: it stops at serial 10. -/
theorem ixfr_short_of_target :
    let primary : ZoneStore := (Command.commitDelta .root ⟨9⟩ [rootDiff]).run rootStore
    let request : TransferRequest :=
      { TransferRequest.ixfr 7 .root (rootSoa 9).record with target := some ⟨11⟩ }
    let server : Secondary ZoneStore := { store := rootStore }
    rootStore.Reachable ∧ ZoneStore.Advanced .root rootStore [rootDiff] primary ∧
      ZoneDiff.Forward [rootDiff] ∧ (∀ d ∈ [rootDiff], d.Portable .root (rootSoa 9).cls) ∧
      (∃ p, Primary.plan primary request = .ok p ∧ p.negotiation.plan = .ixfr) ∧
      ∃ stats w', Primary.serve primary {} request ({} : MemoryWriter) = .ok stats w' ∧
        ∃ sessions r', Secondary.transfer {} request (server, MemoryReader.ofOctets w'.content) =
          .error ⟨.root, .consume, .protocol .incomplete⟩ ({ server with sessions }, r') := by
  intro primary request server
  refine ⟨reachable_rootStore, advanced_rootDiff, forward_rootDiff, portable_rootDiff,
    ⟨_, rfl, rfl⟩, ?_⟩
  obtain ⟨stats, w', octets, served, ⟨-, rfl⟩, refused⟩ := ixfr_stops_short MemoryWriter.sink
    MemoryReader.source MemoryReader.ends reachable_rootStore request find?_rootStore rfl
    advanced_rootDiff forward_rootDiff portable_rootDiff find?_rootDiff rfl {} rfl
    (p := ⟨⟨⟨2⟩, rootSoa 10⟩, ⟨.ixfr, none⟩, [rootDiff]⟩) (by cbv) rfl {} rfl rfl rfl (by decide)
    server (by decide) (⟨rfl, rfl⟩ : MemoryWriter.Holds {} [])
  exact ⟨stats, w', served, refused _ [] (MemoryReader.stands_ofOctets w'.content)⟩

end ZoneSync
