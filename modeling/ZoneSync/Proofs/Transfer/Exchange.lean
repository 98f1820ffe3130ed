import ZoneSync.Proofs.Name.Equality
import ZoneSync.Proofs.Transfer.Reception
import ZoneSync.Transfer.Primary

/-!
An answer on its way from the primary to the secondary: what is sent for a plan, and that the
secondary receives the same records.
-/

namespace ZoneSync

theorem Soa.length_wire_le (s : Soa) : s.wire.length ≤ 530 := by
  have first := s.mname.length_le
  have second := s.rname.length_le
  simp only [wire, Name.wire, List.length_append, Octets.length_ofUInt32]
  omega

theorem SoaRecord.length_record_le (soa : SoaRecord) : soa.record.length ≤ 795 := by
  have owner := soa.owner.length_le
  have data := soa.soa.length_wire_le
  have size := RecordData.length_wire (.soa soa.soa)
  simp only [RecordData.wire] at size
  simp only [record, Record.length, Name.length, Name.wire]
  omega

theorem SoaRecord.has_room (soa : SoaRecord) :
    preambleLength + soa.record.length ≤ maxMessageLength := by
  have record := soa.length_record_le
  simp only [preambleLength, maxMessageLength]
  omega

theorem Question.length_wire_le (q : Question) : q.wire.length ≤ 259 := by
  have name := q.name.length_le
  simp only [wire, wireBehind, Name.wire, List.length_append, Octets.length_ofUInt16]
  omega

theorem expects_answerHeader (request : TransferRequest) :
    Secondary.Expects request (Primary.answerHeader request) request.question where
  header := by
    simp [Secondary.checkHeader, Primary.answerHeader, Header.withOpcode, Header.opcode,
      Header.responseCode, Header.lowBits]
    rfl
  question := by simp [Secondary.isAsked, TransferRequest.question, Name.same_refl]

namespace Primary

variable {τ σ : Type} [ZoneStorage τ] [WriteStream σ] {Has : σ → Octets → Prop}

/-- An answer that starts with a start of authority is sent whole, in messages of its records. -/
theorem serve_eq (sink : Sink Has) {store : τ} {config : TransferConfig}
    {request : TransferRequest} {p : AnswerPlan} {soa : SoaRecord} {later : List Record} {w : σ}
    {start : Octets} (planned : plan store request = .ok p)
    (sent : answerRecords store config request.origin p = .ok (soa.record :: later))
    (room : ∀ r ∈ later, preambleLength + r.length ≤ maxMessageLength) (has : Has w start) :
    ∃ w' batches, serve store config request w =
        .ok ⟨p.negotiation.plan, p.version.serial, batches.length, later.length + 1,
          (batches.flatMap Batch.wire).length⟩ w' ∧
      Has w' (start ++ batches.flatMap (Batch.wire : Batch (answerHeader request) → Octets)) ∧
      Splitting request.question config.maxMessageSize config.maxRecordsPerMessage
        (soa.record :: later) batches := by
  have first_room : MessageBuilder.HasRoom (some request.question) soa.record := by
    have question := request.question.length_wire_le
    have record := soa.length_record_le
    simp only [MessageBuilder.hasRoom_some, preambleLength, maxMessageLength]
    omega
  obtain ⟨w', batches, done, has, splitting⟩ := Outbox.answer_eq config.maxMessageSize
    config.maxRecordsPerMessage sink has first_room (by simpa using room)
  refine ⟨w', batches, ?_, has, splitting⟩
  simp only [serve, sendAnswer]
  simp only [planned, sent, done]
  rfl

end Primary

variable {τ σ ρ : Type} [ZoneStorage τ] [WriteStream σ] [ReadStream ρ] {Has : σ → Octets → Prop}
  {At : ρ → Octets → Octets → Prop}

/-- The records of an answer are sent, and exactly the octets sent are received as what the assembly
makes of the records. -/
theorem exchange_records (sink : Sink Has) (source : Source At) (ends : Ends At) {store : τ}
    {producer consumer : TransferConfig} {request : TransferRequest} {p : Primary.AnswerPlan}
    {records : List Record} {w : σ} {start : Octets}
    (planned : Primary.plan store request = .ok p)
    (sent : Primary.answerRecords store producer request.origin p = .ok records)
    (opens : ∃ (soa : SoaRecord) (later : List Record), records = soa.record :: later)
    (none_behind : Assembly.NoneBehind records
      { expectation := Secondary.expectation consumer request })
    (room : ∀ r ∈ records, preambleLength + r.length ≤ maxMessageLength)
    (typed : ∀ r ∈ records, r.WellTyped) (has : Has w start) :
    ∃ stats w' octets, Primary.serve store producer request w = .ok stats w' ∧
      Has w' (start ++ octets) ∧ stats.records = records.length ∧
      ∀ r before, At r before octets → ∃ r', Secondary.receive consumer request r =
        match Assembly.assemble (Secondary.expectation consumer request) records with
        | .ok received => .ok (received, stats.records) r'
        | .error v => .error (.protocol v) r' := by
  obtain ⟨soa, later, rfl⟩ := opens
  obtain ⟨w', batches, served, has, splitting⟩ :=
    Primary.serve_eq sink planned sent (List.forall_mem_cons.mp room).2 has
  refine ⟨_, w', _, served, has, rfl, fun r before stands => ?_⟩
  exact Secondary.receive_splitting source ends (expects_answerHeader request) splitting typed
    none_behind stands

/-- An answer is sent, and exactly the octets sent are received as what the answer means. -/
theorem exchange_eq (sink : Sink Has) (source : Source At) (ends : Ends At) {store : τ}
    {producer consumer : TransferConfig} {request : TransferRequest} {p : Primary.AnswerPlan}
    {records : List Record} {received : Received} {w : σ} {start : Octets}
    (unlimited : consumer.maxTransferRecords = none)
    (planned : Primary.plan store request = .ok p)
    (sent : Primary.answerRecords store producer request.origin p = .ok records)
    (answer : Answer (Secondary.expectation consumer request) records received)
    (room : ∀ r ∈ records, preambleLength + r.length ≤ maxMessageLength)
    (typed : ∀ r ∈ records, r.WellTyped) (owned : OwnedBy request.origin records)
    (has : Has w start) :
    ∃ stats w' octets, Primary.serve store producer request w = .ok stats w' ∧
      Has w' (start ++ octets) ∧ stats.records = records.length ∧
      ∀ r before, At r before octets → ∃ r',
        Secondary.receive consumer request r = .ok (received, stats.records) r' := by
  have assembled := Assembly.assemble_of_answer unlimited answer owned
  obtain ⟨stats, w', octets, served, has, count, receives⟩ := exchange_records sink source ends
    planned sent answer.eq_cons (Assembly.noneBehind_of_assemble assembled) room typed has
  refine ⟨stats, w', octets, served, has, count, fun r before stands => ?_⟩
  obtain ⟨r', receives⟩ := receives r before stands
  exact ⟨r', by rw [receives, assembled]⟩

end ZoneSync
