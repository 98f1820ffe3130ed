import ZoneSync.Proofs.Message.Filling
import ZoneSync.Proofs.Message.Reading
import ZoneSync.Proofs.Transfer.Exchange

/-!
Requests on the wire. A message asks a request by its header, its single question and the first
start of authority of the zone in its authority section; whatever else it holds does not count.
A composed request asks itself, so it is parsed back, and so is a request that was parsed from
any message.
-/

namespace ZoneSync

theorem Record.exists_soaRecord {r : Record} (h : r.soa?.isSome) :
    ∃ s : SoaRecord, s.record = r := by
  obtain ⟨owner, cls, ttl, data⟩ := r
  cases data with
  | soa soa => exact ⟨⟨owner, cls, ttl, soa⟩, rfl⟩
  | a | aaaa | ns | cname | ptr | mx | unknown => cases h

theorem TransferType.ofRecordType?_eq_some {type : TransferType} {t : RecordType} :
    ofRecordType? t = some type ↔ t = type.recordType := by
  constructor
  · intro h
    rw [ofRecordType?] at h
    split at h
    · obtain rfl := Option.some.inj h
      assumption
    · split at h
      · obtain rfl := Option.some.inj h
        assumption
      · cases h
  · rintro rfl
    cases type <;> rfl

namespace TransferRequest

/-- The version that the client has, where it tells one, is a version of the zone. -/
def OwnsSoa (r : TransferRequest) : Prop :=
  ∀ soa ∈ r.clientSoa, soa.soa?.isSome ∧ soa.owner.same r.origin

/-- The request is incremental and does not tell the version that the client has. -/
def lacksSoa (r : TransferRequest) : Bool := r.type = .ixfr && r.clientSoa.isNone

/-- A message is a query for the zone, and this is the version of it that the message tells. -/
structure Asks (r : TransferRequest) (d : Dissection) : Prop where
  isQuery : d.header.isResponse = false
  opcode : d.header.opcode = .query
  id : d.header.id = r.id
  questions : d.questions = [r.question]
  clientSoa : findClientSoa r.origin d.entries = r.clientSoa

variable {r : TransferRequest} {d : Dissection} {message : Octets}

theorem parse_of_asks (h : d.Of message) (asks : Asks r d) :
    parse message =
      if r.lacksSoa then .error .missingClientSoa else .ok { r with target := none } := by
  obtain ⟨reader, reader', opened, header, asked, whole⟩ := h.read
  have same := MessageReader.header_of_questions asked
  have type : TransferType.ofRecordType? r.type.recordType = some r.type :=
    TransferType.ofRecordType?_eq_some.mpr rfl
  rw [asks.questions] at asked
  have isQuery : (d.header.isResponse || d.header.opcode ≠ .query) = false := by
    simp [asks.isQuery, asks.opcode]
  simp only [parse, opened, header, isQuery, asked, question, type, whole, asks.clientSoa, same,
    asks.id, Bool.false_eq_true, if_false]
  rfl

theorem parse_eq_ok_iff : parse message = .ok r ↔
    r.target = none ∧ r.lacksSoa = false ∧ ∃ d : Dissection, d.Of message ∧ Asks r d := by
  constructor
  · -- one split for each thing that the parser looks at, in its order
    intro h
    rw [parse] at h
    split at h
    · cases h
    · rename_i reader opened
      split at h
      · cases h
      · rename_i header
        split at h
        · cases h
        · rename_i q reader' asked
          split at h
          · cases h
          · rename_i type typed
            split at h
            · cases h
            · rename_i entries whole
              dsimp only at h
              split at h
              · cases h
              · rename_i has_soa
                obtain rfl := Except.ok.inj h
                obtain ⟨d, of, same, questions, rfl⟩ := Dissection.exists_of opened asked whole
                refine ⟨rfl, Bool.eq_false_iff.mpr has_soa, d, of, ?_⟩
                rw [← same] at header
                have isQuery : d.header.isResponse = false ∧ d.header.opcode = .query := by
                  simpa using header
                have id := MessageReader.header_of_questions asked
                have typed := TransferType.ofRecordType?_eq_some.mp typed
                refine ⟨isQuery.1, isQuery.2, by rw [id, same], ?_, rfl⟩
                rw [questions, question, ← typed]
        · cases h
  · rintro ⟨target, has_soa, d, of, asks⟩
    rw [parse_of_asks of asks, has_soa, ← target]
    rfl

theorem findClientSoa_append (origin : Name) (entries later : List (Section × Record)) :
    findClientSoa origin (entries ++ later) =
      (findClientSoa origin entries).or (findClientSoa origin later) := by
  rw [findClientSoa, List.find?_append, Option.map_or]
  rfl

theorem findClientSoa_tag (origin : Name) (s : Section) (records : List Record) :
    findClientSoa origin (records.map (s, ·)) =
      if s = .authority then records.find? fun r => r.type = .soa && r.owner.same origin
      else none := by
  rw [findClientSoa, List.find?_map]
  cases s <;> simp [Function.comp_def]

/-- The version that a message tells is the first one among its authority records. -/
theorem findClientSoa_entries (origin : Name) (d : Dissection) :
    findClientSoa origin d.entries =
      d.authorities.find? fun r => r.type = .soa && r.owner.same origin := by
  simp [Dissection.entries, findClientSoa_append, findClientSoa_tag]

/-- What a message tells as the version of the client is one: it was read as data of its type. -/
theorem Asks.ownsSoa (of : d.Of message) (asks : Asks r d) : r.OwnsSoa := by
  intro soa told
  rw [← asks.clientSoa, findClientSoa_entries] at told
  have known : soa ∈ d.records := by
    rw [Dissection.records]
    exact List.mem_append_right _ (List.mem_append_left _ (List.mem_of_find?_eq_some told))
  have chosen := List.find?_some told
  rw [Bool.and_eq_true, decide_eq_true_eq] at chosen
  exact ⟨Record.isSome_soa?_iff.mpr ⟨chosen.1, of.wellTyped soa known⟩, chosen.2⟩

/-- The message that a request is composed into. -/
def dissection (r : TransferRequest) : Dissection where
  header := ({ id := r.id } : Header).withOpcode .query
  questions := [r.question]
  answers := []
  authorities := r.clientSoa.toList
  additionals := []

theorem asks_dissection (owns : r.OwnsSoa) : Asks r r.dissection where
  isQuery := rfl
  opcode := rfl
  id := rfl
  questions := rfl
  clientSoa := by
    rw [findClientSoa_entries, dissection]
    cases told : r.clientSoa with
    | none => rfl
    | some soa =>
        obtain ⟨isSoa, owned⟩ := owns soa told
        simp [(Record.isSome_soa?_iff.mp isSoa).1, owned]

/-- A question and a start of authority leave room in a message, so a request is composed. -/
theorem exists_compose (owns : r.OwnsSoa) :
    ∃ b : MessageBuilder, r.compose = .ok b.finish ∧ b.header = r.dissection.header ∧
      b.Contains { questions := [r.question], authorities := r.clientSoa.toList } := by
  obtain ⟨b, asked, short⟩ := MessageBuilder.exists_push_question r.dissection.header r.question
  have contains := (MessageBuilder.contains_new r.dissection.header).push_question asked
  obtain ⟨-, -, -, new⟩ := MessageBuilder.push_eq_ok_iff.mp asked
  have header : b.header = r.dissection.header := by rw [new]
  have opened : ({ header := ({ id := r.id } : Header).withOpcode .query } :
      MessageBuilder).pushQuestion r.question = .ok b := asked
  cases told : r.clientSoa with
  | none =>
      refine ⟨b, ?_, header, contains⟩
      simp only [compose, opened, told]
      rfl
  | some soa =>
      obtain ⟨start, rfl⟩ := Record.exists_soaRecord (owns soa told).1
      have turn : b.current.index ≤ Section.authority.index := by
        rw [new]
        exact Nat.zero_le _
      have room : b.length + start.record.length ≤ maxMessageLength := by
        have question := r.question.length_wire_le
        have record := start.length_record_le
        simp only [preambleLength, maxMessageLength] at short ⊢
        omega
      obtain ⟨b', pushed⟩ := contains.exists_push_authority turn room
      have longer := contains.push_authority pushed
      obtain ⟨-, -, -, new'⟩ := MessageBuilder.push_eq_ok_iff.mp pushed
      refine ⟨b', ?_, by rw [new', ← header], longer⟩
      simp only [compose, opened, told]
      exact congrArg (· >>= fun b : MessageBuilder => pure b.finish) pushed

theorem parse_composed {b : MessageBuilder} (owns : r.OwnsSoa)
    (header : b.header = r.dissection.header)
    (contains : b.Contains { questions := [r.question], authorities := r.clientSoa.toList }) :
    parse b.finish =
      if r.lacksSoa then .error .missingClientSoa else .ok { r with target := none } := by
  have typed : ∀ soa ∈ r.clientSoa.toList, soa.WellTyped := by
    intro soa told
    exact (Record.isSome_soa?_iff.mp (owns soa (Option.mem_toList.mp told)).1).2
  have of := contains.dissection typed
  rw [header] at of
  exact parse_of_asks of (asks_dissection owns)

/-- Requests survive the wire, but for the serial that they are to reach, which is not in a
message, and incremental requests that do not tell a version, which are refused. A request that
was parsed from any message, however that was written, survives unchanged. -/
theorem compose_parse_inverse :
    (∀ r : TransferRequest, r.OwnsSoa → ∃ message, r.compose = .ok message ∧
      parse message =
        if r.lacksSoa then .error .missingClientSoa else .ok { r with target := none }) ∧
    ∀ (message : Octets) (r : TransferRequest), parse message = .ok r →
      ∃ composed, r.compose = .ok composed ∧ parse composed = .ok r := by
  have carried {r : TransferRequest} (owns : r.OwnsSoa) :
      ∃ message, r.compose = .ok message ∧ parse message =
        if r.lacksSoa then .error .missingClientSoa else .ok { r with target := none } := by
    obtain ⟨b, composed, header, contains⟩ := exists_compose owns
    exact ⟨b.finish, composed, parse_composed owns header contains⟩
  refine ⟨fun r owns => carried owns, ?_⟩
  intro message r parsed
  obtain ⟨target, has_soa, d, of, asks⟩ := parse_eq_ok_iff.mp parsed
  obtain ⟨composed, done, again⟩ := carried (asks.ownsSoa of)
  refine ⟨composed, done, ?_⟩
  rw [again, has_soa, ← target]
  rfl

/-- The version told by the message below: its owner is in capitals. -/
def capital : Record where
  owner := .ofOctet 0x41
  cls := .internet
  ttl := 0
  data := .soa ⟨.root, .root, ⟨8⟩, 0, 0, 0, 0⟩

def small : TransferRequest := .ixfr 7 (.ofOctet 0x61) capital

/-- A message that asks the request with a second start of authority and an address behind it,
both at a pointer. -/
def smallMessage : Octets :=
  [0, 7, 0, 0, 0, 1, 0, 0, 0, 2, 0, 1,
    1, 0x61, 0, 0, 251, 0, 1,
    1, 0x41, 0, 0, 6, 0, 1, 0, 0, 0, 0, 0, 22, 0, 0,
      0, 0, 0, 8, 0, 0, 0, 0, 0, 0, 0, 0, 0, 0, 0, 0, 0, 0, 0, 0,
    0xc0, 12, 0, 6, 0, 1, 0, 0, 0, 0, 0, 22, 0, 0,
      0, 0, 0, 9, 0, 0, 0, 0, 0, 0, 0, 0, 0, 0, 0, 0, 0, 0, 0, 0,
    0xc0, 12, 0, 1, 0, 1, 0, 0, 0, 60, 0, 4, 192, 0, 2, 1]

theorem small_carried :
    small.OwnsSoa ∧ parse smallMessage = .ok small ∧
      (∃ message, small.compose = .ok message ∧ parse message = .ok small) ∧
      ∃ composed, small.compose = .ok composed ∧ parse composed = .ok small := by
  have owns : small.OwnsSoa := by
    intro soa told
    obtain rfl := Option.some.inj told
    decide
  have parsed : parse smallMessage = .ok small := by decide +kernel
  obtain ⟨message, composed, again⟩ := compose_parse_inverse.1 small owns
  exact ⟨owns, parsed, ⟨message, composed, again⟩, compose_parse_inverse.2 _ _ parsed⟩

end TransferRequest
end ZoneSync
