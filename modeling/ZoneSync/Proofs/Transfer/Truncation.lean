import ZoneSync.Proofs.Transfer.Incremental

/-!
Answers that end too early. Of an incremental answer that begins with the newest start of
authority no part is an answer, but for that first record alone, which is a zone without other
records. An answer without it may stop behind each of its diffs, and has to reach the serial that
the primary is known to have.
-/

namespace ZoneSync

/-- Plain records reach as far as the first start of authority. -/
theorem plain_append_inj {block other rest more : List Record} {soa found : SoaRecord}
    (hb : Plain block) (ho : Plain other)
    (h : block ++ soa.record :: rest = other ++ found.record :: more) :
    block = other ∧ soa = found ∧ rest = more := by
  induction block generalizing other with
  | nil =>
      cases other with
      | nil =>
          obtain ⟨same, rfl⟩ := List.cons.inj h
          exact ⟨rfl, SoaRecord.record_inj.mp same, rfl⟩
      | cons r other =>
          obtain ⟨rfl, -⟩ := List.cons.inj h
          have plain := ho soa.record (by simp)
          simp at plain
  | cons r block ih =>
      cases other with
      | nil =>
          obtain ⟨rfl, -⟩ := List.cons.inj h
          have plain := hb found.record (by simp)
          simp at plain
      | cons s other =>
          rw [List.cons_append, List.cons_append, List.cons.injEq] at h
          obtain ⟨rfl, h⟩ := h
          obtain ⟨-, block_plain⟩ := List.forall_mem_cons.mp hb
          obtain ⟨-, other_plain⟩ := List.forall_mem_cons.mp ho
          obtain ⟨rfl, same, behind⟩ := ih block_plain other_plain h
          exact ⟨rfl, same, behind⟩

def ZoneDiff.HasPlainChanges (d : ZoneDiff) : Prop := Plain d.removed ∧ Plain d.added

theorem ZoneDiff.Sendable.plain {d : ZoneDiff} (h : d.Sendable) : d.HasPlainChanges :=
  ⟨h.removed, h.added⟩

/-- The first diff is told from the records behind it. -/
theorem diffRecords_append_inj {d d' : ZoneDiff} (hd : d.HasPlainChanges)
    (hd' : d'.HasPlainChanges) {soa found : SoaRecord} {rest more : List Record}
    (h : Primary.diffRecords d ++ soa.record :: rest =
      Primary.diffRecords d' ++ found.record :: more) :
    d = d' ∧ soa.record :: rest = found.record :: more := by
  simp only [Primary.diffRecords, List.cons_append, List.append_assoc, List.cons.injEq] at h
  obtain ⟨from_soa, h⟩ := h
  obtain ⟨removed, to_soa, h⟩ := plain_append_inj hd.1 hd'.1 h
  obtain ⟨added, same, behind⟩ := plain_append_inj hd.2 hd'.2 h
  obtain ⟨oldest, newest, gone, new⟩ := d
  obtain ⟨oldest', newest', gone', new'⟩ := d'
  rw [SoaRecord.record_inj] at from_soa
  dsimp only at from_soa removed to_soa added
  subst from_soa removed to_soa added same behind
  exact ⟨rfl, rfl⟩

/-- A part of the records of a chain that ends as a chain does is made of the first of its diffs. -/
theorem prefix_of_diffRecords {part diffs : List ZoneDiff}
    (part_plain : ∀ d ∈ part, d.HasPlainChanges) (plain : ∀ d ∈ diffs, d.HasPlainChanges)
    {stop last : SoaRecord}
    (h : part.flatMap Primary.diffRecords ++ [stop.record] <+:
      diffs.flatMap Primary.diffRecords ++ [last.record]) : part <+: diffs := by
  induction part generalizing diffs with
  | nil => exact List.nil_prefix
  | cons d part ih =>
      cases diffs with
      | nil =>
          have longer := h.length_le
          simp only [List.flatMap_cons, List.flatMap_nil, Primary.diffRecords, List.length_append,
            List.length_cons, List.length_nil] at longer
          omega
      | cons d' diffs =>
          obtain ⟨hd, part_later⟩ := List.forall_mem_cons.mp part_plain
          obtain ⟨hd', later⟩ := List.forall_mem_cons.mp plain
          obtain ⟨rest, h⟩ := h
          simp only [List.flatMap_cons, List.append_assoc, List.singleton_append] at h
          obtain ⟨soa, behind, shape⟩ := exists_soa_cons part stop rest
          obtain ⟨found, behind', shape'⟩ := exists_soa_cons diffs last []
          rw [shape, shape'] at h
          obtain ⟨rfl, same⟩ := diffRecords_append_inj hd hd' h
          rw [← shape, ← shape'] at same
          have shorter := ih part_later later ⟨rest, by simpa using same⟩
          exact (List.prefix_cons_inj d).mpr shorter

/-- Diffs that can stand between two copies of the start of authority they lead to. -/
structure Framable (old : Serial) (first : SoaRecord) (diffs : List ZoneDiff) : Prop where
  other : first.serial ≠ old
  plain : ∀ d ∈ diffs, d.HasPlainChanges
  contiguous : ZoneDiff.isContiguous diffs old first.serial
  early : ∀ d ∈ diffs.dropLast, d.toSerial ≠ first.serial

namespace Framable

variable {old : Serial} {first last : SoaRecord} {diffs : List ZoneDiff} {e : Expectation}

/-- No chain leads to the newest serial with only some of the diffs. -/
theorem eq_of_prefix (h : Framable old first diffs) {part : List ZoneDiff} (inside : part <+: diffs)
    (nonempty : part ≠ []) (contiguous : ZoneDiff.isContiguous part old first.serial) :
    part = diffs := by
  obtain ⟨rest, rfl⟩ := inside
  by_cases whole : rest = []
  · rw [whole, List.append_nil]
  · exfalso
    obtain ⟨older, d, rfl⟩ : ∃ older d, part = older ++ [d] :=
      ⟨_, _, (List.dropLast_concat_getLast nonempty).symm⟩
    have reached : d.toSerial = first.serial := (ZoneDiff.isContiguous_concat.mp contiguous).2
    apply h.early d
    · rw [List.dropLast_append_of_ne_nil whole]
      simp
    · exact reached

/-- Behind the newest start of authority comes that of the client. -/
theorem eq_cons (h : Framable old first diffs) (last : SoaRecord) :
    ∃ (soa : SoaRecord) (later : List Record),
      diffs.flatMap Primary.diffRecords ++ [last.record] = soa.record :: later ∧
        soa.serial = old := by
  have contiguous := h.contiguous
  cases diffs with
  | nil => exact absurd (by simpa [ZoneDiff.isContiguous, eq_comm] using contiguous) h.other
  | cons d later => exact ⟨d.fromSoa, _, rfl, (ZoneDiff.isContiguous_cons.mp contiguous).1⟩

/-- A part of two records or more is not an answer. -/
theorem not_answer (h : Framable old first diffs) (start : e.deltaStart = some old)
    {cut : List Record} {result : Received}
    (part : cut <+: first.record :: (diffs.flatMap Primary.diffRecords ++ [last.record]))
    (strict : cut ≠ first.record :: (diffs.flatMap Primary.diffRecords ++ [last.record]))
    (more : cut.length ≠ 1) : ¬ Answer e cut result := by
  intro answer
  obtain ⟨client, later, shape, oldest⟩ := h.eq_cons last
  cases answer with
  | @full soa body closing _ plain closing_serial =>
      rw [List.cons_append, List.cons_prefix_cons, SoaRecord.record_inj, shape] at part
      obtain ⟨rfl, part⟩ := part
      cases body with
      | nil =>
          cases closing with
          | none => exact more rfl
          | some again =>
              obtain ⟨same, -⟩ := List.cons_prefix_cons.mp part
              rw [SoaRecord.record_inj] at same
              apply h.other
              rw [← oldest, ← same, closing_serial again rfl]
      | cons r body =>
          obtain ⟨rfl, -⟩ := List.cons_prefix_cons.mp part
          have other := plain client.record (by simp)
          simp at other
  | upToDate => exact more rfl
  | @chain old' diffs' _ start' nonempty _ contiguous =>
      obtain rfl : old' = old := Option.some.inj (start'.symm.trans start)
      obtain ⟨d, later, rfl⟩ := List.exists_cons_of_ne_nil nonempty
      obtain ⟨same, -⟩ := List.cons_prefix_cons.mp part
      rw [SoaRecord.record_inj] at same
      apply h.other
      rw [← same]
      exact (ZoneDiff.isContiguous_cons.mp contiguous).1
  | @framed old' diffs' first' last' start' _ nonempty sendable contiguous =>
      obtain rfl : old' = old := Option.some.inj (start'.symm.trans start)
      rw [List.cons_append, List.cons_prefix_cons, SoaRecord.record_inj] at part
      obtain ⟨rfl, part⟩ := part
      have inside := prefix_of_diffRecords (fun d hd => (sendable d hd).plain) h.plain part
      obtain rfl := h.eq_of_prefix inside nonempty contiguous
      apply strict
      rw [List.cons_append, part.eq_of_length (by simp)]

end Framable

/-- The response to a request with the given records in one message. -/
def responseOf (request : TransferRequest) (records : List Record) : Octets :=
  match records.foldlM MessageBuilder.pushAnswer { header := Primary.answerHeader request } with
  | .ok b => b.finish
  | .error _ => []

/-- A reader in front of messages in their frames. -/
def readerOf (messages : List Octets) : MemoryReader :=
  { data := (messages.flatMap Framing.frame).toArray }

def MemoryReader.atEnd (r : MemoryReader) : MemoryReader := { r with position := r.data.size }

theorem stands_readerOf (messages : List Octets) :
    (readerOf messages).Stands [] (messages.flatMap Framing.frame) := ⟨rfl, rfl, rfl⟩

def rootRequest : TransferRequest := .ixfr 7 .root (rootSoa 9).record

def aimedRequest : TransferRequest := { rootRequest with target := some ⟨10⟩ }

theorem framable_rootDiff : Framable ⟨9⟩ (rootSoa 10) [rootDiff] where
  other := by decide
  plain := by
    intro d hd
    obtain rfl := List.mem_singleton.mp hd
    exact ⟨by decide, by decide⟩
  contiguous := by decide
  early := by decide

namespace Secondary

variable {τ σ : Type} [ZoneStorage τ] [ReadStream σ] {At : σ → Octets → Octets → Prop}
  {old : Serial}

theorem deltaStart_eq {request : TransferRequest} (ixfr : request.type = .ixfr)
    (client : request.clientSerial = some old) (config : TransferConfig) :
    (expectation config request).deltaStart = some old := by
  rw [deltaStart_expectation, Primary.askedSerial, if_pos ixfr, client]

/-- An incremental answer that begins with the newest start of authority and is cut behind two
records or more, or before the first, is refused. However it was cut into messages, a transfer of
it fails and leaves the store as it was. -/
theorem ixfr_cut_refused (source : Source At) (ends : Ends At) (request : TransferRequest)
    (ixfr : request.type = .ixfr) (client : request.clientSerial = some old)
    {first last : SoaRecord} {diffs : List ZoneDiff} (framable : Framable old first diffs)
    {cut : List Record}
    (part : cut <+: first.record :: (diffs.flatMap Primary.diffRecords ++ [last.record]))
    (strict : cut ≠ first.record :: (diffs.flatMap Primary.diffRecords ++ [last.record]))
    (more : cut.length ≠ 1) (config : TransferConfig) :
    (∃ why, Assembly.assemble (expectation config request) cut = .error why) ∧
      ∀ (server : Secondary τ) (messages : List Octets) s before,
        (∀ m ∈ messages, m.length ≤ 65535) → messages.flatMap answersOf = cut →
        At s before (messages.flatMap Framing.frame) →
        ∃ e server' s', transfer config request (server, s) = .error e (server', s') ∧
          server'.store = server.store := by
  have start := deltaStart_eq ixfr client config
  constructor
  · cases assembled : Assembly.assemble (expectation config request) cut with
    | error why => exact ⟨why, rfl⟩
    | ok result =>
        have answer := (Assembly.answer_of_assemble assembled).1
        exact absurd answer (framable.not_answer start part strict more)
  · intro server messages s before sizes carried stands
    apply transfer_eq_error
    rintro ⟨received, count⟩ s' receives
    obtain ⟨taken, inside, assembled, whole⟩ :=
      assemble_of_receive source ends sizes stands receives
    rw [carried] at inside whole
    have answer := (Assembly.answer_of_assemble assembled).1
    refine framable.not_answer start (inside.trans part) ?_ ?_ answer
    · intro complete
      apply strict
      rw [complete] at inside
      exact part.eq_of_length (Nat.le_antisymm part.length_le inside.length_le)
    · cases whole with
      | inl same => rwa [same]
      | inr many => omega

/-- The answer is cut behind the client's start of authority. -/
theorem ixfr_cut_refused_root :
    let cut := [(rootSoa 10).record, (rootSoa 9).record]
    let server : Secondary ZoneStore := { store := rootStore }
    (∃ why, Assembly.assemble (expectation {} rootRequest) cut = .error why) ∧
      ∃ e server' r', transfer {} rootRequest (server, readerOf [responseOf rootRequest cut]) =
          .error e (server', r') ∧
        server'.store = server.store := by
  have part : [(rootSoa 10).record, (rootSoa 9).record] <+:
      (rootSoa 10).record :: ([rootDiff].flatMap Primary.diffRecords ++ [(rootSoa 10).record]) :=
    ⟨_, rfl⟩
  obtain ⟨refused, unchanged⟩ := ixfr_cut_refused (τ := ZoneStore) MemoryReader.source
    MemoryReader.ends rootRequest rfl rfl framable_rootDiff part (by decide) (by decide) {}
  refine ⟨refused, ?_⟩
  exact unchanged { store := rootStore } [responseOf rootRequest _] _ [] (by cbv; decide) (by cbv)
    (stands_readerOf _)

/-- The newest start of authority alone is a zone without other records, and is committed. -/
theorem first_record_accepted :
    let answer :=
      (rootSoa 10).record :: ([rootDiff].flatMap Primary.diffRecords ++ [(rootSoa 10).record])
    let cut := [(rootSoa 10).record]
    let reader := readerOf [responseOf rootRequest cut]
    Assembly.assemble (expectation {} rootRequest) answer = .ok (.delta ⟨9⟩ [rootDiff]) ∧
      Framable ⟨9⟩ (rootSoa 10) [rootDiff] ∧ cut <+: answer ∧ cut ≠ answer ∧
      Assembly.assemble (expectation {} rootRequest) cut = .ok (.full (rootSoa 10) []) ∧
      transfer {} rootRequest (({ store := rootStore } : Secondary ZoneStore), reader) =
        .ok (.committed ⟨10⟩ ⟨2⟩ .axfr 1)
          ({ store := (Command.commitFull .root (rootSoa 10).record []).run rootStore },
            reader.atEnd) := by
  refine ⟨by cbv, framable_rootDiff, ⟨_, rfl⟩, by decide, by cbv, ?_⟩
  cbv

theorem serial_of_commit {origin : Name} {received : Received} {count : Nat} {store store' : τ}
    {outcome : Outcome} (h : commit origin received count store = .ok outcome store') :
    outcome.serial = received.serial := by
  cases received with
  | upToDate serial =>
      obtain ⟨rfl, -⟩ := EStateM.Result.ok.inj h
      rfl
  | full soa content =>
      obtain ⟨token, middle, -, h⟩ := bind_eq_ok.mp h
      obtain ⟨rfl, -⟩ := EStateM.Result.ok.inj h
      rfl
  | delta start diffs =>
      obtain ⟨token, middle, -, h⟩ := bind_eq_ok.mp h
      obtain ⟨rfl, -⟩ := EStateM.Result.ok.inj h
      rfl

/-- Only a chain of diffs has to lead to the serial that the primary is known to have. -/
theorem reached_of_answer {e : Expectation} {target : Serial} (start : e.deltaStart = some old)
    (known : e.target = some target) {soa : SoaRecord} (opens : soa.serial = old)
    {later : List Record} {result : Received} (h : Answer e (soa.record :: later) result) :
    ¬ result.serial.less target ∨ later = [] ∧ result = .upToDate old := by
  generalize records : soa.record :: later = answer at h
  cases h with
  | @full first body closing other =>
      obtain ⟨same, -⟩ := List.cons.inj records
      rw [SoaRecord.record_inj] at same
      rw [← same, opens] at other
      exact absurd start other
  | @upToDate first =>
      obtain ⟨same, rfl⟩ := List.cons.inj records
      rw [SoaRecord.record_inj] at same
      exact .inr ⟨rfl, by rw [← same, opens]⟩
  | @chain _ diffs last _ _ _ contiguous reached =>
      rw [Received.serial_delta contiguous]
      exact .inl (reached target known)
  | @framed old' diffs first _ start' other =>
      obtain ⟨same, -⟩ := List.cons.inj records
      rw [SoaRecord.record_inj] at same
      obtain rfl : old' = old := Option.some.inj (start'.symm.trans start)
      exact absurd (by rw [← same, opens]) other

/-- An answer that begins with the client's start of authority leads at least to the serial that
the primary is known to have, unless it has no other record. That one is never compared. -/
theorem target_reached (source : Source At) (ends : Ends At) (request : TransferRequest)
    (ixfr : request.type = .ixfr) (client : request.clientSerial = some old) {target : Serial}
    (known : request.target = some target) (soa : SoaRecord) (opens : soa.serial = old)
    (later : List Record) (config : TransferConfig) :
    (∀ result, Assembly.assemble (expectation config request) (soa.record :: later) = .ok result →
        ¬ result.serial.less target ∨ later = [] ∧ result = .upToDate old) ∧
      ∀ (server : Secondary τ) (messages : List Octets) s before,
        (∀ m ∈ messages, m.length ≤ 65535) → messages.flatMap answersOf = soa.record :: later →
        At s before (messages.flatMap Framing.frame) → ∀ outcome server' s',
        transfer config request (server, s) = .ok outcome (server', s') →
        ¬ outcome.serial.less target ∨ later = [] ∧ outcome = .upToDate old := by
  have start := deltaStart_eq ixfr client config
  constructor
  · intro result assembled
    exact reached_of_answer start known opens (Assembly.answer_of_assemble assembled).1
  · intro server messages s before sizes carried stands outcome server' s' transferred
    obtain ⟨received, count, receives, commits⟩ := transfer_eq_ok transferred
    obtain ⟨taken, inside, assembled, whole⟩ :=
      assemble_of_receive source ends sizes stands receives
    rw [carried] at inside whole
    have answer := (Assembly.answer_of_assemble assembled).1
    obtain ⟨found, more, rfl⟩ := answer.eq_cons
    obtain ⟨same, inside⟩ := List.cons_prefix_cons.mp inside
    rw [SoaRecord.record_inj] at same
    rw [serial_of_commit commits]
    rcases reached_of_answer start known (same ▸ opens) answer with reached | ⟨rfl, rfl⟩
    · exact .inl reached
    · right
      constructor
      · cases whole with
        | inl all => exact (List.cons.inj all).2.symm
        | inr many => simp at many
      · exact (EStateM.Result.ok.inj commits).1.symm

/-- A diff without changes is enough to reach the serial that the primary has. -/
theorem target_reached_root :
    let later := [(rootSoa 10).record, (rootSoa 10).record]
    let reader := readerOf [responseOf aimedRequest ((rootSoa 9).record :: later)]
    let server : Secondary ZoneStore := { store := rootStore }
    (∃ result, Assembly.assemble (expectation {} aimedRequest) ((rootSoa 9).record :: later) =
        .ok result ∧ ¬ result.serial.less ⟨10⟩) ∧
      ∀ outcome server' r', transfer {} aimedRequest (server, reader) = .ok outcome (server', r') →
        ¬ outcome.serial.less ⟨10⟩ := by
  intro later reader server
  obtain ⟨assembled, transferred⟩ := target_reached (τ := ZoneStore) MemoryReader.source
    MemoryReader.ends aimedRequest rfl rfl rfl (rootSoa 9) rfl later {}
  constructor
  · have whole : Assembly.assemble (expectation {} aimedRequest) ((rootSoa 9).record :: later) =
        .ok (.delta ⟨9⟩ [⟨rootSoa 9, rootSoa 10, [], []⟩]) := by cbv
    exact ⟨_, whole, (assembled _ whole).resolve_right (by simp [later])⟩
  · intro outcome server' r' received
    have reached := transferred server [responseOf aimedRequest _] reader [] (by cbv; decide)
      (by cbv) (stands_readerOf _) outcome server' r' received
    exact reached.resolve_right (by simp [later])

/-- The client's start of authority alone is taken for the present one, although the primary is
known to have a newer one. -/
theorem lone_soa_unaimed :
    let reader := readerOf [responseOf aimedRequest [(rootSoa 9).record]]
    let server : Secondary ZoneStore := { store := rootStore }
    Assembly.assemble (expectation {} aimedRequest) [(rootSoa 9).record] = .ok (.upToDate ⟨9⟩) ∧
      transfer {} aimedRequest (server, reader) = .ok (.upToDate ⟨9⟩) (server, reader.atEnd) ∧
      (⟨9⟩ : Serial).less ⟨10⟩ := by
  refine ⟨by cbv, ?_, by decide⟩
  cbv

end Secondary
end ZoneSync
