import ZoneSync.Proofs.Message.Reading
import ZoneSync.Proofs.Transfer.Batching
import ZoneSync.Proofs.Transfer.Grammar

/-!
What an outbox puts on a stream, read back: the messages of an answer hold its records in their
order and keep to the limits, and the outbox has counted them.
-/

namespace ZoneSync

/-- Calls for the next message, up to the first that finds none, return the given messages. -/
inductive Framing.Reads {σ : Type} [ReadStream σ] : σ → List Octets → σ → Prop
  | ended {s s' : σ} (h : Framing.read s = .ok none s') : Reads s [] s'
  | more {s s' last : σ} {message : Octets} {later : List Octets}
      (h : Framing.read s = .ok (some message) s') (rest : Reads s' later last) :
      Reads s (message :: later) last

namespace Batch

variable {header : Header}

/-- The octets of the message are read as its question and its records, all of them answers. -/
def ReadBack (m : Batch header) : Prop :=
  ∃ start behind last, MessageReader.ofOctets m.message.finish = .ok start ∧
    start.header = header ∧ start.questions = .ok m.question.toList behind ∧
    MessageReader.Reads behind (m.records.map (Section.answer, ·)) last ∧ last.remaining = 0 ∧
    behind.entries = (m.records.map (Section.answer, ·), none)

theorem readBack {m : Batch header} (typed : ∀ r ∈ m.records, r.WellTyped) : m.ReadBack := by
  obtain ⟨behind, last, questions, reads, ended, entries⟩ :=
    m.answers.contains.read (by simpa using typed)
  rw [Content.entries, List.map_nil, List.append_nil] at reads entries
  exact ⟨m.message.reader, behind, last, m.answers.contains.ofOctets_finish, m.answers.header,
    questions, reads, ended, entries⟩

theorem reads {σ : Type} [ReadStream σ] {At : σ → Octets → Octets → Prop} (source : Source At)
    (ends : Ends At) (batches : List (Batch header)) {s : σ} {before : Octets}
    (stands : At s before (batches.flatMap Batch.wire)) :
    ∃ last, Framing.Reads s (batches.map fun m => m.message.finish) last := by
  induction batches generalizing s before with
  | nil =>
      obtain ⟨last, ended⟩ := Framing.read_end ends stands
      exact ⟨last, .ended ended⟩
  | cons m later ih =>
      rw [List.flatMap_cons] at stands
      have size := m.answers.contains.length_finish
      obtain ⟨middle, got, stands⟩ := Framing.yields_read source size s _ stands
      obtain ⟨last, rest⟩ := ih stands
      exact ⟨last, .more got rest⟩

end Batch

namespace Outbox

variable {σ : Type}

/-- An outbox that is done has put an answer into messages: their octets are those written, they
are read back, the records are split over them, and they are counted. -/
structure Delivered {header : Header} (q : Question) (sizeLimit recordLimit : Nat)
    (records : List Record) (o : Outbox σ) (batches : List (Batch header)) (octets : Octets) :
    Prop where
  framed : octets = batches.flatMap Batch.wire
  received : ∀ (s : MemoryReader) before, s.Stands before octets →
    ∃ last, Framing.Reads s (batches.map fun m => m.message.finish) last
  readBack : ∀ m ∈ batches, m.ReadBack
  whole : batches.flatMap Batch.records = records
  empty : records = [] → ∃ m, batches = [m] ∧ m.question = some q
  splitting : records ≠ [] → Splitting q sizeLimit recordLimit records batches
  messages_eq : o.messages = batches.length
  records_eq : o.records = records.length
  octets_eq : o.octets = octets.length

theorem delivered_idle {header : Header} {q : Question} {sizeLimit recordLimit : Nat}
    {records : List Record} {batches : List (Batch header)} {stream : σ}
    (typed : ∀ r ∈ records, r.WellTyped) (whole : batches.flatMap Batch.records = records)
    (empty : records = [] → ∃ m, batches = [m] ∧ m.question = some q)
    (splitting : records ≠ [] → Splitting q sizeLimit recordLimit records batches) :
    Delivered q sizeLimit recordLimit records
      (idle sizeLimit recordLimit none stream batches records.length) batches
      (batches.flatMap Batch.wire) where
  framed := rfl
  received _ _ stands := Batch.reads MemoryReader.source MemoryReader.ends batches stands
  readBack m known := Batch.readBack fun r within =>
    typed r (whole ▸ List.mem_flatMap.mpr ⟨m, known, within⟩)
  whole := whole
  empty := empty
  splitting := splitting
  messages_eq := rfl
  records_eq := rfl
  octets_eq := rfl

/-- Whatever the limits are, records that fit into a message by themselves are split over
messages that hold them in order. -/
theorem answer_delivered [WriteStream σ] {Has : σ → Octets → Prop} (sink : Sink Has)
    {stream : σ} {start : Octets} (has : Has stream start) (header : Header) (q : Question)
    (sizeLimit recordLimit : Nat) (records : List Record) (typed : ∀ r ∈ records, r.WellTyped)
    (room : ∀ r ∈ records, preambleLength + r.length ≤ maxMessageLength)
    (first_room : ∀ r ∈ records.head?,
      preambleLength + q.wire.length + r.length ≤ maxMessageLength) :
    ∃ (o : Outbox σ) (batches : List (Batch header)) (octets : Octets),
      (records.forM push >>= fun _ => finish)
          { stream, header, question := some q, sizeLimit, recordLimit } = .ok () o ∧
      Has o.stream (start ++ octets) ∧
      Delivered q sizeLimit recordLimit records o batches octets := by
  cases records with
  | nil =>
      obtain ⟨stream', m, asks, empty, done, has⟩ :=
        answer_nil sizeLimit recordLimit sink has q
      refine ⟨_, [m], _, done, has, delivered_idle typed ?_ ?_ ?_⟩
      · simp [empty]
      · exact fun _ => ⟨m, rfl, asks⟩
      · exact fun some_record => absurd rfl some_record
  | cons first later =>
      obtain ⟨stream', batches, done, has, splitting⟩ := answer_eq sizeLimit recordLimit sink has
        (by simpa using first_room) (by simpa using (List.forall_mem_cons.mp room).2)
      exact ⟨_, batches, _, done, has,
        delivered_idle typed splitting.whole nofun fun _ => splitting⟩

/-- Three records of one owner, and no more than two of them in a message. -/
theorem answer_delivered_root :
    let records := [rootAddress 1, rootAddress 2, rootAddress 3]
    let q : Question := ⟨.root, .axfr, .internet⟩
    ∃ (o : Outbox MemoryWriter) (batches : List (Batch {})) (octets : Octets),
      (records.forM push >>= fun _ => finish)
          { stream := {}, header := {}, question := some q, sizeLimit := 512, recordLimit := 2 } =
        .ok () o ∧
      o.stream.Holds ([] ++ octets) ∧ Delivered q 512 2 records o batches octets :=
  answer_delivered MemoryWriter.sink (⟨rfl, rfl⟩ : MemoryWriter.Holds {} []) {} _ 512 2 _
    (by decide) (by decide) (by decide)

end Outbox
end ZoneSync
