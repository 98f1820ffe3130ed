import Mathlib.Data.List.Chain
import ZoneSync.Proofs.Message.Filling
import ZoneSync.Proofs.Stream.Delivery
import ZoneSync.Transfer.Outbox

/-!
Splitting an answer into messages. On a stream that accepts everything each record ends up in
exactly one message, in its order. A message is sent as soon as the next record is refused, by
one of the limits or by the size that no message exceeds.
-/

namespace ZoneSync

open MessageBuilder (Answers HasRoom filled opened)

/-- A message of an answer, with what was put into it. -/
structure Batch (header : Header) where
  question : Option Question
  records : List Record
  message : MessageBuilder
  filled : filled header question records = .ok message

namespace Batch

variable {header : Header} {question : Option Question} {r : Record} {b b' : MessageBuilder}

/-- The message in its frame. -/
def wire (m : Batch header) : Octets := Framing.frame m.message.finish

theorem answers (m : Batch header) : Answers header m.question m.records m.message :=
  MessageBuilder.answers_filled m.filled

/-- The message with one more record. -/
def add (m : Batch header) (pushed : m.message.pushAnswer r = .ok b) : Batch header :=
  ⟨m.question, m.records ++ [r], b, MessageBuilder.filled_concat m.filled pushed⟩

/-- A message with a single record. -/
def single (new : opened header question = .ok b) (pushed : b.pushAnswer r = .ok b') :
    Batch header :=
  ⟨question, [r], b', MessageBuilder.filled_concat (MessageBuilder.filled_nil new) pushed⟩

/-- The record cannot go into the message: there are as many as allowed, or it is refused. -/
def Full (m : Batch header) (sizeLimit recordLimit : Nat) (r : Record) : Prop :=
  max recordLimit 1 ≤ m.records.length ∨
    ∀ b, m.message.pushAnswerWithin sizeLimit r ≠ .ok b

/-- What the limits ask of a message with records. -/
structure Within (m : Batch header) (sizeLimit recordLimit : Nat) : Prop where
  some_record : m.records ≠ []
  few : m.records.length ≤ max recordLimit 1
  alone : sizeLimit < m.message.finish.length → m.records.length = 1

theorem within_of_single {m : Batch header} {sizeLimit recordLimit : Nat}
    (records : m.records = [r]) : m.Within sizeLimit recordLimit where
  some_record := by simp [records]
  few := by
    rw [records]
    exact Nat.le_max_right _ _
  alone _ := by rw [records, List.length_singleton]

theorem Within.join {m m' : Batch header} {sizeLimit recordLimit : Nat}
    (few : m.records.length < max recordLimit 1)
    (fits : m.message.pushAnswerWithin sizeLimit r = .ok m'.message)
    (records : m'.records = m.records ++ [r]) : m'.Within sizeLimit recordLimit where
  some_record := by simp [records]
  few := by
    rw [records, List.length_append]
    exact few
  alone long := by
    rw [MessageBuilder.length_finish] at long
    exact absurd (MessageBuilder.length_le_of_within fits) (Nat.not_le.mpr long)

end Batch

/-- The messages into which records are split. Every one but the last is full for the record
that the next one starts with. -/
structure Splitting {header : Header} (q : Question) (sizeLimit recordLimit : Nat)
    (records : List Record) (batches : List (Batch header)) : Prop where
  whole : batches.flatMap Batch.records = records
  asked : ∃ later, batches.map Batch.question = some q :: List.replicate later none
  within : ∀ m ∈ batches, m.Within sizeLimit recordLimit
  full : batches.IsChain fun m next => ∀ r ∈ next.records.head?, m.Full sizeLimit recordLimit r

/-- Where the next record goes: into the message being filled, or into one of its own. -/
inductive Batch.Next {header : Header} (sizeLimit recordLimit : Nat) (sent : List (Batch header))
    (m : Batch header) (r : Record) : List (Batch header) → Batch header → Prop
  | joins {m' : Batch header} (few : m.records.length < max recordLimit 1)
      (fits : m.message.pushAnswerWithin sizeLimit r = .ok m'.message)
      (question : m'.question = m.question) (records : m'.records = m.records ++ [r]) :
      Next sizeLimit recordLimit sent m r sent m'
  | opens {m' : Batch header} (full : m.Full sizeLimit recordLimit r)
      (question : m'.question = none) (records : m'.records = [r]) :
      Next sizeLimit recordLimit sent m r (sent ++ [m]) m'

namespace Splitting

variable {header : Header} {q : Question} {sizeLimit recordLimit : Nat} {records : List Record}
  {sent sent' : List (Batch header)} {m m' : Batch header} {r : Record}

theorem single (question : m.question = some q) (records : m.records = [r]) :
    Splitting q sizeLimit recordLimit [r] [m] where
  whole := by simp [records]
  asked := ⟨0, by simp [question]⟩
  within := by simpa using Batch.within_of_single records
  full := .singleton m

theorem asked_of_mem {batches : List (Batch header)}
    (h : Splitting q sizeLimit recordLimit records batches) :
    ∀ m ∈ batches, ∀ x ∈ m.question, x = q := by
  obtain ⟨later, asked⟩ := h.asked
  intro m known x asks
  have listed := List.mem_map_of_mem (f := Batch.question) known
  rw [asked, List.mem_cons, List.mem_replicate] at listed
  rcases listed with first | ⟨-, silent⟩
  · exact Option.some.inj (asks.symm.trans first)
  · rw [silent] at asks
    cases asks

/-- One more record leaves every message but the last two as it was. -/
theorem next (h : Splitting q sizeLimit recordLimit records (sent ++ [m]))
    (next : Batch.Next sizeLimit recordLimit sent m r sent' m') :
    Splitting q sizeLimit recordLimit (records ++ [r]) (sent' ++ [m']) := by
  obtain ⟨later, asked⟩ := h.asked
  obtain ⟨within_sent, within⟩ := List.forall_mem_append.mp h.within
  have whole := h.whole
  cases next with
  | joins few fits question records =>
      refine ⟨?_, ⟨later, ?_⟩, ?_, ?_⟩
      · simp [← whole, records]
      · simpa [question] using asked
      · exact List.forall_mem_append.mpr
          ⟨within_sent, by simpa using Batch.Within.join few fits records⟩
      · have head : m'.records.head? = m.records.head? := by
          rw [records, List.head?_append_of_ne_nil _ (within m List.mem_cons_self).some_record]
        have full := h.full
        rw [List.isChain_append] at full ⊢
        obtain ⟨chain, -, last⟩ := full
        refine ⟨chain, .singleton m', ?_⟩
        simpa [head] using last
  | opens full question records =>
      refine ⟨?_, ⟨later + 1, ?_⟩, ?_, ?_⟩
      · simp [← whole, records]
      · rw [List.map_append, asked, List.replicate_succ', List.map_singleton, question]
        rfl
      · exact List.forall_mem_append.mpr
          ⟨h.within, by simpa using Batch.within_of_single records⟩
      · refine List.isChain_append.mpr ⟨h.full, .singleton m', ?_⟩
        simpa [records] using full

end Splitting

namespace Outbox

variable {σ : Type} {Has : σ → Octets → Prop} {header : Header} {q : Question} {start got : Octets}
  {sizeLimit recordLimit : Nat} {o : Outbox σ} {b b' : MessageBuilder} {r : Record}

theorem builder_of_filling (h : o.filling = some b) : builder o = .ok b o := by
  cases o
  cases h
  rfl

theorem builder_of_idle (h : o.filling = none) (new : opened o.header o.question = .ok b) :
    builder o = .ok b { o with filling := some b, question := none } := by
  obtain ⟨stream, header, question, sizeLimit, recordLimit, filling, messages, records, octets⟩ := o
  cases h
  cases question with
  | none =>
      obtain rfl := Except.ok.inj new
      rfl
  | some q =>
      dsimp only [opened] at new
      rw [builder, get_bind]
      dsimp only
      rw [new]
      rfl

/-- The outbox between two messages, with what it counts of those it has sent. -/
def idle (sizeLimit recordLimit : Nat) (question : Option Question) (stream : σ)
    (sent : List (Batch header)) (records : Nat) : Outbox σ where
  stream
  header
  question
  sizeLimit
  recordLimit
  messages := sent.length
  records
  octets := (sent.flatMap Batch.wire).length

/-- The outbox while it fills a message. -/
def holding (sizeLimit recordLimit : Nat) (stream : σ) (sent : List (Batch header))
    (m : Batch header) (records : Nat) : Outbox σ :=
  { idle sizeLimit recordLimit none stream sent records with filling := some m.message }

/-- The record was refused by a new message, with `got` accepted by the stream. -/
inductive Refused (Has : σ → Octets → Prop) (got : Octets) :
    EStateM.Result TransferFault (Outbox σ) Unit → Prop
  | intro {e : PushError} {o : Outbox σ} (has : Has o.stream got) :
      Refused Has got (.error (.compose e) o)

theorem Refused.bind {x : OutboxM σ Unit} {f : Unit → OutboxM σ Unit}
    (h : Refused Has got (x o)) : Refused Has got ((x >>= f) o) := by
  cases ran : x o with
  | ok _ o' =>
      rw [ran] at h
      cases h
  | error e o' =>
      rwa [bind_of_error ran, ← ran]

variable [WriteStream σ]

theorem send_eq (sink : Sink Has) (filling : o.filling = some b)
    (short : b.length ≤ maxMessageLength) (has : Has o.stream got) :
    ∃ stream, send o = .ok () { o with
        stream
        filling := none
        messages := o.messages + 1
        octets := o.octets + (Framing.frame b.finish).length } ∧
      Has stream (got ++ Framing.frame b.finish) := by
  obtain ⟨stream, written, has⟩ := Framing.write_eq sink (by rwa [b.length_finish]) has
  refine ⟨stream, ?_, has⟩
  have below : onStream (Framing.write b.finish) { o with filling := none } =
      .ok () { o with filling := none, stream } := by
    simp [onStream, written]
  have size : (Framing.frame b.finish).length = b.finish.length + 2 := by
    rw [Framing.frame, List.length_append, Octets.length_ofNat, Nat.add_comm]
  rw [send, get_bind, filling, size]
  dsimp only
  rw [set_bind, bind_of_ok below]
  rfl

/-- A new message takes the record or refuses it, whatever the size limit. -/
theorem place_new (idle : o.filling = none) (new : opened o.header o.question = .ok b) :
    place r o = fillWith (b.pushAnswer r) { o with filling := some b, question := none } := by
  have answers := MessageBuilder.answers_opened new
  rw [place, get_bind, placeWithin, bind_of_ok (builder_of_idle idle new)]
  rcases answers.within_cases o.sizeLimit r with same | refused
  · rw [same]
    cases pushed : b.pushAnswer r with
    | ok b' => rfl
    | error e =>
        have alone : b.counts.answer = 0 := answers.contains.answer
        obtain rfl := answers.contains.push_answer_error answers.turn pushed
        dsimp only
        rw [if_pos alone]
  · have alone : b.counts.answer = 0 := answers.contains.answer
    rw [refused]
    dsimp only
    rw [if_pos alone]

theorem place_joins (filling : o.filling = some b)
    (fits : b.pushAnswerWithin o.sizeLimit r = .ok b') :
    place r o = .ok () { o with filling := some b' } := by
  rw [place, get_bind, placeWithin, bind_of_ok (builder_of_filling filling), fits]
  rfl

/-- A record that the message refuses goes to the next one. -/
theorem place_opens {sent : Outbox σ} {new : MessageBuilder} (filling : o.filling = some b)
    (refused : b.pushAnswerWithin o.sizeLimit r = .error .shortBuf)
    (some_record : b.counts.answer ≠ 0) (gone : send o = .ok () sent) (idle : sent.filling = none)
    (opened : opened sent.header sent.question = .ok new) :
    place r o =
      fillWith (new.pushAnswer r) { sent with filling := some new, question := none } := by
  have answers := MessageBuilder.answers_opened opened
  rw [place, get_bind, placeWithin, bind_of_ok (builder_of_filling filling), refused]
  dsimp only
  rw [if_neg some_record, bind_of_ok gone, bind_of_ok (builder_of_idle idle opened)]
  rcases answers.within_cases o.sizeLimit r with same | refused
  · rw [same]
    cases new.pushAnswer r <;> rfl
  · rw [refused]

section Batches

variable {question : Option Question} {stream : σ} {sent : List (Batch header)} {m : Batch header}
  {records : List Record} (sizeLimit recordLimit count : Nat)

theorem send_holding (sink : Sink Has) (m : Batch header)
    (has : Has stream (start ++ sent.flatMap Batch.wire)) :
    ∃ stream', send (holding sizeLimit recordLimit stream sent m count) =
        .ok () (idle sizeLimit recordLimit none stream' (sent ++ [m]) count) ∧
      Has stream' (start ++ (sent ++ [m]).flatMap Batch.wire) := by
  obtain ⟨stream', gone, has⟩ := send_eq (o := holding sizeLimit recordLimit stream sent m count)
    sink rfl m.answers.contains.size has
  refine ⟨stream', ?_, by simpa [Batch.wire] using has⟩
  rw [gone]
  simp [holding, idle, Batch.wire]

theorem place_idle (sent : List (Batch header)) (has : Has stream got) :
    (∃ m : Batch header, m.question = question ∧ m.records = [r] ∧
      place r (idle sizeLimit recordLimit question stream sent count) =
        .ok () (holding sizeLimit recordLimit stream sent m count)) ∨
    ¬ HasRoom question r ∧
      Refused Has got (place r (idle sizeLimit recordLimit question stream sent count)) := by
  obtain ⟨b, new, -⟩ := MessageBuilder.exists_opened header question
  rw [place_new rfl new]
  cases pushed : b.pushAnswer r with
  | ok b' => exact .inl ⟨.single new pushed, rfl, rfl, rfl⟩
  | error e => exact .inr ⟨MessageBuilder.not_hasRoom new pushed, ⟨has⟩⟩

theorem place_holding (sink : Sink Has) (has : Has stream (start ++ sent.flatMap Batch.wire))
    (some_record : m.records ≠ []) (few : m.records.length < max recordLimit 1) :
    (∃ stream' sent' m', place r (holding sizeLimit recordLimit stream sent m count) =
        .ok () (holding sizeLimit recordLimit stream' sent' m' count) ∧
      Has stream' (start ++ sent'.flatMap Batch.wire) ∧
      Batch.Next sizeLimit recordLimit sent m r sent' m') ∨
    ¬ HasRoom none r ∧ Refused Has (start ++ (sent ++ [m]).flatMap Batch.wire)
      (place r (holding sizeLimit recordLimit stream sent m count)) := by
  cases fits : m.message.pushAnswerWithin sizeLimit r with
  | ok b =>
      have pushed := MessageBuilder.pushAnswer_of_within fits
      exact .inl ⟨stream, sent, m.add pushed, place_joins rfl fits, has, .joins few fits rfl rfl⟩
  | error e =>
      obtain rfl := m.answers.contains.push_answer_error m.answers.turn fits
      have answered : m.message.counts.answer ≠ 0 := by
        rw [m.answers.contains.answer]
        exact Nat.ne_of_gt (List.length_pos_iff.mpr some_record)
      obtain ⟨stream', gone, has⟩ := send_holding sizeLimit recordLimit count sink m has
      obtain ⟨b, new, -⟩ := MessageBuilder.exists_opened header none
      rw [place_opens rfl fits answered gone rfl new]
      cases pushed : b.pushAnswer r with
      | ok b' =>
          refine .inl ⟨stream', sent ++ [m], .single new pushed, rfl, has, .opens (.inr ?_) rfl rfl⟩
          simp [fits]
      | error e => exact .inr ⟨MessageBuilder.not_hasRoom new pushed, ⟨has⟩⟩

theorem push_idle (sent : List (Batch header)) (has : Has stream got) :
    (∃ m : Batch header, m.question = question ∧ m.records = [r] ∧
      push r (idle sizeLimit recordLimit question stream sent count) =
        .ok () (holding sizeLimit recordLimit stream sent m (count + 1))) ∨
    ¬ HasRoom question r ∧
      Refused Has got (push r (idle sizeLimit recordLimit question stream sent count)) := by
  have ready : sendIfFull (idle sizeLimit recordLimit question stream sent count) =
      .ok () (idle sizeLimit recordLimit question stream sent count) := rfl
  rw [push, bind_of_ok ready]
  rcases place_idle sizeLimit recordLimit count sent has with
    ⟨m, asks, records, placed⟩ | ⟨no_room, refused⟩
  · refine .inl ⟨m, asks, records, ?_⟩
    rw [bind_of_ok placed]
    rfl
  · exact .inr ⟨no_room, refused.bind⟩

/-- The record joins the message being filled, or that message goes out and the record is the
first of a new one, unless that refuses it. -/
theorem push_holding (sink : Sink Has) (has : Has stream (start ++ sent.flatMap Batch.wire))
    (some_record : m.records ≠ []) :
    (∃ stream' sent' m', push r (holding sizeLimit recordLimit stream sent m count) =
        .ok () (holding sizeLimit recordLimit stream' sent' m' (count + 1)) ∧
      Has stream' (start ++ sent'.flatMap Batch.wire) ∧
      Batch.Next sizeLimit recordLimit sent m r sent' m') ∨
    ¬ HasRoom none r ∧ Refused Has (start ++ (sent ++ [m]).flatMap Batch.wire)
      (push r (holding sizeLimit recordLimit stream sent m count)) := by
  have ready : sendIfFull (holding sizeLimit recordLimit stream sent m count) =
      (if m.records.length ≥ max recordLimit 1 then send else pure () : OutboxM σ Unit)
        (holding sizeLimit recordLimit stream sent m count) := by
    have answered : m.message.counts.answer = m.records.length := m.answers.contains.answer
    rw [← answered]
    rfl
  rw [push]
  by_cases full : max recordLimit 1 ≤ m.records.length
  · obtain ⟨stream', gone, has⟩ := send_holding sizeLimit recordLimit count sink m has
    rw [if_pos full, gone] at ready
    rw [bind_of_ok ready]
    rcases place_idle sizeLimit recordLimit count (sent ++ [m]) has with
      ⟨m', asks, records, placed⟩ | ⟨no_room, refused⟩
    · refine .inl ⟨stream', sent ++ [m], m', ?_, has, .opens (.inl full) asks records⟩
      rw [bind_of_ok placed]
      rfl
    · exact .inr ⟨no_room, refused.bind⟩
  · rw [if_neg full] at ready
    rw [bind_of_ok ready]
    rcases place_holding sizeLimit recordLimit count sink has some_record (Nat.not_le.mp full) with
      ⟨stream', sent', m', placed, has, next⟩ | ⟨no_room, refused⟩
    · refine .inl ⟨stream', sent', m', ?_, has, next⟩
      rw [bind_of_ok placed]
      rfl
    · exact .inr ⟨no_room, refused.bind⟩

/-- Records are taken in one by one, and stay split as they should be. Where one of them is refused,
all those before it have gone out. -/
theorem pushAll_holding (sink : Sink Has) {later : List Record}
    (splitting : Splitting q sizeLimit recordLimit records (sent ++ [m]))
    (has : Has stream (start ++ sent.flatMap Batch.wire)) :
    (∃ (stream' : σ) (sent' : List (Batch header)) (m' : Batch header),
      later.forM push (holding sizeLimit recordLimit stream sent m count) =
        .ok () (holding sizeLimit recordLimit stream' sent' m' (count + later.length)) ∧
      Has stream' (start ++ sent'.flatMap Batch.wire) ∧
      Splitting q sizeLimit recordLimit (records ++ later) (sent' ++ [m'])) ∨
    ∃ done r behind, ∃ batches : List (Batch header), later = done ++ r :: behind ∧
      ¬ HasRoom none r ∧ Splitting q sizeLimit recordLimit (records ++ done) batches ∧
      Refused Has (start ++ batches.flatMap Batch.wire)
        (later.forM push (holding sizeLimit recordLimit stream sent m count)) := by
  induction later generalizing stream sent m records count with
  | nil => exact .inl ⟨stream, sent, m, rfl, has, by rwa [List.append_nil]⟩
  | cons r later ih =>
      have some_record := (splitting.within m (by simp)).some_record
      rcases push_holding sizeLimit recordLimit count sink has some_record with
        ⟨middle, sent', m', pushed, has, next⟩ | ⟨no_room, refused⟩
      · have step : (r :: later).forM push (holding sizeLimit recordLimit stream sent m count) =
            later.forM push (holding sizeLimit recordLimit middle sent' m' (count + 1)) :=
          bind_of_ok pushed
        rw [step]
        rcases ih (count + 1) (splitting.next next) has with
          ⟨stream', sent'', last, rest, has, whole⟩ |
            ⟨done, x, behind, batches, split, no_room, whole, refused⟩
        · refine .inl ⟨stream', sent'', last, ?_, has, by simpa using whole⟩
          rw [List.length_cons, Nat.add_comm later.length, ← Nat.add_assoc]
          exact rest
        · refine .inr ⟨r :: done, x, behind, batches, by rw [split]; rfl, no_room, ?_, refused⟩
          simpa using whole
      · refine .inr ⟨[], r, later, sent ++ [m], rfl, no_room, ?_, refused.bind⟩
        rwa [List.append_nil]

theorem flush_eq (sink : Sink Has) (has : Has o.stream got) :
    ∃ stream, onStream WriteStream.flush o = .ok () { o with stream } ∧ Has stream got := by
  obtain ⟨stream, flushed, has⟩ := sink.flush has
  exact ⟨stream, by simp [onStream, flushed], has⟩

/-- The last message is sent, the one being filled or, without any so far, a new one. -/
theorem finish_eq (sink : Sink Has) (has : Has stream (start ++ sent.flatMap Batch.wire))
    (due : o.filling.isSome ∨ o.messages = 0)
    (built : builder o = .ok m.message (holding sizeLimit recordLimit stream sent m count)) :
    ∃ stream', finish o =
        .ok () (idle sizeLimit recordLimit none stream' (sent ++ [m]) count) ∧
      Has stream' (start ++ (sent ++ [m]).flatMap Batch.wire) := by
  obtain ⟨middle, gone, has⟩ := send_holding sizeLimit recordLimit count sink m has
  obtain ⟨stream', flushed, has⟩ :=
    flush_eq (o := idle sizeLimit recordLimit none middle (sent ++ [m]) count) sink has
  refine ⟨stream', ?_, has⟩
  rw [finish, get_bind, if_pos (by simpa using due), bind_of_ok built, bind_of_ok gone]
  exact flushed

end Batches

section Answer

variable (sizeLimit recordLimit : Nat) {stream : σ}

/-- An answer is sent as messages into which its records are split, or it ends in front of a record
that has no room and all those before it are sent so. -/
theorem answer_cases (sink : Sink Has) (header : Header) (q : Question) (first : Record)
    (later : List Record) (has : Has stream start) :
    (∃ (stream' : σ) (batches : List (Batch header)),
      ((first :: later).forM push >>= fun _ => finish)
          { stream, header, question := some q, sizeLimit, recordLimit } =
        .ok () (idle sizeLimit recordLimit none stream' batches (first :: later).length) ∧
      Has stream' (start ++ batches.flatMap Batch.wire) ∧
      Splitting q sizeLimit recordLimit (first :: later) batches) ∨
    ∃ done r behind, ∃ batches : List (Batch header), first :: later = done ++ r :: behind ∧
      ¬ HasRoom (if done = [] then some q else none) r ∧
      (done = [] ∧ batches = [] ∨ Splitting q sizeLimit recordLimit done batches) ∧
      Refused Has (start ++ batches.flatMap Batch.wire)
        (((first :: later).forM push >>= fun _ => finish)
          { stream, header, question := some q, sizeLimit, recordLimit }) := by
  have none_sent : Has stream (start ++ ([] : List (Batch header)).flatMap Batch.wire) := by
    simpa using has
  rcases push_idle sizeLimit recordLimit 0 ([] : List (Batch header)) none_sent with
    ⟨m, asks, records, pushed⟩ | ⟨no_room, refused⟩
  · have started : Splitting q sizeLimit recordLimit [first] ([] ++ [m]) := .single asks records
    have all : (first :: later).forM push
        { stream, header, question := some q, sizeLimit, recordLimit } =
          later.forM push (holding sizeLimit recordLimit stream [] m 1) :=
      bind_of_ok pushed
    rcases pushAll_holding sizeLimit recordLimit 1 sink started none_sent with
      ⟨middle, sent, last, rest, has, splitting⟩ |
        ⟨done, r, behind, batches, split, no_room, splitting, refused⟩
    · obtain ⟨stream', finished, has⟩ := finish_eq sizeLimit recordLimit (1 + later.length) sink has
        (.inl rfl) (builder_of_filling rfl)
      refine .inl ⟨stream', sent ++ [last], ?_, has, splitting⟩
      rw [bind_of_ok (all.trans rest), finished, List.length_cons, Nat.add_comm]
    · refine .inr ⟨first :: done, r, behind, batches, by rw [split]; rfl, ?_, .inr splitting, ?_⟩
      · rwa [if_neg (List.cons_ne_nil first done)]
      · rw [← all] at refused
        exact refused.bind
  · exact .inr ⟨[], first, later, [], rfl, by rwa [if_pos rfl], .inl ⟨rfl, rfl⟩, refused.bind.bind⟩

/-- With room for each record the answer is sent whole. -/
theorem answer_eq (sink : Sink Has) {first : Record} {later : List Record}
    (has : Has stream start) (first_room : HasRoom (some q) first)
    (room : ∀ r ∈ later, HasRoom none r) :
    ∃ (stream' : σ) (batches : List (Batch header)),
      ((first :: later).forM push >>= fun _ => finish)
          { stream, header, question := some q, sizeLimit, recordLimit } =
        .ok () (idle sizeLimit recordLimit none stream' batches (first :: later).length) ∧
      Has stream' (start ++ batches.flatMap Batch.wire) ∧
      Splitting q sizeLimit recordLimit (first :: later) batches := by
  refine (answer_cases sizeLimit recordLimit sink header q first later has).resolve_right ?_
  rintro ⟨done, r, behind, batches, split, no_room, -, -⟩
  cases done with
  | nil =>
      rw [if_pos rfl, ← (List.cons.inj split).1] at no_room
      exact no_room first_room
  | cons _ done =>
      rw [if_neg (List.cons_ne_nil _ done)] at no_room
      exact no_room (room r (by rw [(List.cons.inj split).2]; simp))

/-- An answer without records is one message with the question. -/
theorem answer_nil (sink : Sink Has) (has : Has stream start) (q : Question) :
    ∃ (stream' : σ) (m : Batch header), m.question = some q ∧ m.records = [] ∧
      (([] : List Record).forM push >>= fun _ => finish)
          { stream, header, question := some q, sizeLimit, recordLimit } =
        .ok () (idle sizeLimit recordLimit none stream' [m] 0) ∧
      Has stream' (start ++ [m].flatMap Batch.wire) := by
  have none_sent : Has stream (start ++ ([] : List (Batch header)).flatMap Batch.wire) := by
    simpa using has
  obtain ⟨b, new, -⟩ := MessageBuilder.exists_opened header (some q)
  obtain ⟨stream', finished, has⟩ := finish_eq
    (o := { stream, header, question := some q, sizeLimit, recordLimit })
    (m := ⟨some q, [], b, MessageBuilder.filled_nil new⟩)
    sizeLimit recordLimit 0 sink none_sent (.inr rfl) (builder_of_idle rfl new)
  exact ⟨stream', _, rfl, rfl, finished, has⟩

end Answer

end Outbox
end ZoneSync
