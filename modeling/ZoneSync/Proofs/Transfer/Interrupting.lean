import ZoneSync.Proofs.Stream.WriteBehind
import ZoneSync.Proofs.Transfer.Errand
import ZoneSync.Proofs.Transfer.Planning
import ZoneSync.Proofs.Transfer.Splitting
import ZoneSync.Proofs.Zone.Reachable

/-!
Answers that fail. Whatever the stream does, what it has accepted is the first part of the whole
answer, and the call that fails is the last one. A record without room ends an answer between two
messages. A zone that is not there is told of in a single message without records.
-/

namespace ZoneSync.Primary

open MessageBuilder (HasRoom)

variable {τ σ : Type} [WriteStream σ] {Has : σ → Octets → Prop}

section Refusal

def refusalHeader (request : TransferRequest) (code : ResponseCode) : Header :=
  (({ id := request.id, isResponse := true } : Header).withOpcode .query).withResponseCode code

/-- A refusal has the question of the request, and no records. -/
theorem refusal_eq (request : TransferRequest) (code : ResponseCode) :
    ∃ m : Batch (refusalHeader request code), m.question = some request.question ∧
      m.records = [] ∧ refusal request code = .ok m.message.finish := by
  obtain ⟨b, new, -⟩ :=
    MessageBuilder.exists_opened (refusalHeader request code) (some request.question)
  refine ⟨⟨_, [], b, MessageBuilder.filled_nil new⟩, rfl, rfl, ?_⟩
  have pushed : ({ header := refusalHeader request code } : MessageBuilder).pushQuestion
      request.question = .ok b := new
  rw [refusal]
  exact congrArg (Except.map MessageBuilder.finish) pushed

theorem refuse_eq {request : TransferRequest} {code : ResponseCode} {message : Octets}
    (composed : refusal request code = .ok message) (short : message.length ≤ 65535) (w : σ) :
    refuse request code w =
      behind (([.message message short, .flush] : List Dispatch).forM Dispatch.make) w := by
  rw [refuse, composed]
  change _ = behind (EStateM.bind (Framing.write message) fun _ =>
    EStateM.bind WriteStream.flush fun _ => pure ()) w
  simp only [behind, EStateM.bind]
  cases (Framing.write message : StreamM σ Unit) w with
  | error e s => rfl
  | ok _ s =>
      dsimp only
      cases (WriteStream.flush : StreamM σ Unit) s <;> rfl

end Refusal

section Answer

variable [ZoneStorage τ] {store : τ} {config : TransferConfig} {request : TransferRequest}
  {start : Octets} {w : σ}

theorem eq_of_plan_error {e e' : TransferError} {w' : σ} (planned : plan store request = .error e)
    (failed : serve store config request w = .error e' w') :
    e' = e ∧ ∃ why, e.fault = .storage why := by
  rw [serve, planned] at failed
  cases failed
  refine ⟨rfl, ?_⟩
  rw [plan] at planned
  split at planned
  · cases planned
  · obtain rfl := Except.error.inj planned
    exact ⟨_, rfl⟩

theorem serve_refused {e : TransferError} (planned : plan store request = .error e)
    (unavailable : isUnavailable e.fault) (w : σ) :
    serve store config request w = .error e (refuse request .notAuth w) := by
  rw [serve, planned]
  simp only [unavailable, if_true]

theorem serve_silent {e : TransferError} (planned : plan store request = .error e)
    (available : ¬ isUnavailable e.fault) (w : σ) :
    serve store config request w = .error e w := by
  rw [serve, planned]
  simp [available]

/-- A refusal is one message, or as much of it as is accepted before a call fails. -/
theorem refuse_cases (request : TransferRequest) :
    ∃ m : Batch (refusalHeader request .notAuth), m.question = some request.question ∧
      m.records = [] ∧ ∀ (σ : Type) [WriteStream σ] (Has : σ → Octets → Prop), Fallible Has →
        ∀ w start, Has w start → Has (refuse request .notAuth w) (start ++ m.wire) ∨
          ∃ part, part <+: m.wire ∧ BrokenAt Has (start ++ part) (refuse request .notAuth w) := by
  obtain ⟨m, asks, empty, composed⟩ := refusal_eq request .notAuth
  refine ⟨m, asks, empty, fun σ _ Has fallible w start has => ?_⟩
  have short : m.message.finish.length ≤ 65535 := m.answers.contains.length_finish
  have octets : ([.message m.message.finish short, .flush] : List Dispatch).flatMap
      Dispatch.octets = m.wire := by
    simp [Dispatch.octets, Batch.wire]
  rw [refuse_eq composed short]
  rcases Dispatch.delivers fallible [.message m.message.finish short, .flush] w has with
    ⟨w', made, has⟩ | ⟨e, w', part, failed, early, broken⟩
  · rw [octets] at has
    exact .inl (by rwa [behind, made])
  · rw [octets] at early
    exact .inr ⟨part, early, by rwa [behind, failed]⟩

/-- What comes to the stream is settled beforehand. Either all of it is accepted, or a call fails
and the stream is left as it is then. -/
theorem serve_cases (store : τ) (config : TransferConfig) (request : TransferRequest) :
    ∃ octets, ∀ (σ : Type) [WriteStream σ] (Has : σ → Octets → Prop), Fallible Has →
      ∀ w start, Has w start →
        Has (behind (serve store config request) w) (start ++ octets) ∨
        ∃ part, part <+: octets ∧
          BrokenAt Has (start ++ part) (behind (serve store config request) w) := by
  cases planned : plan store request with
  | ok p =>
      obtain ⟨errand, runs⟩ := serve_runs store config planned
      refine ⟨errand.octets, fun σ _ Has fallible w start has => ?_⟩
      rw [runs, behind_adaptExcept]
      rcases errand.run_cases fallible has with
        ⟨w', has, ⟨a, -, done⟩ | ⟨e, -, done⟩⟩ | ⟨e, w', part, failed, early, broken⟩
      · exact .inl (by rwa [behind, done])
      · exact .inl (by rwa [behind, done])
      · exact .inr ⟨part, early, by rwa [behind, failed]⟩
  | error e =>
      by_cases unavailable : isUnavailable e.fault
      · obtain ⟨m, -, -, refused⟩ := refuse_cases request
        refine ⟨m.wire, fun σ _ Has fallible w start has => ?_⟩
        rw [behind, serve_refused planned unavailable]
        exact refused σ Has fallible w start has
      · refine ⟨[], fun σ _ Has fallible w start has => .inl ?_⟩
        rw [behind, serve_silent planned unavailable, List.append_nil]
        exact has

/-- Messages with the records in front of one that has no room, in their order. Only the first of
the messages has the question. -/
inductive BrokenOff {header : Header} (q : Question) (records : List Record) :
    List (Batch header) → Prop
  | intro {done behind : List Record} {r : Record} {batches : List (Batch header)}
      (split : records = done ++ r :: behind)
      (no_room : ¬ HasRoom (if done = [] then some q else none) r)
      (whole : batches.flatMap Batch.records = done)
      (asks : ∀ m ∈ batches.head?, m.question = some q)
      (silent : ∀ m ∈ batches.tail, m.question = none) : BrokenOff q records batches

theorem brokenOff_of_splitting {header : Header} {q : Question} {sizeLimit recordLimit : Nat}
    {done behind : List Record} {r : Record} {batches : List (Batch header)}
    (no_room : ¬ HasRoom (if done = [] then some q else none) r)
    (sent : done = [] ∧ batches = [] ∨ Splitting q sizeLimit recordLimit done batches) :
    BrokenOff q (done ++ r :: behind) batches := by
  rcases sent with ⟨rfl, rfl⟩ | splitting
  · exact .intro rfl no_room rfl (by simp) (by simp)
  · obtain ⟨later, asked⟩ := splitting.asked
    cases batches with
    | nil => cases asked
    | cons first others =>
        obtain ⟨asks, silent⟩ := List.cons.inj asked
        refine .intro rfl no_room splitting.whole (by simpa using asks) fun m known => ?_
        have listed := List.mem_map_of_mem (f := Batch.question) known
        rw [List.tail_cons, silent] at listed
        exact List.eq_of_mem_replicate listed

/-- On a stream that accepts everything, an answer fails only in front of a record without room. -/
theorem serve_brokenOff (sink : Sink Has) {p : AnswerPlan} {records : List Record}
    {e : TransferError} {w' : σ} (planned : plan store request = .ok p)
    (sent : answerRecords store config request.origin p = .ok records) (has : Has w start)
    (failed : serve store config request w = .error e w') :
    (∃ why, e.fault = .compose why) ∧ ∃ batches : List (Batch (answerHeader request)),
      BrokenOff request.question records batches ∧
      Has w' (start ++ batches.flatMap Batch.wire) := by
  rw [serve, planned] at failed
  simp only [sendAnswer, sent] at failed
  cases records with
  | nil =>
      obtain ⟨w'', m, -, -, done, -⟩ := Outbox.answer_nil config.maxMessageSize
        config.maxRecordsPerMessage sink has request.question
      rw [done] at failed
      cases failed
  | cons first later =>
      rcases Outbox.answer_cases config.maxMessageSize config.maxRecordsPerMessage sink
          (answerHeader request) request.question first later has with
        ⟨w'', batches, done, -, -⟩ | ⟨done, r, behind, batches, split, no_room, sent, refused⟩
      · rw [done] at failed
        cases failed
      · have off : BrokenOff request.question (first :: later) batches :=
          split ▸ brokenOff_of_splitting no_room sent
        generalize ((first :: later).forM Outbox.push >>= fun _ => Outbox.finish :
          Outbox.OutboxM σ Unit) _ = result at refused failed
        obtain ⟨has⟩ := refused
        cases failed
        exact ⟨⟨_, rfl⟩, batches, off, has⟩

/-- If no record fits, that is no matter of the stream: any stream that accepts all that comes
before it fails in the same way. -/
theorem serve_composes {ρ : Type} [WriteStream ρ] {Has' : ρ → Octets → Prop} {p : AnswerPlan}
    (planned : plan store request = .ok p) (fallible : Fallible Has) (sink : Sink Has')
    (has : Has w start) {e : TransferError} {w' : σ} {why : PushError}
    (failed : serve store config request w = .error e w') (compose : e.fault = .compose why) :
    ∃ octets, Has w' (start ++ octets) ∧ ∀ v before, Has' v before →
      ∃ v', serve store config request v = .error e v' ∧ Has' v' (before ++ octets) := by
  obtain ⟨errand, runs⟩ := serve_runs store config planned
  rw [runs, EStateM.adaptExcept] at failed
  rcases errand.run_cases fallible has with
    ⟨middle, has, ⟨a, -, done⟩ | ⟨fault, told, done⟩⟩ | ⟨broke, middle, part, done, -, -⟩
  · rw [done] at failed
    cases failed
  · rw [done] at failed
    cases failed
    refine ⟨errand.octets, has, fun v before has' => ?_⟩
    rw [runs, EStateM.adaptExcept]
    rcases errand.run_cases sink.fallible has' with
      ⟨v', has', ⟨a, other, -⟩ | ⟨fault', same, also⟩⟩ | ⟨-, v', part, -, -, broken⟩
    · rw [told] at other
      cases other
    · obtain rfl := Except.error.inj (told.symm.trans same)
      exact ⟨v', by rw [also], has'⟩
    · exact absurd broken (sink.not_brokenAt v')
  · rw [done] at failed
    cases failed
    cases compose

end Answer

/-- The present version of a zone can be enumerated, so a plan always leads to records. -/
theorem exists_answerRecords {s : ZoneStore} {request : TransferRequest} {p : AnswerPlan}
    (config : TransferConfig) (planned : plan s request = .ok p) :
    ∃ records, answerRecords s config request.origin p = .ok records := by
  obtain ⟨z, g, found, content, version⟩ :=
    ZoneStore.current_eq_ok (planned_of_plan planned).current
  have enumerated : ZoneStorage.enumerate s request.origin p.version.token = .ok g.allRecords := by
    rw [version]
    exact ZoneStore.enumerate_current found content
  rw [answerRecords]
  cases p.negotiation.plan with
  | upToDate => exact ⟨_, rfl⟩
  | ixfr => exact ⟨_, rfl⟩
  | axfr => exact ⟨_, by rw [enumerated]; rfl⟩

section Failure

variable {s : ZoneStore} {config : TransferConfig} {request : TransferRequest} {w w' : σ}
  {start : Octets} {e : TransferError}

/-- What a stream has accepted of an answer is the first part of what any stream accepts that does
not fail. -/
theorem serve_early (fallible : Fallible Has) (has : Has w start)
    (failed : serve s config request w = .error e w') :
    ∃ got whole, got <+: whole ∧ (Has w' (start ++ got) ∨ BrokenAt Has (start ++ got) w') ∧
      ∀ (ρ : Type) [WriteStream ρ] (Has' : ρ → Octets → Prop), Sink Has' → ∀ v before,
        Has' v before → Has' (behind (serve s config request) v) (before ++ whole) := by
  have left : behind (serve s config request) w = w' := by rw [behind, failed]
  obtain ⟨whole, cases⟩ := serve_cases s config request
  have full : ∀ (ρ : Type) [WriteStream ρ] (Has' : ρ → Octets → Prop), Sink Has' → ∀ v before,
      Has' v before → Has' (behind (serve s config request) v) (before ++ whole) := by
    intro ρ _ Has' sink v before has'
    refine (cases ρ Has' sink.fallible v before has').resolve_right ?_
    rintro ⟨_, -, broken⟩
    exact sink.not_brokenAt _ broken
  rcases cases σ Has fallible w start has with done | ⟨part, early, broken⟩
  · exact ⟨whole, whole, List.prefix_rfl, .inl (left ▸ done), full⟩
  · exact ⟨part, whole, early, .inr (left ▸ broken), full⟩

/-- An answer that a message cannot be composed for ends in front of a record without room. -/
theorem serve_composing (fallible : Fallible Has) (has : Has w start) {why : PushError}
    (failed : serve s config request w = .error e w') (compose : e.fault = .compose why) :
    ∃ p records, ∃ batches : List (Batch (answerHeader request)),
      plan s request = .ok p ∧ answerRecords s config request.origin p = .ok records ∧
      BrokenOff request.question records batches ∧
      (∀ m ∈ batches, (∀ r ∈ m.records, r.WellTyped) → m.ReadBack) ∧
      Has w' (start ++ batches.flatMap Batch.wire) := by
  cases planned : plan s request with
  | error e' =>
      obtain ⟨rfl, other, storage⟩ := eq_of_plan_error planned failed
      rw [storage] at compose
      cases compose
  | ok p =>
      obtain ⟨records, sent⟩ := exists_answerRecords config planned
      obtain ⟨octets, has, alike⟩ :=
        serve_composes planned fallible MemoryWriter.sink has failed compose
      -- In memory everything is accepted, and there the octets are known.
      have empty : MemoryWriter.Holds {} [] := ⟨rfl, rfl⟩
      obtain ⟨v, failed', written⟩ := alike {} [] empty
      obtain ⟨-, batches, off, sent_out⟩ :=
        serve_brokenOff MemoryWriter.sink planned sent empty failed'
      have same : octets = batches.flatMap Batch.wire := written.2.symm.trans sent_out.2
      exact ⟨p, records, batches, rfl, sent, off, fun m _ typed => Batch.readBack typed,
        same ▸ has⟩

/-- A zone without content is told of in one message, which has no records. -/
theorem serve_absent (sink : Sink Has) (has : Has w start)
    (failed : serve s config request w = .error e w')
    (absent : e.fault = .storage .missingSoa ∨ ∃ zone, e.fault = .storage (.unknownZone zone)) :
    ∃ header, ∃ m : Batch header, header.id = request.id ∧ header.isResponse ∧
      header.responseCode = .notAuth ∧ m.question = some request.question ∧ m.records = [] ∧
      m.ReadBack ∧ Has w' (start ++ m.wire) := by
  cases planned : plan s request with
  | error e' =>
      obtain ⟨rfl, -⟩ := eq_of_plan_error planned failed
      have unavailable : isUnavailable e.fault := by
        rcases absent with missing | ⟨zone, unknown⟩
        · rw [missing]
          rfl
        · rw [unknown]
          rfl
      rw [serve_refused planned unavailable] at failed
      cases failed
      obtain ⟨m, asks, empty, refused⟩ := refuse_cases request
      refine ⟨_, m, rfl, rfl, rfl, asks, empty, Batch.readBack (by simp [empty]), ?_⟩
      refine (refused σ Has sink.fallible w start has).resolve_right ?_
      rintro ⟨_, -, broken⟩
      exact sink.not_brokenAt _ broken
  | ok p =>
      obtain ⟨records, sent⟩ := exists_answerRecords config planned
      obtain ⟨⟨why, compose⟩, -⟩ := serve_brokenOff sink planned sent has failed
      rcases absent with missing | ⟨zone, unknown⟩
      · rw [missing] at compose
        cases compose
      · rw [unknown] at compose
        cases compose

end Failure

/-- Answering only reads the store. If it fails, the stream has accepted the first part of what any
stream accepts that does not fail, and nothing is done with it behind the call that failed. In front
of a record without room there are only complete messages, which hold the records before it. For a
zone that is not there, or has no content, there is one message without records. -/
theorem serve_failed {s : ZoneStore} {config : TransferConfig} {request : TransferRequest}
    (fallible : Fallible Has) {w w' : σ} {start : Octets} (has : Has w start) {e : TransferError}
    (failed : serve s config request w = .error e w') :
    (∃ got whole, got <+: whole ∧ (Has w' (start ++ got) ∨ BrokenAt Has (start ++ got) w') ∧
      ∀ (ρ : Type) [WriteStream ρ] (Has' : ρ → Octets → Prop), Sink Has' → ∀ v before,
        Has' v before → Has' (behind (serve s config request) v) (before ++ whole)) ∧
    (∀ why, e.fault = .compose why → ∃ p records, ∃ batches : List (Batch (answerHeader request)),
      plan s request = .ok p ∧ answerRecords s config request.origin p = .ok records ∧
      BrokenOff request.question records batches ∧
      (∀ m ∈ batches, (∀ r ∈ m.records, r.WellTyped) → m.ReadBack) ∧
      Has w' (start ++ batches.flatMap Batch.wire)) ∧
    (e.fault = .storage .missingSoa ∨ (∃ zone, e.fault = .storage (.unknownZone zone)) →
      Sink Has → ∃ header, ∃ m : Batch header, header.id = request.id ∧ header.isResponse ∧
        header.responseCode = .notAuth ∧ m.question = some request.question ∧ m.records = [] ∧
        m.ReadBack ∧ Has w' (start ++ m.wire)) :=
  ⟨serve_early fallible has failed,
    fun _ compose => serve_composing fallible has failed compose,
    fun absent sink => serve_absent sink has failed absent⟩

/-- A connection that breaks behind the first octet of an answer, and a store without the zone. -/
theorem serve_failed_root :
    let request : TransferRequest := .axfr 7 .root
    let store : ZoneStore := [Command.addZone .root, .commitFull .root (rootSoa 9).record []].foldl
      Command.run {}
    let c : OutboundChannel :=
      { departures := [.accept 1, .failure .brokenPipe], flushFailure := none }
    (∃ e c' got whole, serve store {} request c = .error e c' ∧ got <+: whole ∧
      (c'.Took ([] ++ got) ∨ BrokenAt OutboundChannel.Took ([] ++ got) c') ∧
      (behind (serve store {} request) ({} : MemoryWriter)).content = [] ++ whole) ∧
    ∃ v, serve ({} : ZoneStore) {} request ({} : MemoryWriter) =
        .error ⟨.root, .produce, .storage (.unknownZone .root)⟩ v ∧
      ∃ header, ∃ m : Batch header, header.id = 7 ∧ header.responseCode = .notAuth ∧
        m.records = [] ∧ v.content = [] ++ m.wire := by
  intro request store c
  have took : c.Took [] := ⟨rfl, rfl, by simp [c]⟩
  have empty : MemoryWriter.Holds {} [] := ⟨rfl, rfl⟩
  obtain ⟨e, c', failed⟩ : ∃ e c', serve store {} request c = .error e c' := ⟨_, _, rfl⟩
  obtain ⟨v, refused⟩ : ∃ v, serve ({} : ZoneStore) {} request ({} : MemoryWriter) =
    .error ⟨.root, .produce, .storage (.unknownZone .root)⟩ v := ⟨_, rfl⟩
  refine ⟨?_, v, refused, ?_⟩
  · obtain ⟨⟨got, whole, early, stopped, full⟩, -⟩ :=
      serve_failed OutboundChannel.fallible took failed
    exact ⟨e, c', got, whole, failed, early, stopped, (full _ _ MemoryWriter.sink {} [] empty).2⟩
  · obtain ⟨-, -, absent⟩ := serve_failed MemoryWriter.sink.fallible empty refused
    obtain ⟨header, m, id, -, code, -, none, -, written⟩ :=
      absent (.inr ⟨.root, rfl⟩) MemoryWriter.sink
    exact ⟨header, m, id, code, none, written.2⟩

end ZoneSync.Primary
