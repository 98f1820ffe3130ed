import ZoneSync.Proofs.Message.Reading
import ZoneSync.Proofs.Transfer.Acceptance
import ZoneSync.Proofs.Transfer.Batching
import ZoneSync.Proofs.Transfer.Carrying

/-!
Receiving what an outbox sends. The frames of an answer are taken in message by message, and
the assembly processes its records in their order.
-/

namespace ZoneSync

namespace Secondary

/-- What the messages of an answer have in common passes the checks of the request. -/
structure Expects (request : TransferRequest) (header : Header) (q : Question) : Prop where
  header : checkHeader request header = .ok ()
  question : isAsked request q

/-- Messages of records that can be read carry them to a request that expects their header and
their question. -/
theorem carries_batches {request : TransferRequest} {header : Header} {q : Question}
    {batches : List (Batch header)} (expects : Expects request header q)
    (asked : ∀ m ∈ batches, ∀ x ∈ m.question, x = q)
    (typed : ∀ r ∈ batches.flatMap Batch.records, r.WellTyped) :
    Carries request (batches.map fun m => m.message.finish) (batches.flatMap Batch.records) := by
  induction batches with
  | nil => exact .nil
  | cons m later ih =>
      obtain ⟨asked_here, asked⟩ := List.forall_mem_cons.mp asked
      obtain ⟨typed, later_typed⟩ := List.forall_mem_append.mp typed
      have passes : Passes request ⟨m.message.header, m.question.toList, m.records, [], []⟩ := by
        rw [m.answers.header]
        refine passes_iff.mpr ⟨expects.header, List.all_eq_true.mpr fun x known => ?_⟩
        rw [asked_here x (by simpa using known)]
        exact expects.question
      exact .cons m.answers.contains.length_finish
        (m.answers.contains.dissection (by simpa using typed)) passes (ih asked later_typed)

variable {σ : Type} [ReadStream σ] {At : σ → Octets → Octets → Prop}

/-- The whole answer is received as what the assembly makes of its records. -/
theorem receive_splitting (source : Source At) (ends : Ends At) {config : TransferConfig}
    {request : TransferRequest} {header : Header} {q : Question} {sizeLimit recordLimit : Nat}
    {records : List Record} {batches : List (Batch header)} {before : Octets} {s : σ}
    (expects : Expects request header q)
    (splitting : Splitting q sizeLimit recordLimit records batches)
    (typed : ∀ r ∈ records, r.WellTyped)
    (none_behind : Assembly.NoneBehind records { expectation := expectation config request })
    (stands : At s before (batches.flatMap Batch.wire)) :
    ∃ s', receive config request s =
      match Assembly.assemble (expectation config request) records with
      | .ok received => .ok (received, records.length) s'
      | .error v => .error (.protocol v) s' := by
  rw [← splitting.whole] at typed
  have carries := carries_batches expects splitting.asked_of_mem typed
  rw [splitting.whole] at carries
  have frames : (batches.map fun m => m.message.finish).flatMap Framing.frame =
      batches.flatMap Batch.wire := List.flatMap_map _ _ batches
  rw [← frames] at stands
  exact receive_of_carries source ends carries none_behind stands

theorem begin?_eq {sessions : Sessions} {origin : Name} (idle : ¬ sessions.isActive origin) :
    sessions.begin? origin = some { active := origin :: sessions.active } := if_neg idle

/-- What is received is committed if the store takes it. -/
theorem transfer_eq {τ : Type} [ZoneStorage τ] {config : TransferConfig}
    {request : TransferRequest} {server : Secondary τ} {received : Received} {count : Nat}
    {s s' : σ} {outcome : Outcome} {store : τ}
    (idle : ¬ server.sessions.isActive request.origin)
    (receives : receive config request s = .ok (received, count) s')
    (commits : commit request.origin received count server.store = .ok outcome store) :
    ∃ sessions, transfer config request (server, s) = .ok outcome ({ store, sessions }, s') := by
  rw [transfer, transferInSession]
  simp only [begin?_eq idle, receives, commits]
  exact ⟨_, rfl⟩

/-- A transfer that receives no answer leaves the store as it is. -/
theorem transfer_eq_of_receive_error {τ : Type} [ZoneStorage τ] {config : TransferConfig}
    {request : TransferRequest} {server : Secondary τ} {fault : TransferFault} {s s' : σ}
    (idle : ¬ server.sessions.isActive request.origin)
    (receives : receive config request s = .error fault s') :
    ∃ sessions, transfer config request (server, s) =
      .error ⟨request.origin, .consume, fault⟩ ({ server with sessions }, s') := by
  rw [transfer, transferInSession]
  simp only [begin?_eq idle, receives]
  exact ⟨_, rfl⟩

/-- A transfer that succeeds has committed what it has received. -/
theorem transfer_eq_ok {τ : Type} [ZoneStorage τ] {config : TransferConfig}
    {request : TransferRequest} {server server' : Secondary τ} {s s' : σ} {outcome : Outcome}
    (h : transfer config request (server, s) = .ok outcome (server', s')) :
    ∃ received count, receive config request s = .ok (received, count) s' ∧
      commit request.origin received count server.store = .ok outcome server'.store := by
  rw [transfer, transferInSession] at h
  dsimp only at h
  cases begun : server.sessions.begin? request.origin with
  | none => simp [begun] at h
  | some sessions =>
      cases receives : (receive config request : EStateM TransferFault σ _) s with
      | error fault stream => simp [begun, receives] at h
      | ok result stream =>
          obtain ⟨received, count⟩ := result
          cases commits : commit request.origin received count server.store with
          | error e store => simp [begun, receives, commits] at h
          | ok found store =>
              simp only [begun, receives, commits, EStateM.Result.ok.injEq, Prod.mk.injEq] at h
              obtain ⟨rfl, rfl, rfl⟩ := h
              exact ⟨received, count, rfl, commits⟩

/-- What is committed is the content of a zone or diffs. -/
theorem commit_eq_committed {τ : Type} [ZoneStorage τ] {origin : Name} {received : Received}
    {count records : Nat} {store store' : τ} {serial : Serial} {token : Token} {type : TransferType}
    (h : commit origin received count store = .ok (.committed serial token type records) store') :
    received.serial = serial ∧ count = records ∧
      ((∃ soa content, received = .full soa content ∧ type = .axfr ∧
        ZoneStorage.commitFull origin soa.record content store = .ok token store') ∨
      ∃ start diffs, received = .delta start diffs ∧ type = .ixfr ∧
        ZoneStorage.commitDelta origin start diffs store = .ok token store') := by
  cases received with
  | upToDate => cases h
  | full soa content =>
      obtain ⟨token', middle, committed, h⟩ := bind_eq_ok.mp h
      cases h
      exact ⟨rfl, rfl, .inl ⟨soa, content, rfl, rfl, committed⟩⟩
  | delta start diffs =>
      obtain ⟨token', middle, committed, h⟩ := bind_eq_ok.mp h
      cases h
      exact ⟨rfl, rfl, .inr ⟨start, diffs, rfl, rfl, committed⟩⟩

/-- A transfer that receives no answer does not touch the store. -/
theorem transfer_eq_error {τ : Type} [ZoneStorage τ] {config : TransferConfig}
    {request : TransferRequest} (server : Secondary τ) {s : σ}
    (h : ∀ result s', receive config request s ≠ .ok result s') :
    ∃ e server' s', transfer config request (server, s) = .error e (server', s') ∧
      server'.store = server.store := by
  rw [transfer, transferInSession]
  cases server.sessions.begin? request.origin with
  | none => exact ⟨_, server, s, rfl, rfl⟩
  | some sessions =>
      cases receives : (receive config request : EStateM TransferFault σ _) s with
      | error fault stream => exact ⟨_, _, stream, rfl, rfl⟩
      | ok result stream => exact absurd receives (h result stream)

end Secondary
end ZoneSync
