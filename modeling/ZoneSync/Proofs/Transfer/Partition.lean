import ZoneSync.Proofs.Transfer.Carrying
import ZoneSync.Proofs.Transfer.Truncation

/-!
The cut of an answer into messages. What a transfer does depends on the records that the messages
carry, not on how many of them are in which message, nor on what else is in the messages.
-/

namespace ZoneSync

/-- What a step has come to, without the state it has left. -/
def returned {ε σ α : Type} : EStateM.Result ε σ α → Except ε α
  | .ok a _ => .ok a
  | .error e _ => .error e

namespace Secondary

/-- What a transfer has come to and the server it has left, without the rest of its stream. -/
def outcomeOf {τ σ : Type} :
    EStateM.Result TransferError (Secondary τ × σ) Outcome →
      Except TransferError Outcome × Secondary τ
  | .ok outcome (server, _) => (.ok outcome, server)
  | .error e (server, _) => (.error e, server)

variable {τ σ σ' : Type} [ZoneStorage τ] [ReadStream σ] [ReadStream σ']

/-- A transfer knows of its stream only what is received from it. -/
theorem outcomeOf_transfer {config : TransferConfig} {request : TransferRequest}
    (server : Secondary τ) {s : σ} {t : σ'}
    (same : returned (receive config request s) = returned (receive config request t)) :
    outcomeOf (transfer config request (server, s)) =
      outcomeOf (transfer config request (server, t)) := by
  rw [transfer, transfer]
  dsimp only
  cases server.sessions.begin? request.origin with
  | none => rfl
  | some sessions =>
      rw [transferInSession, transferInSession]
      dsimp only
      cases first : (receive config request : EStateM TransferFault σ _) s with
      | error fault s' =>
          cases second : (receive config request : EStateM TransferFault σ' _) t with
          | error other t' => simp_all [returned, outcomeOf]
          | ok result t' => simp_all [returned]
      | ok result s' =>
          cases second : (receive config request : EStateM TransferFault σ' _) t with
          | error fault t' => simp_all [returned]
          | ok other t' =>
              obtain rfl : result = other := by simpa [first, second, returned] using same
              obtain ⟨received, count⟩ := result
              dsimp only
              cases (commit request.origin received count : EStateM StoreError τ _) server.store <;>
                rfl

variable {At : σ → Octets → Octets → Prop} {At' : σ' → Octets → Octets → Prop}

/-- Two streams of messages that carry the same records, however these are cut into messages, lead
to the same outcome or the same error, and leave the same server. Only the rest of an answer that
is complete before its last record could tell them apart. -/
theorem transfer_ignores_cuts (source : Source At) (ends : Ends At) (source' : Source At')
    (ends' : Ends At') (config : TransferConfig) (request : TransferRequest)
    (server : Secondary τ) {records : List Record}
    (none_behind : Assembly.NoneBehind records { expectation := expectation config request })
    {messages messages' : List Octets} (carries : Carries request messages records)
    (carries' : Carries request messages' records) {s : σ} {s' : σ'} {before before' : Octets}
    (stands : At s before (messages.flatMap Framing.frame))
    (stands' : At' s' before' (messages'.flatMap Framing.frame)) :
    outcomeOf (transfer config request (server, s)) =
      outcomeOf (transfer config request (server, s')) := by
  obtain ⟨t, first⟩ := receive_of_carries source ends carries none_behind stands
  obtain ⟨t', second⟩ := receive_of_carries source' ends' carries' none_behind stands'
  apply outcomeOf_transfer
  rw [first, second]
  cases Assembly.assemble (expectation config request) records <;> rfl

/-- Records that fit into one message. -/
def fits (request : TransferRequest) (records : List Record) : Bool :=
  match MessageBuilder.filled (Primary.answerHeader request) none records with
  | .ok _ => true
  | .error _ => false

theorem carries_responseOf {request : TransferRequest} {records : List Record}
    (typed : ∀ r ∈ records, r.WellTyped) (h : fits request records) :
    Carries request [responseOf request records] records := by
  cases filled : MessageBuilder.filled (Primary.answerHeader request) none records with
  | error e => simp [fits, filled] at h
  | ok b =>
      have built : records.foldlM MessageBuilder.pushAnswer
          { header := Primary.answerHeader request } = .ok b := filled
      let batches : List (Batch (Primary.answerHeader request)) := [⟨none, records, b, filled⟩]
      have none_asked : ∀ m ∈ batches, ∀ x ∈ m.question, x = request.question := by simp [batches]
      have carries := carries_batches (expects_answerHeader request) none_asked
        (by simpa [batches] using typed)
      simpa [batches, responseOf, built] using carries

/-- One message, and the same records in two, with a message without records between them. -/
theorem transfer_ignores_cuts_root :
    let front := [(rootSoa 10).record, (rootSoa 9).record]
    let back := [rootAddress 1, (rootSoa 10).record, rootAddress 2, (rootSoa 10).record]
    let whole := [responseOf rootRequest (front ++ back)]
    let parts :=
      [responseOf rootRequest front, responseOf rootRequest [], responseOf rootRequest back]
    let server : Secondary ZoneStore := { store := rootStore }
    Assembly.NoneBehind (front ++ back) { expectation := expectation {} rootRequest } ∧
      Carries rootRequest whole (front ++ back) ∧ Carries rootRequest parts (front ++ back) ∧
      outcomeOf (transfer {} rootRequest (server, readerOf whole)) =
        outcomeOf (transfer {} rootRequest (server, readerOf parts)) := by
  intro front back whole parts server
  have fit : [front ++ back, front, [], back].all (fits rootRequest) := by cbv
  simp only [List.all_cons, Bool.and_eq_true, List.all_nil, and_true] at fit
  obtain ⟨whole_fits, front_fits, empty_fits, back_fits⟩ := fit
  have carries : Carries rootRequest whole (front ++ back) :=
    carries_responseOf (by decide) whole_fits
  have first : Carries rootRequest [responseOf rootRequest front] front :=
    carries_responseOf (by decide) front_fits
  have empty : Carries rootRequest [responseOf rootRequest []] [] :=
    carries_responseOf (by decide) empty_fits
  have last : Carries rootRequest [responseOf rootRequest back] back :=
    carries_responseOf (by decide) back_fits
  have carries' : Carries rootRequest parts (front ++ back) := first.append (empty.append last)
  obtain ⟨a, processed⟩ : ∃ a, Assembly.processAll (front ++ back)
      { expectation := expectation {} rootRequest } = .ok () a := ⟨_, by cbv⟩
  have none_behind := Assembly.noneBehind_of_processAll processed
  refine ⟨none_behind, carries, carries', ?_⟩
  exact transfer_ignores_cuts MemoryReader.source MemoryReader.ends MemoryReader.source
    MemoryReader.ends {} rootRequest server none_behind carries carries' (stands_readerOf whole)
    (stands_readerOf parts)

end Secondary
end ZoneSync
