import ZoneSync.Proofs.Stream.Ending
import ZoneSync.Proofs.Transfer.Carrying
import ZoneSync.Proofs.Transfer.Truncation

/-!
What a transfer that succeeds has read. It has taken whole messages from its stream, checked each
of them, and stopped at the end of the stream or behind the message that completed the answer.
-/

namespace ZoneSync.Secondary

/-- The answer is complete with the last record in the answer section of the last message. -/
structure CompletedBy (e : Expectation) (messages : List Octets) : Prop where
  finishes : Assembly.FinishesWith (messages.flatMap answersOf) { expectation := e }
  none_behind : Assembly.NoneBehind (messages.flatMap answersOf) { expectation := e }
  last : ∀ m ∈ messages.getLast?, answersOf m ≠ []

variable {σ : Type} [ReadStream σ] {At : σ → Octets → Octets → Prop}

/-- The messages that are taken in are those in front of the stream. Behind them the stream has
ended, or else the last of them has finished the assembly and nothing more is read. -/
theorem takeMessages_eq_ok (faithful : Faithful At) (conclusive : Conclusive At)
    {request : TransferRequest} {rounds : Nat} {a b : Assembly} {s s' : σ}
    {before after : Octets} (enough : after.length < rounds) (stands : At s before after)
    (h : takeMessages request rounds a s = .ok b s') :
    ∃ (messages : List Octets) (rest : Octets), after = messages.flatMap Framing.frame ++ rest ∧
      (∀ m ∈ messages, ∃ d : Dissection, d.Of m ∧ Passes request d) ∧
      Assembly.processAll (messages.flatMap answersOf) a = .ok () b ∧
      ((rest = [] ∧ ∃ last, At last (before ++ messages.flatMap Framing.frame) [] ∧
          Framing.read last = .ok none s') ∨
        b.isFinished ∧ (∀ m ∈ messages.getLast?, answersOf m ≠ []) ∧
          At s' (before ++ messages.flatMap Framing.frame) rest) := by
  induction rounds generalizing a s before after with
  | zero => omega
  | succ rounds ih =>
      rcases takeMessages_succ h with
        ⟨finished, rfl, rfl⟩ | ⟨running, ⟨ended, rfl⟩ | ⟨message, middle, next, got, taken, more⟩⟩
      · exact ⟨[], after, rfl, by simp, rfl, .inr ⟨finished, by simp, by simpa using stands⟩⟩
      · obtain rfl := Framing.read_none faithful conclusive stands ended
        exact ⟨[], [], rfl, by simp, rfl, .inl ⟨rfl, s, by simpa using stands, ended⟩⟩
      · obtain ⟨behind, rfl, moved⟩ := Framing.read_some faithful stands got
        obtain ⟨d, of, passes, processed⟩ := takeMessage_eq_ok_iff.mp taken
        rw [← answersOf_eq of] at processed
        have shorter : behind.length < rounds := by
          rw [List.length_append, Framing.frame, List.length_append, Octets.length_ofNat] at enough
          omega
        obtain ⟨messages, rest, rfl, checked, all, stopped⟩ := ih shorter moved more
        refine ⟨message :: messages, rest, by rw [List.flatMap_cons, List.append_assoc],
          List.forall_mem_cons.mpr ⟨⟨d, of, passes⟩, checked⟩,
          Assembly.processAll_append.mpr ⟨next, processed, all⟩, ?_⟩
        rw [List.flatMap_cons, ← List.append_assoc]
        refine stopped.imp_right ?_
        rintro ⟨finished, last, stands⟩
        refine ⟨finished, ?_, stands⟩
        -- The message would not have been read if the assembly had been finished before it.
        have some_record (only : messages = []) : answersOf message ≠ [] := by
          intro none_new
          rw [only, List.flatMap_nil] at all
          rw [none_new] at processed
          obtain rfl := (EStateM.Result.ok.inj all).2
          obtain rfl := (EStateM.Result.ok.inj processed).2
          exact running finished
        cases messages with
        | nil => simpa using some_record rfl
        | cons m messages => simpa using last

/-- Only messages that were read to their end and passed all checks lead to success, at least one
of them. They are taken from the stream octet for octet, and they are all that it has, or those up
to the one that completed the answer. -/
theorem success_vetted {τ : Type} [ZoneStorage τ] (faithful : Faithful At)
    (conclusive : Conclusive At) (config : TransferConfig) (request : TransferRequest)
    {server server' : Secondary τ} {s s' : σ} {outcome : Outcome} {before after : Octets}
    (stands : At s before after)
    (h : transfer config request (server, s) = .ok outcome (server', s')) :
    ∃ (messages : List Octets) (rest : Octets), messages ≠ [] ∧
      (∀ m ∈ messages, ∃ d : Dissection, d.Of m ∧ Passes request d) ∧
      after = messages.flatMap Framing.frame ++ rest ∧
      ((rest = [] ∧ ∃ last, At last (before ++ messages.flatMap Framing.frame) [] ∧
          Framing.read last = .ok none s') ∨
        CompletedBy (expectation config request) messages ∧
          At s' (before ++ messages.flatMap Framing.frame) rest) := by
  obtain ⟨received, count, receives, -⟩ := transfer_eq_ok h
  obtain ⟨a, taken, finished, -⟩ := receive_eq_ok receives
  obtain ⟨messages, rest, split, checked, processed, stopped⟩ := takeMessages_eq_ok faithful
    conclusive (Nat.lt_succ_of_le (conclusive.bound stands)) stands taken
  refine ⟨messages, rest, ?_, checked, split, ?_⟩
  · rintro rfl
    obtain rfl := (EStateM.Result.ok.inj processed).2
    simp [Assembly.finish] at finished
  · refine stopped.imp_right ?_
    rintro ⟨complete, last, stands⟩
    exact ⟨⟨⟨a, processed, complete⟩, Assembly.noneBehind_of_processAll processed, last⟩, stands⟩

/-- A connection that brings an answer in pieces, and octets behind it. -/
def rootConnection : InboundChannel :=
  let answer := Framing.frame (responseOf rootRequest
    [(rootSoa 10).record, (rootSoa 9).record, (rootSoa 10).record, (rootSoa 10).record])
  { arrivals :=
      [.chunk (answer.take 1), .failure .interrupted, .chunk (answer.drop 1 ++ [0, 9, 1])] }

theorem success_vetted_root :
    ∃ (outcome : Outcome) (server' : Secondary ZoneStore) (c : InboundChannel),
      transfer {} rootRequest ({ store := rootStore }, rootConnection) = .ok outcome (server', c) ∧
      ∃ (messages : List Octets) (rest : Octets), messages ≠ [] ∧
        (∀ m ∈ messages, ∃ d : Dissection, d.Of m ∧ Passes rootRequest d) ∧
        InboundChannel.incoming rootConnection.arrivals =
          messages.flatMap Framing.frame ++ rest ∧
        ((rest = [] ∧ ∃ last, InboundChannel.Awaits last ([] ++ messages.flatMap Framing.frame) [] ∧
            Framing.read last = .ok none c) ∨
          CompletedBy (expectation {} rootRequest) messages ∧
            c.Awaits ([] ++ messages.flatMap Framing.frame) rest) := by
  have succeeds : ∃ (outcome : Outcome) (server' : Secondary ZoneStore) (c : InboundChannel),
      transfer {} rootRequest (({ store := rootStore } : Secondary ZoneStore), rootConnection) =
        .ok outcome (server', c) := ⟨_, _, _, by cbv⟩
  obtain ⟨outcome, server', c, h⟩ := succeeds
  exact ⟨outcome, server', c, h, success_vetted InboundChannel.faithful InboundChannel.conclusive
    {} rootRequest ⟨rfl, rfl⟩ h⟩

end ZoneSync.Secondary
