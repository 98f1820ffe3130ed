import ZoneSync.Proofs.Transfer.Receiving

/-!
Messages that carry the records of an answer. If all of them pass the checks, what is received
from them depends on the records alone, unless the answer is complete before its last record.
-/

namespace ZoneSync

namespace Assembly

/-- A part of the records is an answer to its last record, whatever comes behind it. -/
def FinishesWith (part : List Record) (a : Assembly) : Prop :=
  ∃ b, processAll part a = .ok () b ∧ b.isFinished

/-- No record of an answer stands behind its last one. -/
def NoneBehind (records : List Record) (a : Assembly) : Prop :=
  ∀ part, part <+: records → part ≠ records → ¬ FinishesWith part a

theorem NoneBehind.later {records later : List Record} {a b : Assembly}
    (h : NoneBehind (records ++ later) a) (processed : processAll records a = .ok () b) :
    NoneBehind later b := by
  rintro part inside strict ⟨c, more, finished⟩
  refine h (records ++ part) ?_ ?_ ⟨c, processAll_append.mpr ⟨b, processed, more⟩, finished⟩
  · exact (List.prefix_append_right_inj records).mpr inside
  · intro same
    exact strict (List.append_cancel_left same)

/-- Behind a finished answer only an empty part can come. -/
theorem NoneBehind.eq_nil {records : List Record} {a : Assembly} (h : NoneBehind records a)
    (finished : a.isFinished) : records = [] := by
  by_contra some_record
  exact h [] List.nil_prefix (Ne.symm some_record) ⟨a, rfl, finished⟩

/-- An assembly that takes another record is not finished. -/
theorem isFinished_of_process {r : Record} {a b : Assembly}
    (h : process r a = .ok () b) : a.isFinished = false := by
  obtain ⟨p, taken, -⟩ := process_eq_ok h
  rw [isFinished]
  split
  · rename_i result finished
    rw [finished] at taken
    rcases take_eq_ok.mp taken with ⟨-, h⟩ | ⟨found, -, -, h⟩ <;> simp [takeOther, takeSoa] at h
  · rfl

/-- Behind the last record of an answer none is taken, so it comes last among records that are
all taken. -/
theorem noneBehind_of_processAll {records : List Record} {a b : Assembly}
    (h : processAll records a = .ok () b) : NoneBehind records a := by
  rintro part ⟨later, rfl⟩ strict ⟨c, processed, finished⟩
  obtain ⟨c', same, more⟩ := processAll_append.mp h
  obtain rfl : c = c' := (EStateM.Result.ok.inj (processed.symm.trans same)).2
  cases later with
  | nil => exact strict (List.append_nil part).symm
  | cons r later =>
      obtain ⟨_, _, taken, -⟩ := bind_eq_ok.mp more
      rw [isFinished_of_process taken] at finished
      exact Bool.noConfusion finished

theorem noneBehind_of_assemble {e : Expectation} {records : List Record} {received : Received}
    (h : assemble e records = .ok received) : NoneBehind records { expectation := e } := by
  cases processed : processAll records { expectation := e } with
  | error v a => simp [assemble, processed] at h
  | ok _ a => exact noneBehind_of_processAll processed

end Assembly

namespace Secondary

/-- All messages pass the checks of the request, and the records of their answer sections, one
message behind the other, are the given ones. -/
inductive Carries (request : TransferRequest) : List Octets → List Record → Prop
  | nil : Carries request [] []
  | cons {d : Dissection} {message : Octets} {messages : List Octets} {records : List Record}
      (size : message.length ≤ 65535) (here : d.Of message) (passes : Passes request d)
      (later : Carries request messages records) :
      Carries request (message :: messages) (d.answers ++ records)

theorem Carries.append {request : TransferRequest} {messages later : List Octets}
    {records more : List Record} (first : Carries request messages records)
    (rest : Carries request later more) :
    Carries request (messages ++ later) (records ++ more) := by
  induction first with
  | nil => exact rest
  | cons size here passes _ ih =>
      rw [List.append_assoc]
      exact .cons size here passes ih

variable {σ : Type} [ReadStream σ] {At : σ → Octets → Octets → Prop}

/-- The records of the messages are processed as if they came in one piece. -/
theorem takeMessages_of_carries (source : Source At) (ends : Ends At) {request : TransferRequest}
    {messages : List Octets} {records : List Record} (carries : Carries request messages records)
    {rounds : Nat} (enough : messages.length < rounds) {a : Assembly} {s : σ} {before : Octets}
    (none_behind : Assembly.NoneBehind records a)
    (stands : At s before (messages.flatMap Framing.frame)) :
    ∃ s', takeMessages request rounds a s = match Assembly.processAll records a with
      | .ok () b => .ok b s'
      | .error v _ => .error (.protocol v) s' := by
  induction carries generalizing rounds a s before with
  | nil =>
      obtain ⟨rounds, rfl⟩ := Nat.exists_eq_succ_of_ne_zero (Nat.ne_of_gt enough)
      by_cases finished : a.isFinished
      · exact ⟨s, takeMessages_finished finished⟩
      · obtain ⟨s', ended⟩ := Framing.read_end ends stands
        exact ⟨s', takeMessages_end finished ended⟩
  | @cons d message messages records size here passes _ ih =>
      obtain ⟨rounds, rfl⟩ := Nat.exists_eq_succ_of_ne_zero
        (Nat.ne_of_gt (Nat.zero_lt_of_lt enough))
      rw [Assembly.processAll_append_eq]
      by_cases finished : a.isFinished
      · have none_left := none_behind.eq_nil finished
        obtain ⟨no_answers, no_records⟩ := List.append_eq_nil_iff.mp none_left
        rw [no_answers, no_records]
        exact ⟨s, takeMessages_finished finished⟩
      · rw [List.flatMap_cons] at stands
        obtain ⟨middle, got, stands⟩ := Framing.yields_read source size s _ stands
        rw [takeMessages_message finished got, takeMessage_of_passes here passes]
        cases processed : Assembly.processAll d.answers a with
        | error v b => exact ⟨middle, by rw [bind_of_error processed]⟩
        | ok _ b =>
            rw [bind_of_ok processed]
            exact ih (Nat.lt_of_succ_lt_succ enough) (none_behind.later processed) stands

/-- What is received is what the assembly makes of the records. -/
theorem receive_of_carries (source : Source At) (ends : Ends At) {config : TransferConfig}
    {request : TransferRequest} {messages : List Octets} {records : List Record}
    (carries : Carries request messages records) {s : σ} {before : Octets}
    (none_behind : Assembly.NoneBehind records { expectation := expectation config request })
    (stands : At s before (messages.flatMap Framing.frame)) :
    ∃ s', receive config request s =
      match Assembly.assemble (expectation config request) records with
      | .ok received => .ok (received, records.length) s'
      | .error v => .error (.protocol v) s' := by
  have enough : messages.length < ReadStream.available s + 1 :=
    Nat.lt_succ_of_le (Nat.le_trans (length_le_frames messages) (ends.bound stands))
  obtain ⟨s', taken⟩ := takeMessages_of_carries source ends carries enough none_behind stands
  refine ⟨s', ?_⟩
  rw [receive, get_bind, Assembly.assemble]
  cases processed : Assembly.processAll records { expectation := expectation config request } with
  | error v b =>
      rw [processed] at taken
      rw [bind_of_error taken]
  | ok _ b =>
      rw [processed] at taken
      rw [bind_of_ok taken, ← Assembly.count_of_processAll processed]
      dsimp only
      cases b.finish <;> rfl

end Secondary
end ZoneSync
