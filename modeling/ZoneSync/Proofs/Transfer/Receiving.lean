import ZoneSync.Proofs.Stream.Delivery
import ZoneSync.Proofs.Transfer.Checking
import ZoneSync.Proofs.Transfer.Recognition

/-!
Taking in an answer message by message. However it is cut, what the assembly has processed in
the end is one sequence of records. It is what the messages carry, from the first record on; only
an answer that is complete leaves some of it.
-/

namespace ZoneSync.Secondary

variable {σ : Type} [ReadStream σ]

theorem takeMessages_finished {request : TransferRequest} {rounds : Nat} {a : Assembly} {s : σ}
    (h : a.isFinished) : takeMessages request (rounds + 1) a s = .ok a s := by
  rw [takeMessages, if_pos h]
  rfl

theorem takeMessages_end {request : TransferRequest} {rounds : Nat} {a : Assembly} {s s' : σ}
    (running : ¬ a.isFinished) (ended : Framing.read s = .ok none s') :
    takeMessages request (rounds + 1) a s = .ok a s' := by
  have silent : (Framing.read.adaptExcept TransferFault.stream) s = .ok none s' :=
    adaptExcept_eq_ok.mpr ended
  rw [takeMessages, if_neg running, bind_of_ok silent]
  rfl

theorem takeMessages_failed {request : TransferRequest} {rounds : Nat} {a : Assembly} {s s' : σ}
    {e : StreamError} (running : ¬ a.isFinished) (failed : Framing.read s = .error e s') :
    takeMessages request (rounds + 1) a s = .error (.stream e) s' := by
  rw [takeMessages, if_neg running]
  refine bind_of_error ?_
  rw [EStateM.adaptExcept, failed]

theorem takeMessages_message {request : TransferRequest} {rounds : Nat} {a : Assembly}
    {s middle : σ} {message : Octets} (running : ¬ a.isFinished)
    (got : Framing.read s = .ok (some message) middle) :
    takeMessages request (rounds + 1) a s = match takeMessage request message a with
      | .ok next => takeMessages request rounds next middle
      | .error fault => .error fault middle := by
  have found : (Framing.read.adaptExcept TransferFault.stream) s = .ok (some message) middle :=
    adaptExcept_eq_ok.mpr got
  rw [takeMessages, if_neg running, bind_of_ok found]
  dsimp only
  cases takeMessage request message a <;> rfl

/-- What one round of reading can do: nothing, find the end of the stream, or take a message. -/
theorem takeMessages_succ {request : TransferRequest} {rounds : Nat} {a b : Assembly} {s s' : σ}
    (h : takeMessages request (rounds + 1) a s = .ok b s') :
    (a.isFinished ∧ a = b ∧ s = s') ∨ ¬ a.isFinished ∧ ((Framing.read s = .ok none s' ∧ a = b) ∨
      ∃ message middle next, Framing.read s = .ok (some message) middle ∧
        takeMessage request message a = .ok next ∧
        takeMessages request rounds next middle = .ok b s') := by
  by_cases finished : a.isFinished
  · rw [takeMessages_finished finished] at h
    obtain ⟨rfl, rfl⟩ := EStateM.Result.ok.inj h
    exact .inl ⟨finished, rfl, rfl⟩
  · refine .inr ⟨finished, ?_⟩
    rw [takeMessages, if_neg finished] at h
    obtain ⟨found, middle, got, h⟩ := bind_eq_ok.mp h
    rw [adaptExcept_eq_ok] at got
    cases found with
    | none =>
        obtain ⟨same, rfl⟩ := EStateM.Result.ok.inj h
        exact .inl ⟨got, same⟩
    | some message =>
        cases taken : takeMessage request message a with
        | error fault => simp [taken, throw_eq] at h
        | ok next =>
            simp only [taken] at h
            exact .inr ⟨message, middle, next, got, taken, h⟩

theorem processAll_of_takeMessages {request : TransferRequest} {rounds : Nat} {a b : Assembly}
    {s s' : σ} (h : takeMessages request rounds a s = .ok b s') :
    ∃ records, Assembly.processAll records a = .ok () b := by
  induction rounds generalizing a s with
  | zero =>
      obtain ⟨rfl, -⟩ := EStateM.Result.ok.inj h
      exact ⟨[], rfl⟩
  | succ rounds ih =>
      rcases takeMessages_succ h with
        ⟨-, rfl, -⟩ | ⟨-, ⟨-, rfl⟩ | ⟨message, middle, next, -, taken, h⟩⟩
      · exact ⟨[], rfl⟩
      · exact ⟨[], rfl⟩
      · have first := processAll_of_takeMessage taken
        obtain ⟨later, rest⟩ := ih h
        exact ⟨_, Assembly.processAll_append.mpr ⟨next, first, rest⟩⟩

/-- What has been received once no more messages are taken in. -/
def conclude :
    EStateM.Result TransferFault σ Assembly → EStateM.Result TransferFault σ (Received × Nat)
  | .error fault s => .error fault s
  | .ok a s =>
    match a.finish with
    | .error v => .error (.protocol v) s
    | .ok received => .ok (received, a.count) s

theorem receive_eq_conclude (config : TransferConfig) (request : TransferRequest) (s : σ) :
    receive config request s = conclude (takeMessages request (ReadStream.available s + 1)
      { expectation := expectation config request } s) := by
  rw [receive, get_bind]
  cases taken : takeMessages request (ReadStream.available s + 1)
      { expectation := expectation config request } s with
  | error fault s' => exact bind_of_error taken
  | ok a s' =>
      rw [bind_of_ok taken, conclude]
      cases a.finish <;> rfl

theorem receive_eq_ok {config : TransferConfig} {request : TransferRequest} {s s' : σ}
    {received : Received} {count : Nat}
    (h : receive config request s = .ok (received, count) s') :
    ∃ a, takeMessages request (ReadStream.available s + 1)
        { expectation := expectation config request } s = .ok a s' ∧
      a.finish = .ok received ∧ count = a.count := by
  rw [receive, get_bind] at h
  obtain ⟨a, middle, taken, h⟩ := bind_eq_ok.mp h
  cases finished : a.finish with
  | error v => simp [finished, throw_eq] at h
  | ok result =>
      simp only [finished] at h
      obtain ⟨same, rfl⟩ := EStateM.Result.ok.inj h
      obtain ⟨rfl, rfl⟩ := Prod.mk.inj same
      exact ⟨a, taken, finished, rfl⟩

/-- What is received is what the grammar says of the records that came. -/
theorem answer_of_receive {config : TransferConfig} {request : TransferRequest} {s s' : σ}
    {received : Received} {count : Nat}
    (h : receive config request s = .ok (received, count) s') :
    ∃ records, Answer (expectation config request) records received ∧ count = records.length := by
  obtain ⟨a, taken, finished, rfl⟩ := receive_eq_ok h
  obtain ⟨records, processed⟩ := processAll_of_takeMessages taken
  have counted : a.count = records.length := by
    obtain ⟨p, -, rfl⟩ := Assembly.processAll_eq_ok processed
    simp
  have assembled := (Assembly.assemble_of_processAll processed).trans finished
  exact ⟨records, (Assembly.answer_of_assemble assembled).1, counted⟩

theorem take_first_unfinished {e : Expectation} {r : Record} {result : Received} :
    Assembly.take e r .awaitingFirst ≠ .ok (.finished result) := by
  intro h
  rcases Assembly.take_eq_ok.mp h with ⟨-, other⟩ | ⟨found, -, -, opened⟩
  · simp [Assembly.takeOther] at other
  · simp only [Assembly.takeSoa] at opened
    split at opened
    · split at opened <;> simp at opened
    · simp at opened

/-- After a single record more may always follow. -/
theorem length_of_isFinished {e : Expectation} {records : List Record} {a : Assembly}
    (h : Assembly.processAll records { expectation := e } = .ok () a) (finished : a.isFinished) :
    2 ≤ records.length := by
  obtain ⟨p, taken, rfl⟩ := Assembly.processAll_eq_ok h
  obtain ⟨result, rfl⟩ : ∃ result, p = .finished result := by
    cases p with
    | finished result => exact ⟨result, rfl⟩
    | awaitingFirst | awaitingSecond _ | collecting _ _ | removing _ _ _ | adding _ _
    | betweenDiffs _ _ | aborted => simp [Assembly.isFinished] at finished
  cases records with
  | nil => simp at taken
  | cons r later =>
      cases later with
      | nil =>
          rw [Assembly.takeAll_cons] at taken
          cases first : Assembly.take e r .awaitingFirst with
          | error v => simp [first, Except.bind] at taken
          | ok p =>
              simp only [first, Except.bind, Assembly.takeAll_nil, Except.ok.injEq] at taken
              exact absurd (first.trans (congrArg Except.ok taken)) take_first_unfinished
      | cons => simp

variable {At : σ → Octets → Octets → Prop}

/-- The framed messages of a stream are taken in from the first on, until the answer is complete
or the stream ends. -/
theorem takeMessages_frames (source : Source At) (ends : Ends At) {request : TransferRequest}
    {messages : List Octets} (sizes : ∀ m ∈ messages, m.length ≤ 65535) {rounds : Nat}
    (enough : messages.length < rounds) {a b : Assembly} {s s' : σ} {before : Octets}
    (stands : At s before (messages.flatMap Framing.frame))
    (h : takeMessages request rounds a s = .ok b s') :
    ∃ taken, taken <+: messages.flatMap answersOf ∧ Assembly.processAll taken a = .ok () b ∧
      (taken = messages.flatMap answersOf ∨ b.isFinished) := by
  induction messages generalizing rounds a s before with
  | nil =>
      obtain ⟨rounds, rfl⟩ := Nat.exists_eq_succ_of_ne_zero (Nat.ne_of_gt enough)
      obtain ⟨silent, ended⟩ := Framing.read_end ends stands
      rcases takeMessages_succ h with
        ⟨-, rfl, -⟩ | ⟨-, ⟨-, rfl⟩ | ⟨message, middle, next, got, -⟩⟩
      · exact ⟨[], List.prefix_refl _, rfl, .inl rfl⟩
      · exact ⟨[], List.prefix_refl _, rfl, .inl rfl⟩
      · simp [ended] at got
  | cons message later ih =>
      obtain ⟨rounds, rfl⟩ := Nat.exists_eq_succ_of_ne_zero
        (Nat.ne_of_gt (Nat.zero_lt_of_lt enough))
      obtain ⟨size, sizes⟩ := List.forall_mem_cons.mp sizes
      rw [List.flatMap_cons] at stands ⊢
      obtain ⟨behind, first, stands⟩ := Framing.yields_read source size s _ stands
      rcases takeMessages_succ h with
        ⟨finished, rfl, -⟩ | ⟨-, ⟨ended, -⟩ | ⟨found, middle, next, got, took, h⟩⟩
      · exact ⟨[], List.nil_prefix, rfl, .inr finished⟩
      · simp [first] at ended
      · rw [first, EStateM.Result.ok.injEq, Option.some.injEq] at got
        obtain ⟨rfl, rfl⟩ := got
        obtain ⟨taken, part, rest, whole⟩ := ih sizes (Nat.lt_of_succ_lt_succ enough) stands h
        refine ⟨answersOf message ++ taken, ?_, ?_, ?_⟩
        · exact (List.prefix_append_right_inj _).mpr part
        · exact Assembly.processAll_append.mpr ⟨next, processAll_of_takeMessage took, rest⟩
        · exact whole.imp_left (congrArg _)

theorem length_le_frames (messages : List Octets) :
    messages.length ≤ (messages.flatMap Framing.frame).length := by
  induction messages with
  | nil => simp
  | cons message later ih =>
      simp only [List.flatMap_cons, Framing.frame, List.length_append, Octets.length_ofNat,
        List.length_cons]
      omega

/-- What is received from framed messages is the meaning of the records they carry, or of the
first of them, and then of two at least. -/
theorem assemble_of_receive (source : Source At) (ends : Ends At) {config : TransferConfig}
    {request : TransferRequest} {messages : List Octets}
    (sizes : ∀ m ∈ messages, m.length ≤ 65535) {received : Received} {count : Nat} {s s' : σ}
    {before : Octets} (stands : At s before (messages.flatMap Framing.frame))
    (h : receive config request s = .ok (received, count) s') :
    ∃ taken, taken <+: messages.flatMap answersOf ∧
      Assembly.assemble (expectation config request) taken = .ok received ∧
      (taken = messages.flatMap answersOf ∨ 2 ≤ taken.length) := by
  obtain ⟨a, took, finished, -⟩ := receive_eq_ok h
  have enough : messages.length < ReadStream.available s + 1 :=
    Nat.lt_succ_of_le (Nat.le_trans (length_le_frames messages) (ends.bound stands))
  obtain ⟨taken, part, processed, whole⟩ :=
    takeMessages_frames source ends sizes enough stands took
  refine ⟨taken, part, ?_, ?_⟩
  · exact (Assembly.assemble_of_processAll processed).trans finished
  · exact whole.imp_right (length_of_isFinished processed)

end ZoneSync.Secondary
