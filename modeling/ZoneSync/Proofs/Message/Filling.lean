import ZoneSync.Proofs.Message.Building

/-!
Messages that hold a question, or none, and answers: what is pushed into a new message in order
makes exactly one message, or is refused.
-/

namespace ZoneSync.MessageBuilder

variable {header : Header} {question : Option Question} {records : List Record} {r : Record}
  {b b' : MessageBuilder} {limit : Nat}

/-- A new message, with the question if there is one. -/
def opened (header : Header) (question : Option Question) : Except PushError MessageBuilder :=
  match question with
  | some q => ({ header } : MessageBuilder).pushQuestion q
  | none => .ok { header }

/-- The message with the given answers behind its question. -/
def filled (header : Header) (question : Option Question) (records : List Record) :
    Except PushError MessageBuilder :=
  opened header question >>= fun b => records.foldlM pushAnswer b

theorem filled_eq_ok_iff : filled header question records = .ok b ↔
    ∃ new, opened header question = .ok new ∧ records.foldlM pushAnswer new = .ok b := by
  rw [filled]
  cases opened header question with
  | error e =>
      constructor
      · intro h
        cases h
      · rintro ⟨_, h, -⟩
        cases h
  | ok new =>
      constructor
      · intro h
        exact ⟨new, rfl, h⟩
      · rintro ⟨_, same, h⟩
        obtain rfl := Except.ok.inj same
        exact h

theorem filled_nil (h : opened header question = .ok b) : filled header question [] = .ok b :=
  filled_eq_ok_iff.mpr ⟨b, h, rfl⟩

theorem filled_concat (h : filled header question records = .ok b)
    (pushed : b.pushAnswer r = .ok b') : filled header question (records ++ [r]) = .ok b' := by
  obtain ⟨new, first, rest⟩ := filled_eq_ok_iff.mp h
  refine filled_eq_ok_iff.mpr ⟨new, first, ?_⟩
  rw [List.foldlM_append, rest]
  change [r].foldlM pushAnswer b = .ok b'
  rw [List.foldlM_cons, pushed]
  rfl

/-- The limit decides whether a record is taken, and not what becomes of the message. -/
theorem pushAnswer_of_within (h : b.pushAnswerWithin limit r = .ok b') :
    b.pushAnswer r = .ok b' := by
  obtain ⟨turn, few, size, same⟩ := push_eq_ok_iff.mp h
  have fits := Nat.le_trans size (Nat.min_le_right limit maxMessageLength)
  rw [pushAnswer, pushAnswerWithin, push_eq_ok_iff, Nat.min_self]
  exact ⟨turn, few, fits, same⟩

theorem length_le_of_within (h : b.pushAnswerWithin limit r = .ok b') : b'.length ≤ limit := by
  obtain ⟨-, -, size, rfl⟩ := push_eq_ok_iff.mp h
  exact Nat.le_trans size (Nat.min_le_left _ _)

/-- A message whose answers are all there so far. -/
structure Answers (header : Header) (question : Option Question) (records : List Record)
    (b : MessageBuilder) : Prop where
  header : b.header = header
  contains : b.Contains { questions := question.toList, answers := records }
  turn : b.current.index ≤ Section.answer.index

theorem answers_opened (h : opened header question = .ok b) : Answers header question [] b := by
  cases question with
  | none =>
      obtain rfl := Except.ok.inj h
      exact ⟨rfl, contains_new header, Nat.zero_le _⟩
  | some q =>
      rw [opened] at h
      have contains := (contains_new header).push_question h
      obtain ⟨-, -, -, rfl⟩ := push_eq_ok_iff.mp h
      exact ⟨rfl, contains, Nat.zero_le _⟩

theorem Answers.push (h : Answers header question records b)
    (pushed : b.pushAnswerWithin limit r = .ok b') :
    Answers header question (records ++ [r]) b' := by
  have contains := h.contains.push_answer pushed
  obtain ⟨-, -, -, rfl⟩ := push_eq_ok_iff.mp pushed
  exact ⟨h.header, contains, Nat.le_refl _⟩

/-- The limit makes no difference but that it may refuse a record for its size. -/
theorem Answers.within_cases (h : Answers header question records b) (limit : Nat) (r : Record) :
    b.pushAnswerWithin limit r = b.pushAnswer r ∨
      b.pushAnswerWithin limit r = .error .shortBuf := by
  cases within : b.pushAnswerWithin limit r with
  | ok b' => exact .inl (pushAnswer_of_within within).symm
  | error e =>
      obtain rfl := h.contains.push_answer_error h.turn within
      exact .inr rfl

theorem answers_foldlM {new : MessageBuilder} {earlier : List Record}
    (h : Answers header question earlier new) (filled : records.foldlM pushAnswer new = .ok b) :
    Answers header question (earlier ++ records) b := by
  induction records generalizing new earlier with
  | nil =>
      obtain rfl := Except.ok.inj filled
      rwa [List.append_nil]
  | cons r records ih =>
      rw [List.foldlM_cons] at filled
      cases pushed : new.pushAnswer r with
      | error e =>
          rw [pushed] at filled
          cases filled
      | ok next =>
          rw [pushed] at filled
          have whole := ih (h.push pushed) filled
          rwa [List.append_assoc] at whole

theorem answers_filled (h : filled header question records = .ok b) :
    Answers header question records b := by
  obtain ⟨new, first, rest⟩ := filled_eq_ok_iff.mp h
  exact answers_foldlM (answers_opened first) rest

/-- A question with any name leaves most of a message to the records. -/
theorem exists_push_question (header : Header) (q : Question) :
    ∃ b, ({ header } : MessageBuilder).pushQuestion q = .ok b ∧
      b.length ≤ preambleLength + q.wire.length := by
  have short := SuffixTable.length_compress_le [] preambleLength q.name
  have name_le := q.name.length_le
  simp only [Name.length, Name.wire] at short
  refine ⟨_, push_eq_ok_iff.mpr ⟨Nat.le_refl _, by simp [Counts.get, maxMessageLength], ?_, rfl⟩,
    ?_⟩
  · simp only [Question.wireBehind, List.nil_append, List.length_append, Octets.length_ofUInt16,
      preambleLength, maxMessageLength, length] at short ⊢
    simp only [List.length_nil, Nat.add_zero]
    omega
  · simp only [length, Question.wire, Question.wireBehind, List.nil_append, List.length_append,
      Octets.length_ofUInt16, Name.wire, List.length_nil, Nat.add_zero] at short ⊢
    omega

theorem exists_opened (header : Header) (question : Option Question) :
    ∃ b, opened header question = .ok b ∧
      b.length ≤ preambleLength + (question.toList.flatMap Question.wire).length := by
  cases question with
  | none => exact ⟨_, rfl, Nat.le_refl _⟩
  | some q => simpa [opened] using exists_push_question header q

/-- A record fits into the message behind the question. -/
def HasRoom (question : Option Question) (r : Record) : Prop :=
  preambleLength + (question.toList.flatMap Question.wire).length + r.length ≤ maxMessageLength

@[simp] theorem hasRoom_none :
    HasRoom none r ↔ preambleLength + r.length ≤ maxMessageLength := by
  simp [HasRoom]

@[simp] theorem hasRoom_some {q : Question} :
    HasRoom (some q) r ↔ preambleLength + q.wire.length + r.length ≤ maxMessageLength := by
  simp [HasRoom]

theorem exists_pushAnswer (new : opened header question = .ok b) (room : HasRoom question r) :
    ∃ b', b.pushAnswer r = .ok b' := by
  obtain ⟨other, same, short⟩ := exists_opened header question
  obtain rfl := Except.ok.inj (new.symm.trans same)
  have answers := answers_opened new
  exact answers.contains.exists_push_answer maxMessageLength answers.turn
    (by rw [Nat.min_self]; exact Nat.le_trans (Nat.add_le_add_right short _) room)

theorem not_hasRoom {e : PushError} (new : opened header question = .ok b)
    (refused : b.pushAnswer r = .error e) : ¬ HasRoom question r := by
  intro room
  obtain ⟨b', pushed⟩ := exists_pushAnswer new room
  rw [pushed] at refused
  cases refused

end ZoneSync.MessageBuilder
