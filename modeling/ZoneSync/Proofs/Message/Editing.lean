import ZoneSync.Proofs.Message.Reading

/-!
Messages made by any sequence of calls. A call that is refused leaves no trace: the finished
message is read as the header that was set last and what the other calls have put in, in order.
-/

namespace ZoneSync

/-- A call that changes a message under construction. -/
inductive Edit where
  | question (q : Question)
  | answer (r : Record)
  | answerWithin (limit : Nat) (r : Record)
  | authority (r : Record)
  | header (change : Header → Header)

namespace Edit

def run (b : MessageBuilder) : Edit → Except PushError MessageBuilder
  | question q => b.pushQuestion q
  | answer r => b.pushAnswer r
  | answerWithin limit r => b.pushAnswerWithin limit r
  | authority r => b.pushAuthority r
  | header change => .ok { b with header := change b.header }

/-- The question that is put in, if there is one. -/
def questions : Edit → List Question
  | question q => [q]
  | _ => []

/-- The record that is put in, if there is one, with its section. -/
def entries : Edit → List (Section × Record)
  | answer r | answerWithin _ r => [(.answer, r)]
  | authority r => [(.authority, r)]
  | _ => []

def onHeader (h : Header) : Edit → Header
  | header change => change h
  | _ => h

end Edit

namespace MessageBuilder

def afterEdits (b : MessageBuilder) : List Edit → MessageBuilder
  | [] => b
  | e :: later =>
    match e.run b with
    | .ok b' => b'.afterEdits later
    | .error _ => b.afterEdits later

/-- The edits that are not refused. -/
def accepted (b : MessageBuilder) : List Edit → List Edit
  | [] => []
  | e :: later =>
    match e.run b with
    | .ok b' => e :: b'.accepted later
    | .error _ => b.accepted later

theorem accepted_sublist (b : MessageBuilder) (edits : List Edit) :
    (b.accepted edits).Sublist edits := by
  induction edits generalizing b with
  | nil => exact .slnil
  | cons e later ih =>
      rw [accepted]
      split
      · exact (ih _).cons_cons e
      · exact (ih b).cons e

theorem push_header {b b' : MessageBuilder} {target : Section} {limit : Nat} {name : Name}
    {behind : Octets → Octets} (h : b.push target limit name behind = .ok b') :
    b'.header = b.header := by
  obtain ⟨-, -, -, rfl⟩ := push_eq_ok_iff.mp h
  rfl

theorem header_of_run {b b' : MessageBuilder} {e : Edit} (h : e.run b = .ok b') :
    b'.header = e.onHeader b.header := by
  cases e with
  | question q => exact push_header (show b.pushQuestion q = .ok b' from h)
  | answer r => exact push_header (show b.pushAnswerWithin maxMessageLength r = .ok b' from h)
  | answerWithin limit r => exact push_header (show b.pushAnswerWithin limit r = .ok b' from h)
  | authority r => exact push_header (show b.pushAuthority r = .ok b' from h)
  | header change =>
      obtain rfl := Except.ok.inj h
      rfl

/-- The header is changed even where all pushes are refused. -/
theorem afterEdits_header (b : MessageBuilder) (edits : List Edit) :
    (b.afterEdits edits).header = edits.foldl Edit.onHeader b.header := by
  induction edits generalizing b with
  | nil => rfl
  | cons e later ih =>
      rw [afterEdits, List.foldl_cons]
      cases ran : e.run b with
      | ok b' =>
          dsimp only
          rw [ih, header_of_run ran]
      | error why =>
          have kept : e.onHeader b.header = b.header := by
            cases e with
            | question q | answer r | answerWithin limit r | authority r => rfl
            | header change => simp [Edit.run] at ran
          dsimp only
          rw [ih, kept]

/-- The message holds the questions, and behind them the records, each in its section. -/
def Holds (b : MessageBuilder) (questions : List Question) (entries : List (Section × Record)) :
    Prop :=
  ∃ c, b.Contains c ∧ c.questions = questions ∧ c.entries = entries

theorem Contains.withHeader {b : MessageBuilder} {c : Content} (h : b.Contains c)
    (header : Header) : ({ b with header } : MessageBuilder).Contains c :=
  ⟨h.question, h.answer, h.authority, h.additional, h.no_answers, h.no_authorities, h.size,
    h.names, h.layout⟩

variable {b b' : MessageBuilder} {questions : List Question} {entries : List (Section × Record)}

theorem Holds.push_answer (h : b.Holds questions entries) {limit : Nat} {r : Record}
    (pushed : b.pushAnswerWithin limit r = .ok b') :
    b'.Holds questions (entries ++ [(.answer, r)]) := by
  obtain ⟨c, contains, rfl, rfl⟩ := h
  obtain ⟨turn, -⟩ := push_eq_ok_iff.mp pushed
  have no_authorities := contains.no_authorities (Nat.lt_succ_of_le turn)
  refine ⟨_, contains.push_answer pushed, rfl, ?_⟩
  simp [Content.entries, no_authorities]

/-- What an edit puts in stands behind all that the message holds. -/
theorem Holds.edit (h : b.Holds questions entries) {e : Edit} (ran : e.run b = .ok b') :
    b'.Holds (questions ++ e.questions) (entries ++ e.entries) := by
  cases e with
  | question q =>
      obtain ⟨c, contains, rfl, rfl⟩ := h
      refine ⟨_, contains.push_question ran, rfl, ?_⟩
      simp [Content.entries, Edit.entries]
  | answer r => simpa [Edit.questions, Edit.entries] using h.push_answer ran
  | answerWithin limit r => simpa [Edit.questions, Edit.entries] using h.push_answer ran
  | authority r =>
      obtain ⟨c, contains, rfl, rfl⟩ := h
      refine ⟨_, contains.push_authority ran, ?_, ?_⟩
      · simp [Edit.questions]
      · simp [Content.entries, Edit.entries]
  | header change =>
      obtain ⟨c, contains, rfl, rfl⟩ := h
      obtain rfl := Except.ok.inj ran
      exact ⟨c, contains.withHeader _, by simp [Edit.questions], by simp [Edit.entries]⟩

theorem Holds.edits (h : b.Holds questions entries) (edits : List Edit) :
    (b.afterEdits edits).Holds (questions ++ (b.accepted edits).flatMap Edit.questions)
      (entries ++ (b.accepted edits).flatMap Edit.entries) := by
  induction edits generalizing b questions entries with
  | nil =>
      rw [accepted, List.flatMap_nil, List.flatMap_nil, List.append_nil, List.append_nil]
      exact h
  | cons e later ih =>
      rw [afterEdits, accepted]
      cases ran : e.run b with
      | ok b' =>
          dsimp only
          rw [List.flatMap_cons, List.flatMap_cons, ← List.append_assoc, ← List.append_assoc]
          exact ih (h.edit ran)
      | error why => exact ih h

theorem Holds.counts (h : b.Holds questions entries) :
    b.counts = {
      question := questions.length
      answer := entries.countP fun entry => entry.1 = .answer
      authority := entries.countP fun entry => entry.1 = .authority } := by
  obtain ⟨c, contains, rfl, rfl⟩ := h
  have question := contains.question
  have answer := contains.answer
  have authority := contains.authority
  have additional := contains.additional
  cases hb : b.counts with
  | mk q a n x =>
      rw [hb] at question answer authority additional
      simp_all [Content.entries, List.countP_map, Function.comp_def]

/-- Whatever calls are made, the finished message is not too long, and it is read as the header
and the entries that the calls have left in it, and nothing is behind them. -/
theorem read_afterEdits (header : Header) (edits : List Edit)
    (typed : ∀ e ∈ edits, ∀ entry ∈ e.entries, entry.2.WellTyped) :
    let b := ({ header } : MessageBuilder).afterEdits edits
    let accepted := ({ header } : MessageBuilder).accepted edits
    let questions := accepted.flatMap Edit.questions
    let entries := accepted.flatMap Edit.entries
    b.finish.length ≤ 65535 ∧ ∃ reader behind last,
      MessageReader.ofOctets b.finish = .ok reader ∧
      reader.header = edits.foldl Edit.onHeader header ∧
      reader.counts = {
        question := questions.length
        answer := entries.countP fun entry => entry.1 = .answer
        authority := entries.countP fun entry => entry.1 = .authority } ∧
      MessageReader.questions reader = .ok questions behind ∧
      MessageReader.Reads behind entries last ∧ last.remaining = 0 := by
  intro b accepted questions entries
  have new : ({ header } : MessageBuilder).Holds [] [] := ⟨{}, contains_new header, rfl, rfl⟩
  have holds : b.Holds questions entries := new.edits edits
  have counts := holds.counts
  obtain ⟨c, contains, asked, put⟩ := holds
  have content_typed : ∀ r ∈ c.answers ++ c.authorities, r.WellTyped := by
    intro r hr
    rw [← c.map_entries, put] at hr
    obtain ⟨entry, known, rfl⟩ := List.mem_map.mp hr
    obtain ⟨e, he, known⟩ := List.mem_flatMap.mp known
    exact typed e ((accepted_sublist _ edits).subset he) entry known
  obtain ⟨behind, last, read, reads, ended, -⟩ := contains.read content_typed
  rw [asked] at read
  rw [put] at reads
  exact ⟨contains.length_finish, b.reader, behind, last, contains.ofOctets_finish,
    afterEdits_header _ edits, counts, read, reads, ended⟩

/-- One record is refused for its size and one for its place. -/
theorem read_afterEdits_root :
    let question : Question := ⟨.root, .soa, .internet⟩
    let address (last : UInt8) : Record := ⟨.root, .internet, 60, .a ⟨[192, 0, 2, last], rfl⟩⟩
    let edits : List Edit := [.question question, .answer (address 1),
      .answerWithin 40 (address 2), .header fun h => { h with isResponse := true },
      .authority (address 3), .answer (address 4)]
    let b := ({ header := {} } : MessageBuilder).afterEdits edits
    ∃ reader behind last, MessageReader.ofOctets b.finish = .ok reader ∧
      reader.header = { isResponse := true } ∧
      reader.counts = { question := 1, answer := 1, authority := 1 } ∧
      MessageReader.questions reader = .ok [question] behind ∧
      MessageReader.Reads behind [(.answer, address 1), (.authority, address 3)] last ∧
      last.remaining = 0 := by
  intro question address edits b
  have typed : ∀ e ∈ edits, ∀ entry ∈ e.entries, entry.2.WellTyped := by
    simp [edits, Edit.entries, address, Record.WellTyped, RecordData.WellTyped]
  have accepted : ({ header := {} } : MessageBuilder).accepted edits = [.question question,
      .answer (address 1), .header fun h => { h with isResponse := true },
      .authority (address 3)] := by rfl
  obtain ⟨-, reader, behind, last, opened, header, counts, asked, reads, ended⟩ :=
    read_afterEdits {} edits typed
  rw [accepted] at counts asked reads
  exact ⟨reader, behind, last, opened, header, counts, asked, reads, ended⟩

end MessageBuilder
end ZoneSync
