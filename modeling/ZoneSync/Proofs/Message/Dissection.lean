import ZoneSync.Message.Reader
import ZoneSync.Proofs.Step

/-!
What a message holds, from its header to its last entry. A reader that meets no fault finds
exactly the entries that its counts announce, each behind the one before.
-/

namespace ZoneSync

/-- A step is taken time after time, from where it has stopped before, and returns the given
values. -/
inductive InTurn {ε σ α : Type} (step : EStateM ε σ α) : σ → List α → σ → Prop
  | nil {s : σ} : InTurn step s [] s
  | cons {s middle last : σ} {a : α} {later : List α} (first : step s = .ok a middle)
      (rest : InTurn step middle later last) : InTurn step s (a :: later) last

theorem InTurn.cons_iff {ε σ α : Type} {step : EStateM ε σ α} {s last : σ} {a : α}
    {later : List α} : InTurn step s (a :: later) last ↔
      ∃ middle, step s = .ok a middle ∧ InTurn step middle later last := by
  constructor
  · intro h
    cases h with
    | cons first rest => exact ⟨_, first, rest⟩
  · rintro ⟨middle, first, rest⟩
    exact .cons first rest

/-- The sections of the entries that come behind a section. -/
def Counts.behind (c : Counts) : Section → List Section
  | .question => .replicate c.answer .answer ++ (.replicate c.authority .authority ++
      .replicate c.additional .additional)
  | .answer => .replicate c.authority .authority ++ .replicate c.additional .additional
  | .authority => .replicate c.additional .additional
  | .additional => []

theorem Counts.behind_of_next? (c : Counts) {s later : Section} (h : s.next? = some later) :
    c.behind s = .replicate (c.get later) later ++ c.behind later := by
  cases s <;> cases h
  · rfl
  · rfl
  · exact (List.append_nil _).symm

theorem Counts.length_behind (c : Counts) (s : Section) :
    (c.behind s).length ≤ c.answer + c.authority + c.additional := by
  cases s <;> simp only [behind, List.length_append, List.length_replicate, List.length_nil] <;>
    omega

theorem length_of_readPreamble {message : Octets} {parts : Header × Counts}
    (h : readPreamble message = .ok parts) : preambleLength ≤ message.length := by
  unfold readPreamble at h
  split at h
  · exact Nat.le_add_left _ _
  · cases h

namespace MessageReader

/-- The sections of the entries that are left to come. -/
def pending (r : MessageReader) : List Section :=
  .replicate r.left r.current ++ r.counts.behind r.current

theorem pending_advance {r : MessageReader} (h : r.left = 0) : r.advance.pending = r.pending := by
  rw [advance]
  split
  · rename_i later next
    rw [pending, pending, h, r.counts.behind_of_next? next, List.replicate_zero, List.nil_append]
  · rfl

@[simp] theorem pending_settle (rounds : Nat) (r : MessageReader) :
    (settle rounds r).pending = r.pending := by
  induction rounds generalizing r with
  | zero => rfl
  | succ rounds ih =>
      rw [settle]
      split
      · rename_i none_left
        rw [ih, pending_advance none_left]
      · rfl

@[simp] theorem advance_stream (r : MessageReader) : r.advance.stream = r.stream := by
  rw [advance]
  split <;> rfl

@[simp] theorem settle_stream (rounds : Nat) (r : MessageReader) :
    (settle rounds r).stream = r.stream := by
  induction rounds generalizing r with
  | zero => rfl
  | succ rounds ih =>
      rw [settle]
      split
      · rw [ih, advance_stream]
      · rfl

theorem current_advance_ne (r : MessageReader) : r.advance.current ≠ .question := by
  rw [advance]
  cases current : r.current <;> simp [Section.next?, current]

theorem current_settle_ne {r : MessageReader} (h : r.current ≠ .question) (rounds : Nat) :
    (settle rounds r).current ≠ .question := by
  induction rounds generalizing r with
  | zero => exact h
  | succ rounds ih =>
      rw [settle]
      split
      · exact ih (current_advance_ne r)
      · exact h

/-- If nothing is left in the section that is settled on, it is the last one. -/
theorem current_settle {rounds : Nat} {r : MessageReader} (enough : 3 ≤ r.current.index + rounds)
    (h : (settle rounds r).left = 0) : (settle rounds r).current = .additional := by
  induction rounds generalizing r with
  | zero =>
      cases current : r.current with
      | additional => exact current
      | question | answer | authority => simp [current, Section.index] at enough
  | succ rounds ih =>
      rw [settle] at h ⊢
      split at h
      · rename_i none_left
        rw [if_pos none_left]
        refine ih ?_ h
        rw [advance]
        cases current : r.current <;> simp [current, Section.index, Section.next?] at enough ⊢ <;>
          omega
      · contradiction

theorem onStream_of_ok {ε α : Type} {step : EStateM ε MemoryReader α} {r : MessageReader} {a : α}
    {s : MemoryReader} (h : step r.stream = .ok a s) :
    onStream step r = .ok a { r with stream := s } := by
  simp [onStream, h]

theorem onStream_eq_ok {ε α : Type} {step : EStateM ε MemoryReader α} {r r' : MessageReader}
    {a : α} (h : onStream step r = .ok a r') :
    ∃ s, step r.stream = .ok a s ∧ r' = { r with stream := s } := by
  rw [onStream] at h
  split at h
  · rename_i taken
    obtain ⟨rfl, rfl⟩ := EStateM.Result.ok.inj h
    exact ⟨_, taken, rfl⟩
  · cases h

theorem takeQuestions_of_inTurn {r : MessageReader} {qs : List Question} {s : MemoryReader}
    (left : r.left = qs.length) (h : InTurn Question.read r.stream qs s) :
    takeQuestions qs.length r = .ok qs { r with left := 0, stream := s } := by
  induction qs generalizing r with
  | nil =>
      cases h with
      | nil =>
          rw [List.length_nil] at left
          rw [← left]
          rfl
  | cons q later ih =>
      cases h with
      | @cons _ middle _ _ _ first rest =>
          have taken : within (later.length + 1) 0 (onStream Question.read) r =
              .ok q { r with stream := middle } := by
            rw [within, adaptExcept_eq_ok]
            exact onStream_of_ok first
          have more := ih (r := { r with left := later.length, stream := middle }) rfl rest
          rw [List.length_cons, takeQuestions, bind_of_ok taken]
          exact (bind_of_ok more).trans rfl

theorem inTurn_of_takeQuestions {number : Nat} {r r' : MessageReader} {qs : List Question}
    (left : r.left = number) (h : takeQuestions number r = .ok qs r') :
    qs.length = number ∧ ∃ s, InTurn Question.read r.stream qs s ∧
      r' = { r with left := 0, stream := s } := by
  induction number generalizing r qs with
  | zero =>
      obtain ⟨rfl, rfl⟩ := EStateM.Result.ok.inj h
      refine ⟨rfl, r.stream, .nil, ?_⟩
      rw [← left]
  | succ number ih =>
      obtain ⟨q, middle, first, h⟩ := bind_eq_ok.mp h
      rw [within, adaptExcept_eq_ok] at first
      obtain ⟨s, taken, rfl⟩ := onStream_eq_ok first
      obtain ⟨_, numbered, counted, h⟩ := bind_eq_ok.mp h
      obtain ⟨-, rfl⟩ := EStateM.Result.ok.inj counted
      obtain ⟨later, _, more, h⟩ := bind_eq_ok.mp h
      obtain ⟨rfl, rfl⟩ := EStateM.Result.ok.inj h
      obtain ⟨length, last, rest, rfl⟩ := ih rfl more
      exact ⟨congrArg _ length, last, .cons taken rest, rfl⟩

theorem questions_of_inTurn {r : MessageReader} {qs : List Question} {s : MemoryReader}
    (current : r.current = .question) (left : r.left = qs.length)
    (h : InTurn Question.read r.stream qs s) :
    questions r = .ok qs { r with current := .answer, left := r.counts.answer, stream := s } := by
  rw [questions, get_bind, if_pos current, left, bind_of_ok (takeQuestions_of_inTurn left h)]
  change EStateM.Result.ok qs (advance { r with left := 0, stream := s }) = _
  rw [advance, current]
  rfl

theorem inTurn_of_questions {r r' : MessageReader} {qs : List Question}
    (current : r.current = .question) (h : questions r = .ok qs r') :
    qs.length = r.left ∧ ∃ s, InTurn Question.read r.stream qs s ∧
      r' = { r with current := .answer, left := r.counts.answer, stream := s } := by
  rw [questions, get_bind, if_pos current] at h
  obtain ⟨_, middle, taken, h⟩ := bind_eq_ok.mp h
  obtain ⟨length, s, read, rfl⟩ := inTurn_of_takeQuestions rfl taken
  obtain ⟨_, last, advanced, h⟩ := bind_eq_ok.mp h
  obtain ⟨rfl, rfl⟩ := EStateM.Result.ok.inj h
  obtain ⟨-, rfl⟩ := EStateM.Result.ok.inj advanced
  refine ⟨length, s, read, ?_⟩
  rw [advance, current]
  rfl

theorem questions_of_current {r : MessageReader} (h : r.current ≠ .question) :
    questions r = .ok [] r := by
  rw [questions, get_bind, if_neg h]
  rfl

theorem header_of_questions {r r' : MessageReader} {qs : List Question}
    (h : questions r = .ok qs r') : r'.header = r.header := by
  by_cases current : r.current = .question
  · obtain ⟨-, s, -, rfl⟩ := inTurn_of_questions current h
    rfl
  · rw [questions_of_current current] at h
    obtain ⟨-, rfl⟩ := EStateM.Result.ok.inj h
    rfl

/-- The reading of a record behind its questions and the change of sections. -/
theorem next_eq {r : MessageReader} (h : r.current ≠ .question) :
    next r = (do
      let r ← get
      if r.left = 0 then return none
      else
        let record ← (onStream Record.read).adaptExcept fun
          | .stream .endOfStream => .stream (.truncated r.left 0)
          | e => e
        modify fun r => { r with left := r.left - 1 }
        return some (r.current, record) :
          EStateM RecordError MessageReader (Option (Section × Record))) (settle 3 r) := by
  have none_asked : (questions.adaptExcept RecordError.stream) r = .ok [] r :=
    adaptExcept_eq_ok.mpr (questions_of_current h)
  rw [next, bind_of_ok none_asked]
  rfl

theorem next_nothing {r : MessageReader} (behind : r.current ≠ .question) (h : r.pending = []) :
    next r = .ok none (settle 3 r) := by
  have none_left : (settle 3 r).left = 0 := by
    have settled := pending_settle 3 r
    rw [h, pending, List.append_eq_nil_iff, List.replicate_eq_nil_iff] at settled
    exact settled.1
  rw [next_eq behind, get_bind, if_pos none_left]
  rfl

/-- The section of the next record is the one that is settled on. -/
theorem settle_entry {r : MessageReader} {s : Section} {later : List Section}
    (h : r.pending = s :: later) :
    ∃ left, (settle 3 r).left = left + 1 ∧ (settle 3 r).current = s ∧
      ∀ stream, pending { settle 3 r with left, stream } = later := by
  have settled := pending_settle 3 r
  rw [h, pending] at settled
  cases number : (settle 3 r).left with
  | zero =>
      rw [number, current_settle (Nat.le_add_left 3 _) number] at settled
      cases settled
  | succ left =>
      rw [number, List.replicate_succ, List.cons_append, List.cons.injEq] at settled
      exact ⟨left, rfl, settled.1, fun stream => settled.2⟩

theorem next_entry {r : MessageReader} {s : Section} {later : List Section} {x : Record}
    {stream : MemoryReader} (behind : r.current ≠ .question) (h : r.pending = s :: later)
    (taken : Record.read r.stream = .ok x stream) :
    ∃ r', next r = .ok (some (s, x)) r' ∧ r'.current ≠ .question ∧ r'.pending = later ∧
      r'.stream = stream := by
  obtain ⟨left, some_left, current, pending⟩ := settle_entry h
  refine ⟨{ settle 3 r with left, stream }, ?_, current_settle_ne behind 3, pending stream, rfl⟩
  rw [← settle_stream 3 r] at taken
  have record (f : RecordError → RecordError) : (onStream Record.read).adaptExcept f
      (settle 3 r) = .ok x { settle 3 r with stream } :=
    adaptExcept_eq_ok.mpr (onStream_of_ok taken)
  rw [next_eq behind, get_bind, if_neg (by omega), bind_of_ok (record _)]
  change EStateM.Result.ok (some ((settle 3 r).current, x))
    { settle 3 r with left := (settle 3 r).left - 1, stream } = _
  rw [some_left, current, Nat.add_sub_cancel]

theorem next_fault {r : MessageReader} {s : Section} {later : List Section} {e : RecordError}
    {stream : MemoryReader} (behind : r.current ≠ .question) (h : r.pending = s :: later)
    (failed : Record.read r.stream = .error e stream) : ∃ e' r', next r = .error e' r' := by
  obtain ⟨left, some_left, -⟩ := settle_entry h
  have record (f : RecordError → RecordError) : (onStream Record.read).adaptExcept f
      (settle 3 r) = .error (f e) { settle 3 r with stream } := by
    simp [EStateM.adaptExcept, onStream, failed]
  rw [next_eq behind, get_bind, if_neg (by omega)]
  exact ⟨_, _, bind_of_error (record _)⟩

/-- The entries that are left are read without a fault exactly if their records can be read one
behind the other. -/
theorem take_eq_iff {number : Nat} {r : MessageReader} {entries : List (Section × Record)}
    (behind : r.current ≠ .question) (enough : r.pending.length < number) :
    take number r = (entries, none) ↔ entries.map (·.1) = r.pending ∧
      ∃ last, InTurn Record.read r.stream (entries.map (·.2)) last := by
  induction number generalizing r entries with
  | zero => omega
  | succ number ih =>
      cases h : r.pending with
      | nil =>
          have silent : take (number + 1) r = ([], none) := by
            rw [take, next_nothing behind h]
          rw [silent, Prod.mk.injEq, List.map_eq_nil_iff]
          constructor
          · rintro ⟨rfl, -⟩
            exact ⟨rfl, r.stream, .nil⟩
          · rintro ⟨rfl, -⟩
            exact ⟨rfl, rfl⟩
      | cons s later =>
          cases taken : Record.read r.stream with
          | error e stream =>
              obtain ⟨e', r', stopped⟩ := next_fault behind h taken
              have fault : take (number + 1) r = ([], some e') := by
                rw [take, stopped]
              rw [fault]
              constructor
              · nofun
              · rintro ⟨some_entry, last, read⟩
                cases entries with
                | nil => cases some_entry
                | cons entry entries =>
                    obtain ⟨middle, first, -⟩ := InTurn.cons_iff.mp read
                    simp [first] at taken
          | ok x stream =>
              obtain ⟨r', got, behind', rfl, rfl⟩ := next_entry behind h taken
              have more : take (number + 1) r =
                  ((s, x) :: (take number r').1, (take number r').2) := by
                rw [take, got]
              cases entries with
              | nil => simp [more]
              | cons entry entries =>
                  have rest : take number r' = (entries, none) ↔ _ :=
                    ih behind' (by simpa [h] using enough)
                  simp only [more, List.map_cons, InTurn.cons_iff, taken]
                  constructor
                  · intro whole
                    obtain ⟨whole, no_fault⟩ := Prod.mk.inj whole
                    obtain ⟨rfl, others⟩ := List.cons.inj whole
                    obtain ⟨sections, last, read⟩ := rest.mp (Prod.ext others no_fault)
                    exact ⟨congrArg _ sections, last, _, rfl, read⟩
                  · rintro ⟨sections, last, middle, first, read⟩
                    obtain ⟨same, sections⟩ := List.cons.inj sections
                    obtain ⟨rfl, rfl⟩ := EStateM.Result.ok.inj first
                    rw [rest.mpr ⟨sections, last, read⟩, ← same]

end MessageReader

/-- A message taken apart. -/
structure Dissection where
  header : Header
  questions : List Question
  answers : List Record
  authorities : List Record
  additionals : List Record

namespace Dissection

def counts (d : Dissection) : Counts where
  question := d.questions.length
  answer := d.answers.length
  authority := d.authorities.length
  additional := d.additionals.length

def records (d : Dissection) : List Record := d.answers ++ (d.authorities ++ d.additionals)

/-- The records with their sections. -/
def entries (d : Dissection) : List (Section × Record) :=
  d.answers.map (Section.answer, ·) ++ (d.authorities.map (Section.authority, ·) ++
    d.additionals.map (Section.additional, ·))

/-- The stream that stands behind the preamble of a message. -/
def body (message : Octets) : MemoryReader :=
  { data := message.toArray, position := preambleLength }

/-- A message has the given header and entries. Each section has as many of them as the counts
announce, and they are read one behind the other. -/
structure Of (d : Dissection) (message : Octets) : Prop where
  preamble : readPreamble message = .ok (d.header, d.counts)
  entries : ∃ middle last, InTurn Question.read (body message) d.questions middle ∧
    InTurn Record.read middle d.records last

theorem map_fst_entries (d : Dissection) :
    d.entries.map (·.1) = d.counts.behind .question := by
  simp [entries, counts, Counts.behind, Function.comp_def, List.map_const']

theorem map_snd_entries (d : Dissection) : d.entries.map (·.2) = d.records := by
  simp [entries, records, Function.comp_def]

/-- Entries of one section are told from their records. -/
theorem map_tag {s : Section} {n : Nat} {part : List (Section × Record)}
    (h : part.map (·.1) = .replicate n s) : (part.map (·.2)).map (s, ·) = part := by
  have tag entry (known : entry ∈ part) : (s, entry.2) = entry := by
    have same := List.mem_map_of_mem (f := (·.1)) known
    rw [h] at same
    exact Prod.ext (List.eq_of_mem_replicate same).symm rfl
  rw [List.map_map]
  exact (List.map_congr_left tag).trans (List.map_id part)

/-- Entries whose sections come in order are those of three lists. -/
theorem exists_entries {c : Counts} {entries : List (Section × Record)}
    (h : entries.map (·.1) = c.behind .question) (header : Header) {questions : List Question}
    (length : questions.length = c.question) :
    ∃ d : Dissection, d.header = header ∧ d.questions = questions ∧ d.counts = c ∧
      d.entries = entries := by
  obtain ⟨answers, others, rfl, first, rest⟩ := List.map_eq_append_iff.mp h
  obtain ⟨authorities, additionals, rfl, second, third⟩ := List.map_eq_append_iff.mp rest
  refine ⟨⟨header, questions, answers.map (·.2), authorities.map (·.2), additionals.map (·.2)⟩,
    rfl, rfl, ?_, ?_⟩
  · have counted {s : Section} {n : Nat} {part : List (Section × Record)}
        (h : part.map (·.1) = .replicate n s) : part.length = n := by
      simpa using congrArg List.length h
    simp only [counts, List.length_map, counted first, counted second, counted third, length]
  · simp only [Dissection.entries, map_tag first, map_tag second, map_tag third]

open MessageReader

variable {d : Dissection} {message : Octets}

/-- A message of known content is read without a fault, and as that content. -/
theorem Of.read (h : d.Of message) :
    ∃ r r', ofOctets message = .ok r ∧ r.header = d.header ∧
      MessageReader.questions r = .ok d.questions r' ∧ r'.entries = (d.entries, none) := by
  obtain ⟨middle, last, asked, read⟩ := h.entries
  refine ⟨_, _, by rw [ofOctets, h.preamble]; rfl, rfl, questions_of_inTurn rfl rfl asked, ?_⟩
  refine (take_eq_iff (by simp) ?_).mpr ⟨d.map_fst_entries, last, ?_⟩
  · exact Nat.lt_succ_of_le (d.counts.length_behind .question)
  · rw [map_snd_entries]
    exact read

/-- A message that is read without a fault has a content, and it is read as that. -/
theorem exists_of {r r' : MessageReader} {qs : List Question} {entries : List (Section × Record)}
    (opened : ofOctets message = .ok r) (asked : MessageReader.questions r = .ok qs r')
    (whole : r'.entries = (entries, none)) :
    ∃ d : Dissection, d.Of message ∧ d.header = r.header ∧ d.questions = qs ∧
      d.entries = entries := by
  rw [ofOctets] at opened
  cases preamble : readPreamble message with
  | error e => simp [preamble, Except.map] at opened
  | ok parts =>
      obtain ⟨header, counts⟩ := parts
      rw [preamble] at opened
      obtain rfl := Except.ok.inj opened
      obtain ⟨length, middle, read, rfl⟩ := inTurn_of_questions rfl asked
      obtain ⟨sections, last, records⟩ := (take_eq_iff (by simp)
        (Nat.lt_succ_of_le (counts.length_behind .question))).mp whole
      obtain ⟨d, rfl, rfl, rfl, rfl⟩ := exists_entries sections header length
      rw [map_snd_entries] at records
      exact ⟨d, ⟨preamble, middle, last, read, records⟩, rfl, rfl, rfl⟩

end Dissection
end ZoneSync
