import ZoneSync.Proofs.Message.Dissection
import ZoneSync.Proofs.Transfer.Assembling
import ZoneSync.Transfer.Secondary

/-!
What a message of an answer has to pass before its records count. A message that is taken in
has been read to its end, its header and its questions fit the request, and the assembly has
taken exactly the records of its answer section.
-/

namespace ZoneSync.Secondary

def answers : List (Section × Record) → List Record
  | [] => []
  | (.answer, r) :: later => r :: answers later
  | _ :: later => answers later

theorem takeEntries_eq (entries : List (Section × Record)) :
    takeEntries entries = Assembly.processAll (answers entries) := by
  induction entries with
  | nil => rfl
  | cons entry later ih =>
      obtain ⟨s, r⟩ := entry
      cases s with
      | answer =>
          simp only [takeEntries, answers, ih]
          rfl
      | question | authority | additional => exact ih

theorem answers_append (entries later : List (Section × Record)) :
    answers (entries ++ later) = answers entries ++ answers later := by
  induction entries with
  | nil => rfl
  | cons entry entries ih =>
      obtain ⟨s, r⟩ := entry
      cases s with
      | answer => exact congrArg _ ih
      | question | authority | additional => exact ih

theorem answers_tag (s : Section) (records : List Record) :
    answers (records.map (s, ·)) = if s = .answer then records else [] := by
  induction records with
  | nil => simp [answers]
  | cons r later ih => cases s <;> simp_all [answers]

theorem answers_dissection (d : Dissection) : answers d.entries = d.answers := by
  simp [Dissection.entries, answers_append, answers_tag]

/-- The records in the answer section of a message, as far as they can be read. -/
def answersOf (message : Octets) : List Record :=
  match MessageReader.ofOctets message with
  | .error _ => []
  | .ok reader =>
    match MessageReader.questions reader with
    | .error _ _ => []
    | .ok _ reader => answers reader.entries.1

theorem answersOf_eq {d : Dissection} {message : Octets} (h : d.Of message) :
    answersOf message = d.answers := by
  obtain ⟨r, r', opened, -, asked, whole⟩ := h.read
  simp only [answersOf, opened, asked, whole, answers_dissection]

/-- The message is a response to the request without an error, and it is whole. If it repeats
questions, they are that of the request. -/
structure Passes (request : TransferRequest) (d : Dissection) : Prop where
  isResponse : d.header.isResponse
  id : d.header.id = request.id
  opcode : d.header.opcode = .query
  responseCode : d.header.responseCode = .noError
  whole : d.header.isTruncated = false
  questions : ∀ q ∈ d.questions, q.name.same request.origin ∧ q.type = request.type.recordType

theorem checkHeader_eq_ok {request : TransferRequest} {h : Header} :
    checkHeader request h = .ok () ↔ h.isResponse ∧ h.id = request.id ∧ h.opcode = .query ∧
      h.responseCode = .noError ∧ h.isTruncated = false := by
  grind [checkHeader]

theorem passes_iff {request : TransferRequest} {d : Dissection} :
    Passes request d ↔
      checkHeader request d.header = .ok () ∧ d.questions.all (isAsked request) := by
  have asked : d.questions.all (isAsked request) ↔
      ∀ q ∈ d.questions, q.name.same request.origin ∧ q.type = request.type.recordType := by
    simp [isAsked]
  rw [checkHeader_eq_ok, asked]
  constructor
  · intro h
    exact ⟨⟨h.isResponse, h.id, h.opcode, h.responseCode, h.whole⟩, h.questions⟩
  · rintro ⟨⟨isResponse, id, opcode, responseCode, whole⟩, questions⟩
    exact ⟨isResponse, id, opcode, responseCode, whole, questions⟩

/-- Of a message that passes the checks the answer section is processed. -/
theorem takeMessage_of_passes {request : TransferRequest} {d : Dissection} {message : Octets}
    (h : d.Of message) (passes : Passes request d) (a : Assembly) :
    takeMessage request message a = match Assembly.processAll d.answers a with
      | .ok () b => .ok b
      | .error v _ => .error (.protocol v) := by
  obtain ⟨r, r', opened, header, asked, whole⟩ := h.read
  obtain ⟨checked, questions⟩ := passes_iff.mp passes
  rw [← header] at checked
  simp only [takeMessage, opened, checked, asked, questions, whole, takeEntries_eq,
    answers_dissection]
  cases Assembly.processAll d.answers a <;> rfl

/-- Only messages that pass the checks and are read to their end are taken in. -/
theorem takeMessage_eq_ok_iff {request : TransferRequest} {message : Octets} {a b : Assembly} :
    takeMessage request message a = .ok b ↔ ∃ d : Dissection, d.Of message ∧ Passes request d ∧
      Assembly.processAll d.answers a = .ok () b := by
  constructor
  · intro h
    rw [takeMessage] at h
    split at h
    · simp at h
    · rename_i reader opened
      split at h
      · simp at h
      · rename_i checked
        split at h
        · simp at h
        · rename_i questions reader' asked
          split at h
          · simp at h
          · rename_i questioned
            dsimp only at h
            split at h
            · simp at h
            · simp at h
            · rename_i taken whole
              obtain rfl := Except.ok.inj h
              obtain ⟨d, of, header, rfl, entries⟩ :=
                Dissection.exists_of opened asked (Prod.ext rfl whole)
              refine ⟨d, of, passes_iff.mpr ⟨?_, by simpa using questioned⟩, ?_⟩
              · rwa [header]
              · rw [← answers_dissection, ← takeEntries_eq, entries]
                exact taken
  · rintro ⟨d, of, passes, processed⟩
    rw [takeMessage_of_passes of passes, processed]

theorem processAll_of_takeMessage {request : TransferRequest} {message : Octets}
    {a b : Assembly} (h : takeMessage request message a = .ok b) :
    Assembly.processAll (answersOf message) a = .ok () b := by
  obtain ⟨d, of, -, processed⟩ := takeMessage_eq_ok_iff.mp h
  rwa [answersOf_eq of]

end ZoneSync.Secondary
