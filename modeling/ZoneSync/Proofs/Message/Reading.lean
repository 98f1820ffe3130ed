import ZoneSync.Proofs.Message.Building
import ZoneSync.Proofs.Message.Dissection
import ZoneSync.Proofs.Record.Decoding

/-!
Taking a finished message apart gives back its header and its content, section by section. Of any
other message it is known that the records read have data of their types.
-/

namespace ZoneSync

namespace Header

theorem flag_eq {n : Nat} {flag : Bool} (h : n = flag.toNat) : decide (n = 1) = flag := by
  cases flag <;> simp [h]

theorem ofParts_wire (h : Header) :
    ofParts h.id
      (UInt8.ofNat (h.isResponse.toNat * 128 + h.opcodeBits.val * 8 +
        h.isAuthoritative.toNat * 4 + h.isTruncated.toNat * 2 + h.recursionDesired.toNat))
      (UInt8.ofNat (h.otherBits.val * 16 + h.responseBits.val)) = h := by
  obtain ⟨id, isResponse, opcode, isAuthoritative, isTruncated, recursionDesired, other,
    response⟩ := h
  have opcode_lt := opcode.isLt
  have other_lt := other.isLt
  have response_lt := response.isLt
  have flags := And.intro isResponse.toNat_le (And.intro isAuthoritative.toNat_le
    (And.intro isTruncated.toNat_le recursionDesired.toNat_le))
  simp only [ofParts, UInt8.toNat_ofNat', mk.injEq, Fin.ext_iff, Fin.val_ofNat, true_and]
  refine ⟨flag_eq ?_, ?_, flag_eq ?_, flag_eq ?_, flag_eq ?_, ?_, ?_⟩ <;> omega

end Header

def preamble (h : Header) (c : Counts) : Octets := h.wire ++ c.wire

theorem length_preamble (h : Header) (c : Counts) : (preamble h c).length = preambleLength := by
  simp [preamble, Header.wire, Counts.wire, preambleLength]

theorem toNat_ofNat_two {n : Nat} (h : n < maxMessageLength) :
    Octets.toNat [UInt8.ofNat (n / 256), UInt8.ofNat n] = n := by
  have spelled := Octets.toNat_ofNat 2 n
  simp only [maxMessageLength] at h
  rw [Nat.mod_eq_of_lt (by omega)] at spelled
  exact spelled

theorem readPreamble_preamble {h : Header} {c : Counts} (few : ∀ s, c.get s < maxMessageLength)
    (body : Octets) : readPreamble (preamble h c ++ body) = .ok (h, c) := by
  have id := Octets.toUInt16_ofUInt16 h.id
  have question := toNat_ofNat_two (few .question)
  have answer := toNat_ofNat_two (few .answer)
  have authority := toNat_ofNat_two (few .authority)
  have additional := toNat_ofNat_two (few .additional)
  simp only [Octets.ofUInt16, Octets.ofNat, List.nil_append, List.cons_append] at id
  simp only [Counts.get] at question answer authority additional
  simp only [preamble, Header.wire, Counts.wire, Octets.ofUInt16, Octets.ofNat, List.nil_append,
    List.cons_append, readPreamble, id, question, answer, authority, additional,
    Header.ofParts_wire]

namespace Content

def entries (c : Content) : List (Section × Record) :=
  c.answers.map (Section.answer, ·) ++ c.authorities.map (Section.authority, ·)

theorem map_entries (c : Content) : c.entries.map (·.2) = c.answers ++ c.authorities := by
  simp [entries, Function.comp_def]

end Content

/-- What is laid out entry by entry is read entry by entry, and no further. -/
theorem Sequence.inTurn {ε σ α : Type} {At : σ → Octets → Octets → Prop} {name : α → Name}
    {behind : Octets → α → Octets} {step : EStateM ε σ α} {before o rest : Octets} {xs : List α}
    {s : σ} (h : Sequence name behind before xs o)
    (yields : ∀ x ∈ xs, ∀ before written, (name x).Written before written →
      Yields At before step (behind written x) x)
    (stands : At s before (o ++ rest)) :
    ∃ last, InTurn step s xs last ∧ At last (before ++ o) rest := by
  induction h generalizing s with
  | nil => exact ⟨s, .nil, by simpa using stands⟩
  | cons here _ ih =>
      obtain ⟨first, later⟩ := List.forall_mem_cons.mp yields
      rw [List.append_assoc] at stands
      obtain ⟨middle, taken, stands⟩ := first _ _ here s _ stands
      obtain ⟨last, more, stands⟩ := ih later stands
      exact ⟨last, .cons taken more, by rwa [← List.append_assoc]⟩

namespace MessageReader

/-- Calls for the next record, up to the first that finds none, return the given records. -/
inductive Reads : MessageReader → List (Section × Record) → MessageReader → Prop
  | ended {r r' : MessageReader} (h : next r = .ok none r') : Reads r [] r'
  | more {r r' last : MessageReader} {entry : Section × Record} {later : List (Section × Record)}
      (h : next r = .ok (some entry) r') (rest : Reads r' later last) :
      Reads r (entry :: later) last

/-- The records that are left are what is read, each with its section. -/
theorem reads_of_inTurn {entries : List (Section × Record)} {r : MessageReader}
    {stream : MemoryReader} (behind : r.current ≠ .question)
    (sections : entries.map (·.1) = r.pending)
    (h : InTurn Record.read r.stream (entries.map (·.2)) stream) :
    ∃ last, Reads r entries last ∧ last.stream = stream := by
  induction entries generalizing r with
  | nil =>
      cases h with
      | nil => exact ⟨settle 3 r, .ended (next_nothing behind sections.symm), settle_stream 3 r⟩
  | cons entry later ih =>
      obtain ⟨middle, first, rest⟩ := InTurn.cons_iff.mp h
      obtain ⟨r', got, behind, pending, rfl⟩ := next_entry behind sections.symm first
      obtain ⟨last, reads, same⟩ := ih behind pending.symm rest
      exact ⟨last, .more got reads, same⟩

theorem remaining_eq_zero {r : MessageReader} {before : Octets} (h : r.stream.Stands before []) :
    r.remaining = 0 := by
  obtain ⟨opened, data, position⟩ := h
  simp [remaining, MemoryReader.remaining, MemoryReader.left, opened, ← Array.length_toList, data,
    position]

end MessageReader

namespace MessageBuilder

open MessageReader

/-- The reader that stands behind the preamble of the finished message. -/
def reader (b : MessageBuilder) : MessageReader where
  header := b.header
  counts := b.counts
  current := .question
  left := b.counts.question
  stream := Dissection.body b.finish

theorem Contains.readPreamble_finish {b : MessageBuilder} {c : Content} (h : b.Contains c) :
    readPreamble b.finish = .ok (b.header, b.counts) := by
  have message : b.finish = preamble b.header b.counts ++ b.body := rfl
  rw [message, readPreamble_preamble h.few]

theorem Contains.ofOctets_finish {b : MessageBuilder} {c : Content} (h : b.Contains c) :
    ofOctets b.finish = .ok b.reader := by
  rw [ofOctets, h.readPreamble_finish]
  rfl

/-- The entries of a finished message are read one behind the other, to its last octet. -/
theorem Contains.inTurn {b : MessageBuilder} {c : Content} (h : b.Contains c)
    (typed : ∀ r ∈ c.answers ++ c.authorities, r.WellTyped) :
    ∃ middle last, InTurn Question.read (Dissection.body b.finish) c.questions middle ∧
      InTurn Record.read middle (c.answers ++ c.authorities) last ∧ last.Stands b.finish [] := by
  obtain ⟨front, back, body, layout⟩ := h.layout
  obtain ⟨asked, records⟩ := layout _ (length_preamble b.header b.counts)
  have message : b.finish = preamble b.header b.counts ++ (front ++ back) := by
    rw [finish, body, preamble]
  have start : (Dissection.body b.finish).Stands (preamble b.header b.counts) (front ++ back) :=
    ⟨rfl, message, (length_preamble _ _).symm⟩
  obtain ⟨middle, questions, stands⟩ := asked.inTurn (fun q _ before written here =>
    Question.yields_read MemoryReader.source MemoryReader.remembers here) start
  rw [← List.append_nil back] at stands
  obtain ⟨last, read, stands⟩ := records.inTurn (fun r known before written here =>
    Record.yields_read MemoryReader.source MemoryReader.remembers (typed r known) here) stands
  rw [List.append_assoc, ← message] at stands
  exact ⟨middle, last, questions, read, stands⟩

/-- A finished message is read as what was put into it, to its last octet. -/
theorem Contains.read {b : MessageBuilder} {c : Content} (h : b.Contains c)
    (typed : ∀ r ∈ c.answers ++ c.authorities, r.WellTyped) :
    ∃ r last, questions b.reader = .ok c.questions r ∧ Reads r c.entries last ∧
      last.remaining = 0 ∧ r.entries = (c.entries, none) := by
  obtain ⟨middle, stream, asked, read, stands⟩ := h.inTurn typed
  have behind := questions_of_inTurn (r := b.reader) rfl h.question asked
  have sections : c.entries.map (·.1) = b.counts.behind .question := by
    simp [Content.entries, Counts.behind, h.answer, h.authority, h.additional, Function.comp_def,
      List.map_const']
  rw [← c.map_entries] at read
  obtain ⟨last, reads, rfl⟩ := reads_of_inTurn (r := { b.reader with
    current := .answer, left := b.counts.answer, stream := middle }) (by simp) sections read
  refine ⟨_, last, behind, reads, remaining_eq_zero stands, ?_⟩
  have enough := Nat.lt_succ_of_le (b.counts.length_behind .question)
  exact (take_eq_iff (by simp) enough).mpr ⟨sections, _, read⟩

/-- What is found in a finished message is what was put into it. -/
theorem Contains.dissection {b : MessageBuilder} {c : Content} (h : b.Contains c)
    (typed : ∀ r ∈ c.answers ++ c.authorities, r.WellTyped) :
    Dissection.Of ⟨b.header, c.questions, c.answers, c.authorities, []⟩ b.finish where
  preamble := by
    rw [h.readPreamble_finish, Dissection.counts, ← h.question, ← h.answer, ← h.authority,
      List.length_nil, ← h.additional]
  entries := by
    obtain ⟨middle, last, asked, read, -⟩ := h.inTurn typed
    refine ⟨middle, last, asked, ?_⟩
    rwa [Dissection.records, List.append_nil]

end MessageBuilder

/-- What is read time after time is taken from where the stream stands each time. -/
theorem InTurn.taken {ε σ α : Type} {At : σ → Octets → Octets → Prop} {step : EStateM ε σ α}
    {R : Octets → α → Prop} (takes : ∀ before, Takes At before step R) {s last : σ} {xs : List α}
    (h : InTurn step s xs last) {before after : Octets} (stands : At s before after) :
    (∀ x ∈ xs, ∃ o, R o x) ∧ ∃ o rest, At last (before ++ o) rest := by
  induction h generalizing before after with
  | nil => exact ⟨nofun, [], after, by rwa [List.append_nil]⟩
  | cons first _ ih =>
      obtain ⟨o, rest, -, found, stands⟩ := takes before _ _ after _ stands first
      obtain ⟨others, p, rest, stands⟩ := ih stands
      refine ⟨List.forall_mem_cons.mpr ⟨⟨o, found⟩, others⟩, o ++ p, rest, ?_⟩
      rwa [← List.append_assoc]

theorem Question.takes_read {σ : Type} [ReadStream σ] {At : σ → Octets → Octets → Prop}
    (faithful : Faithful At) (before : Octets) :
    Takes At before Question.read fun _ _ => True := by
  refine (Name.takes_read faithful).bind fun _ _ _ => ?_
  refine ((takes_readUInt16 faithful).within 4 0).bind fun _ _ _ => ?_
  exact ((takes_readUInt16 faithful).within 4 2).bind_pure fun _ _ _ => trivial

namespace Dissection

/-- Whoever wrote a message, the records that are read from it have data of their types. -/
theorem Of.wellTyped {d : Dissection} {message : Octets} (h : d.Of message) :
    ∀ r ∈ d.records, r.WellTyped := by
  obtain ⟨middle, last, asked, read⟩ := h.entries
  have opened : (body message).Stands (message.take preambleLength)
      (message.drop preambleLength) := by
    have length := length_of_readPreamble h.preamble
    exact ⟨rfl, by simp [body], by simp [body, Nat.min_eq_left length]⟩
  obtain ⟨-, o, rest, stands⟩ :=
    asked.taken (Question.takes_read MemoryReader.faithful) opened
  obtain ⟨found, -⟩ := read.taken (fun before => Record.takes_read MemoryReader.faithful) stands
  intro r known
  obtain ⟨_, owner, declared, names, data, -, from_octets⟩ := found r known
  exact from_octets.wellTyped

end Dissection

end ZoneSync
