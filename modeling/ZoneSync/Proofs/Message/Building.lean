import ZoneSync.Message.Builder
import ZoneSync.Proofs.Name.Compression
import ZoneSync.Proofs.Record.Codec

/-!
What a message under construction holds. Its octets are laid out entry by entry, and its table
of suffixes is sound, whatever twelve octets will stand in front of them.
-/

namespace ZoneSync

/-- Octets that hold entries one behind the other. The name that each of them starts with has any
form that continues the octets before it. -/
inductive Sequence {α : Type} (name : α → Name) (behind : Octets → α → Octets) :
    (before : Octets) → List α → Octets → Prop
  | nil {before : Octets} : Sequence name behind before [] []
  | cons {before written o : Octets} {x : α} {later : List α}
      (here : (name x).Written before written)
      (rest : Sequence name behind (before ++ behind written x) later o) :
      Sequence name behind before (x :: later) (behind written x ++ o)

namespace Sequence

variable {α : Type} {name : α → Name} {behind : Octets → α → Octets} {before o written : Octets}
  {entries : List α} {x : α}

theorem concat (h : Sequence name behind before entries o)
    (here : (name x).Written (before ++ o) written) :
    Sequence name behind before (entries ++ [x]) (o ++ behind written x) := by
  induction h with
  | nil =>
      rw [List.append_nil] at here
      simpa using cons here .nil
  | cons first _ ih =>
      rw [List.cons_append, List.append_assoc]
      exact .cons first (ih (by simpa using here))

/-- Entries of a least size take up as many octets at least. -/
theorem length_le (h : Sequence name behind before entries o) {least : Nat}
    (size : ∀ x written, 0 < written.length → least ≤ (behind written x).length) :
    least * entries.length ≤ o.length := by
  induction h with
  | nil => simp
  | @cons _ written _ x _ here _ ih =>
      have one := size x written here.length_pos
      rw [List.length_append, List.length_cons, Nat.mul_succ]
      omega

end Sequence

abbrev Questions := Sequence Question.name fun written q => q.wireBehind written

abbrev Records := Sequence Record.owner fun written r => r.wireBehind written

/-- What is in a message, section by section. -/
structure Content where
  questions : List Question := []
  answers : List Record := []
  authorities : List Record := []

namespace MessageBuilder

theorem push_eq_ok_iff {b b' : MessageBuilder} {target : Section} {limit : Nat} {name : Name}
    {behind : Octets → Octets} :
    b.push target limit name behind = .ok b' ↔
      b.current.index ≤ target.index ∧ b.counts.get target ≠ maxMessageLength ∧
      preambleLength + (b.body ++ behind (b.names.compress b.length name).1).length ≤
        min limit maxMessageLength ∧
      b' = { b with
        counts := b.counts.bump target
        current := target
        body := b.body ++ behind (b.names.compress b.length name).1
        names := (b.names.compress b.length name).2 ++ b.names } := by
  rw [push, enter]
  by_cases late : target.index < b.current.index
  · simp [late, Nat.not_le.mpr late]
  · by_cases many : b.counts.get target = maxMessageLength
    · simp [late, many]
    · by_cases long :
          preambleLength + (b.body ++ behind (b.names.compress b.length name).1).length >
            min limit maxMessageLength
      · have long' : (b.extend name behind).length > min limit maxMessageLength := long
        simp only [if_neg late, if_neg many, if_pos long']
        exact ⟨nofun, fun ⟨_, _, fits, _⟩ => absurd long (Nat.not_lt.mpr fits)⟩
      · have fits' : ¬ (b.extend name behind).length > min limit maxMessageLength := long
        simp only [if_neg late, if_neg many, if_neg fits']
        constructor
        · intro same
          exact ⟨Nat.not_lt.mp late, many, Nat.not_lt.mp long, (Except.ok.inj same).symm⟩
        · rintro ⟨-, -, -, rfl⟩
          rfl

/-- A push that fails in its place and below the largest count finds the message too long. -/
theorem push_eq_error {b : MessageBuilder} {target : Section} {limit : Nat} {name : Name}
    {behind : Octets → Octets} {e : PushError} (turn : b.current.index ≤ target.index)
    (few : b.counts.get target ≠ maxMessageLength)
    (h : b.push target limit name behind = .error e) : e = .shortBuf := by
  rw [push, enter] at h
  simp only [Nat.not_lt.mpr turn, few, if_false] at h
  by_cases long : (b.extend name behind).length > min limit maxMessageLength
  · rw [if_pos long] at h
    exact (Except.error.inj h).symm
  · rw [if_neg long] at h
    cases h

/-- The table of suffixes is sound once the preamble is there. -/
def NamesSound (b : MessageBuilder) : Prop :=
  ∀ preamble : Octets, preamble.length = preambleLength → b.names.Sound (preamble ++ b.body)

/-- What is behind a name does not change the octets of the name. -/
def Continues (behind : Octets → Octets) : Prop := ∀ o, ∃ later, behind o = o ++ later

theorem continues_question (q : Question) : Continues q.wireBehind := fun _ =>
  ⟨_, List.append_assoc ..⟩

theorem continues_record (r : Record) : Continues r.wireBehind := fun o => ⟨_, r.wireBehind_eq o⟩

/-- A push writes its name in a form that continues the message and keeps the table sound. -/
theorem push_sound {b b' : MessageBuilder} {target : Section} {limit : Nat} {name : Name}
    {behind : Octets → Octets} (sound : b.NamesSound) (continues : Continues behind)
    (h : b.push target limit name behind = .ok b') :
    b'.NamesSound ∧ ∃ written, b'.body = b.body ++ behind written ∧
      ∀ preamble : Octets, preamble.length = preambleLength →
        name.Written (preamble ++ b.body) written := by
  obtain ⟨-, -, -, rfl⟩ := push_eq_ok_iff.mp h
  have place : ∀ preamble : Octets, preamble.length = preambleLength →
      (preamble ++ b.body).length = b.length := fun preamble size => by
    rw [List.length_append, size, length]
  refine ⟨fun preamble size => ?_, _, rfl, fun preamble size => ?_⟩
  · have compressed := SuffixTable.compress_sound (sound preamble size) name
    rw [place preamble size] at compressed
    obtain ⟨later, octets⟩ := continues (b.names.compress b.length name).1
    dsimp only
    rw [octets, ← List.append_assoc, ← List.append_assoc]
    exact compressed.2.append later
  · have compressed := SuffixTable.compress_sound (sound preamble size) name
    rw [place preamble size] at compressed
    exact compressed.1

/-- The message holds the given content. -/
structure Contains (b : MessageBuilder) (c : Content) : Prop where
  question : b.counts.question = c.questions.length
  answer : b.counts.answer = c.answers.length
  authority : b.counts.authority = c.authorities.length
  additional : b.counts.additional = 0
  no_answers : b.current.index < Section.answer.index → c.answers = []
  no_authorities : b.current.index < Section.authority.index → c.authorities = []
  size : preambleLength + b.body.length ≤ maxMessageLength
  names : b.NamesSound
  layout : ∃ front back, b.body = front ++ back ∧
    ∀ preamble : Octets, preamble.length = preambleLength →
      Questions preamble c.questions front ∧
        Records (preamble ++ front) (c.answers ++ c.authorities) back

theorem contains_new (header : Header) : Contains { header } {} where
  question := rfl
  answer := rfl
  authority := rfl
  additional := rfl
  no_answers _ := rfl
  no_authorities _ := rfl
  size := Nat.le_of_ble_eq_true rfl
  names _ _ := SuffixTable.sound_nil _
  layout := ⟨[], [], rfl, fun _ _ => ⟨.nil, .nil⟩⟩

/-- The size of a message keeps the counts small. -/
theorem Contains.few {b : MessageBuilder} {c : Content} (h : Contains b c) (s : Section) :
    b.counts.get s < maxMessageLength := by
  obtain ⟨front, back, body, layout⟩ := h.layout
  obtain ⟨questions, records⟩ := layout (List.replicate preambleLength 0) (by simp)
  have front_size : 1 * c.questions.length ≤ front.length :=
    questions.length_le fun q written pos => by
      simp only [Question.wireBehind, List.length_append]
      omega
  have back_size : 1 * (c.answers ++ c.authorities).length ≤ back.length :=
    records.length_le fun r written pos => by
      rw [Record.length_wireBehind]
      omega
  have size := h.size
  rw [body] at size
  simp only [List.length_append, preambleLength, maxMessageLength] at size back_size ⊢
  have question := h.question
  have answer := h.answer
  have authority := h.authority
  have additional := h.additional
  cases s <;> simp only [Counts.get] <;> omega

@[simp] theorem length_finish (b : MessageBuilder) : b.finish.length = b.length := by
  simp only [finish, length, Header.wire, Counts.wire, List.length_append, Octets.length_ofNat,
    Octets.length_ofUInt16, List.length_cons, List.length_nil, preambleLength]

theorem Contains.length_finish {b : MessageBuilder} {c : Content} (h : Contains b c) :
    b.finish.length ≤ maxMessageLength := by
  rw [MessageBuilder.length_finish]
  exact h.size

theorem Contains.push_question {b b' : MessageBuilder} {c : Content} {q : Question}
    (h : Contains b c) (pushed : b.pushQuestion q = .ok b') :
    Contains b' { c with questions := c.questions ++ [q] } := by
  obtain ⟨names, written, body, here⟩ := push_sound h.names (continues_question q) pushed
  obtain ⟨turn, -, size, rfl⟩ := push_eq_ok_iff.mp pushed
  have first : b.current.index = 0 := Nat.le_zero.mp turn
  have no_answers : c.answers = [] := h.no_answers (by rw [first]; decide)
  have no_authorities : c.authorities = [] := h.no_authorities (by rw [first]; decide)
  obtain ⟨front, back, split, layout⟩ := h.layout
  refine ⟨by simp [Counts.bump, h.question], h.answer, h.authority, h.additional,
    fun _ => no_answers, fun _ => no_authorities, Nat.le_trans size (Nat.min_le_right _ _), names,
    front ++ q.wireBehind written, [], ?_, fun preamble length => ?_⟩
  all_goals
    have empty : back = [] := by
      have records := (layout (List.replicate preambleLength 0) (by simp)).2
      rw [no_answers, no_authorities] at records
      cases records
      rfl
    subst empty
  · rw [body, split]
    simp
  · have written_here := here preamble length
    rw [split, List.append_nil] at written_here
    refine ⟨(layout preamble length).1.concat written_here, ?_⟩
    rw [no_answers, no_authorities]
    exact .nil

theorem Contains.push_answer {b b' : MessageBuilder} {c : Content} {limit : Nat} {r : Record}
    (h : Contains b c) (pushed : b.pushAnswerWithin limit r = .ok b') :
    Contains b' { c with answers := c.answers ++ [r] } := by
  obtain ⟨names, written, body, here⟩ := push_sound h.names (continues_record r) pushed
  obtain ⟨turn, -, size, rfl⟩ := push_eq_ok_iff.mp pushed
  have no_authorities : c.authorities = [] := h.no_authorities (Nat.lt_succ_of_le turn)
  obtain ⟨front, back, split, layout⟩ := h.layout
  refine ⟨h.question, by simp [Counts.bump, h.answer], h.authority, h.additional,
    fun late => absurd late (Nat.lt_irrefl _), fun _ => no_authorities,
    Nat.le_trans size (Nat.min_le_right _ _), names, front, back ++ r.wireBehind written,
    by rw [body, split, List.append_assoc], fun preamble length => ?_⟩
  obtain ⟨questions, records⟩ := layout preamble length
  have written_here := here preamble length
  rw [split, ← List.append_assoc] at written_here
  refine ⟨questions, ?_⟩
  have longer := records.concat written_here
  rw [no_authorities, List.append_nil] at longer ⊢
  exact longer

theorem Contains.push_authority {b b' : MessageBuilder} {c : Content} {r : Record}
    (h : Contains b c) (pushed : b.pushAuthority r = .ok b') :
    Contains b' { c with authorities := c.authorities ++ [r] } := by
  obtain ⟨names, written, body, here⟩ := push_sound h.names (continues_record r) pushed
  obtain ⟨turn, -, size, rfl⟩ := push_eq_ok_iff.mp pushed
  obtain ⟨front, back, split, layout⟩ := h.layout
  refine ⟨h.question, h.answer, by simp [Counts.bump, h.authority], h.additional,
    fun late => absurd late (Nat.not_lt_of_lt (Nat.lt_succ_self _)),
    fun late => absurd late (Nat.lt_irrefl _), Nat.le_trans size (Nat.min_le_right _ _), names,
    front, back ++ r.wireBehind written, by rw [body, split, List.append_assoc],
    fun preamble length => ?_⟩
  obtain ⟨questions, records⟩ := layout preamble length
  have written_here := here preamble length
  rw [split, ← List.append_assoc] at written_here
  refine ⟨questions, ?_⟩
  rw [← List.append_assoc]
  exact records.concat written_here

/-- A record that fits uncompressed can be put into a section whose turn it is. -/
theorem Contains.exists_push {b : MessageBuilder} {c : Content} {target : Section} (limit : Nat)
    {r : Record} (h : Contains b c) (turn : b.current.index ≤ target.index)
    (fits : b.length + r.length ≤ min limit maxMessageLength) :
    ∃ b', b.push target limit r.owner r.wireBehind = .ok b' := by
  refine ⟨_, push_eq_ok_iff.mpr ⟨turn, Nat.ne_of_lt (h.few _), ?_, rfl⟩⟩
  have short := SuffixTable.length_compress_le b.names b.length r.owner
  rw [List.length_append, Record.length_wireBehind]
  simp only [length, Record.length] at fits
  omega

theorem Contains.exists_push_answer {b : MessageBuilder} {c : Content} (limit : Nat) {r : Record}
    (h : Contains b c) (turn : b.current.index ≤ Section.answer.index)
    (fits : b.length + r.length ≤ min limit maxMessageLength) :
    ∃ b', b.pushAnswerWithin limit r = .ok b' :=
  h.exists_push limit turn fits

theorem Contains.exists_push_authority {b : MessageBuilder} {c : Content} {r : Record}
    (h : Contains b c) (turn : b.current.index ≤ Section.authority.index)
    (fits : b.length + r.length ≤ maxMessageLength) : ∃ b', b.pushAuthority r = .ok b' :=
  h.exists_push maxMessageLength turn (by rwa [Nat.min_self])

/-- Only its size keeps a record out of the answer section. -/
theorem Contains.push_answer_error {b : MessageBuilder} {c : Content} {limit : Nat} {r : Record}
    {e : PushError} (h : Contains b c) (turn : b.current.index ≤ Section.answer.index)
    (refused : b.pushAnswerWithin limit r = .error e) : e = .shortBuf :=
  push_eq_error turn (Nat.ne_of_lt (h.few _)) refused

end MessageBuilder
end ZoneSync
