import ZoneSync.Proofs.Message.Editing

/-!
What a refused push leaves behind. An entry is written before its size is known, and taking it back
has to restore the octets and the table of suffixes: the suffixes that were learnt from the entry
start behind the cut, and all that were known before start in front of it.
-/

namespace ZoneSync
namespace MessageBuilder

variable {b b' : MessageBuilder} {target : Section} {limit : Nat} {name : Name}
  {behind : Octets → Octets}

theorem NamesSound.place_lt (sound : b.NamesSound) {entry : Octets × Nat}
    (known : entry ∈ b.names) : entry.2 < b.length := by
  have here := (sound (List.replicate preambleLength 0) (by simp)).place_lt known
  rwa [List.length_append, List.length_replicate] at here

theorem truncate_extend (sound : b.NamesSound) (name : Name) (behind : Octets → Octets) :
    (b.extend name behind).truncate b.length = b := by
  have octets : (b.extend name behind).body.take (b.length - preambleLength) = b.body := by
    rw [length, Nat.add_sub_cancel_left]
    exact List.take_left
  have forgotten : (b.names.compress b.length name).2.filter (fun entry => entry.2 < b.length) =
      [] := by
    refine List.filter_eq_nil_iff.mpr fun entry learnt => ?_
    have late := SuffixTable.le_place_of_learnt learnt
    simpa using late
  have kept : b.names.filter (fun entry => entry.2 < b.length) = b.names := by
    refine List.filter_eq_self.mpr fun entry known => ?_
    simpa using sound.place_lt known
  have names : (b.extend name behind).names.filter (fun entry => entry.2 < b.length) =
      b.names := by
    rw [extend, List.filter_append, forgotten, kept, List.nil_append]
  rw [truncate, octets, names]
  rfl

/-- A push that is refused leaves the message as it was, on each of its ways. -/
theorem enter_refused (sound : b.NamesSound) {e : PushError}
    (h : enter target limit name behind b = .error e b') : b' = b := by
  rw [enter] at h
  split at h
  case isTrue => exact (EStateM.Result.error.inj h).2.symm
  case isFalse =>
    split at h
    case isTrue => exact (EStateM.Result.error.inj h).2.symm
    case isFalse =>
      dsimp only at h
      split at h
      case isTrue =>
        rw [← (EStateM.Result.error.inj h).2]
        exact truncate_extend sound name behind
      case isFalse => cases h

theorem enter_eq_ok_iff :
    enter target limit name behind b = .ok () b' ↔ b.push target limit name behind = .ok b' := by
  rw [push]
  cases enter target limit name behind b with
  | ok _ left => simp
  | error e left => simp

theorem push_of_enter_error {e : PushError} (h : enter target limit name behind b = .error e b') :
    b.push target limit name behind = .error e := by
  rw [push, h]

/-- In its turn and below the largest count, an entry is refused for its size alone. -/
theorem enter_refused_iff (turn : b.current.index ≤ target.index)
    (few : b.counts.get target < maxMessageLength) :
    (∃ e b', enter target limit name behind b = .error e b') ↔
      min limit maxMessageLength < (b.extend name behind).length := by
  rw [enter]
  simp only [Nat.not_lt.mpr turn, Nat.ne_of_lt few, if_false]
  split
  case isTrue long => exact ⟨fun _ => long, fun _ => ⟨_, _, rfl⟩⟩
  case isFalse fits =>
    constructor
    · rintro ⟨_, _, refused⟩
      cases refused
    · exact fun long => absurd long fits

theorem length_of_enter (h : enter target limit name behind b = .ok () b') :
    b'.length = (b.extend name behind).length := by
  obtain ⟨-, -, -, rfl⟩ := push_eq_ok_iff.mp (enter_eq_ok_iff.mp h)
  rfl

end MessageBuilder

/-- What a push puts in: its section, its limit, and the entry with the name it starts with. -/
structure Entry where
  target : Section
  limit : Nat
  name : Name
  behind : Octets → Octets

namespace Edit

open MessageBuilder

/-- The call as it is made: it may fail, and leaves a message behind then too. -/
def perform : Edit → EStateM PushError MessageBuilder Unit
  | question q => enterQuestion q
  | answer r => enterAnswer r
  | answerWithin limit r => enterAnswerWithin limit r
  | authority r => enterAuthority r
  | header change => modify fun b => { b with header := change b.header }

def pushed? : Edit → Option Entry
  | question q => some ⟨.question, maxMessageLength, q.name, q.wireBehind⟩
  | answer r => some ⟨.answer, maxMessageLength, r.owner, r.wireBehind⟩
  | answerWithin limit r => some ⟨.answer, limit, r.owner, r.wireBehind⟩
  | authority r => some ⟨.authority, maxMessageLength, r.owner, r.wireBehind⟩
  | header _ => none

variable {b b' : MessageBuilder} {e : Edit}

theorem perform_of_pushed? {x : Entry} (h : e.pushed? = some x) :
    e.perform = enter x.target x.limit x.name x.behind := by
  cases e with
  | header change => cases h
  | question | answer | answerWithin | authority =>
      obtain rfl := Option.some.inj h
      rfl

theorem run_of_pushed? {x : Entry} (h : e.pushed? = some x) (b : MessageBuilder) :
    e.run b = b.push x.target x.limit x.name x.behind := by
  cases e with
  | header change => cases h
  | question | answer | answerWithin | authority =>
      obtain rfl := Option.some.inj h
      rfl

theorem perform_eq_ok_iff : e.perform b = .ok () b' ↔ e.run b = .ok b' := by
  cases known : e.pushed? with
  | some x => rw [perform_of_pushed? known, run_of_pushed? known, enter_eq_ok_iff]
  | none =>
      cases e with
      | header change =>
          have left : (header change).perform b = .ok () { b with header := change b.header } := rfl
          rw [left, run]
          simp
      | question | answer | answerWithin | authority => cases known

theorem perform_refused (sound : b.NamesSound) {why : PushError}
    (h : e.perform b = .error why b') : b' = b ∧ e.run b = .error why := by
  cases known : e.pushed? with
  | some x =>
      rw [perform_of_pushed? known] at h
      exact ⟨enter_refused sound h, (run_of_pushed? known b).trans (push_of_enter_error h)⟩
  | none =>
      cases e with
      | header change => cases h
      | question | answer | answerWithin | authority => cases known

/-- What a call answers, and the message that it leaves. -/
def attempt (e : Edit) (b : MessageBuilder) : Except PushError Unit × MessageBuilder :=
  match e.perform b with
  | .ok () left => (.ok (), left)
  | .error why left => (.error why, left)

end Edit

namespace MessageBuilder

variable {b : MessageBuilder}

/-- Makes the calls one after the other, each on the message that the one before has left. -/
def performAll (b : MessageBuilder) : List Edit → List (Except PushError Unit) × MessageBuilder
  | [] => ([], b)
  | e :: later =>
    let (result, left) := e.attempt b
    let (results, last) := left.performAll later
    (result :: results, last)

theorem performAll_append (b : MessageBuilder) (edits later : List Edit) :
    b.performAll (edits ++ later) =
      ((b.performAll edits).1 ++ ((b.performAll edits).2.performAll later).1,
        ((b.performAll edits).2.performAll later).2) := by
  induction edits generalizing b with
  | nil => rfl
  | cons e edits ih =>
      simp only [List.cons_append, performAll, ih]

theorem length_performAll (b : MessageBuilder) (edits : List Edit) :
    (b.performAll edits).1.length = edits.length := by
  induction edits generalizing b with
  | nil => rfl
  | cons e edits ih =>
      simp only [performAll, List.length_cons, ih]

/-- The calls leave the message that is made by those of them that are not refused. -/
theorem Holds.performAll_eq {questions : List Question} {entries : List (Section × Record)}
    (h : b.Holds questions entries) (edits : List Edit) :
    (b.performAll edits).2 = b.afterEdits edits := by
  induction edits generalizing b questions entries with
  | nil => rfl
  | cons e later ih =>
      simp only [performAll, afterEdits, Edit.attempt]
      cases performed : e.perform b with
      | ok _ left =>
          have ran := Edit.perform_eq_ok_iff.mp performed
          rw [ran]
          exact ih (h.edit ran)
      | error why left =>
          have sound : b.NamesSound := by
            obtain ⟨_, contains, _⟩ := h
            exact contains.names
          obtain ⟨rfl, ran⟩ := Edit.perform_refused sound performed
          rw [ran]
          exact ih h

/-- A call that is refused has left no trace: behind any calls the message is the one before it,
and all later calls answer and leave what they would without it. What is put into a section in its
turn is refused only if the message would grow beyond its limit, and otherwise it has grown. -/
theorem refused_untraced (header : Header) (edits : List Edit) (e : Edit) :
    let new : MessageBuilder := { header }
    let b := (new.performAll edits).2
    (∀ why b', e.perform b = .error why b' →
      b' = b ∧ ∀ later, ∃ before behind last, before.length = edits.length ∧
        new.performAll (edits ++ later) = (before ++ behind, last) ∧
        new.performAll (edits ++ e :: later) = (before ++ .error why :: behind, last)) ∧
    ∀ x, e.pushed? = some x → b.current.index ≤ x.target.index → b.counts.get x.target < 65535 →
      ((∃ why b', e.perform b = .error why b') ↔
        min x.limit 65535 < (b.extend x.name x.behind).length) ∧
      ∀ b', e.perform b = .ok () b' → b'.length = (b.extend x.name x.behind).length := by
  intro new b
  have start : new.Holds [] [] := ⟨{}, contains_new header, rfl, rfl⟩
  have sound : b.NamesSound := by
    have reached := start.edits edits
    rw [← start.performAll_eq] at reached
    obtain ⟨_, contains, _⟩ := reached
    exact contains.names
  refine ⟨?untraced, ?sized⟩
  case untraced =>
    intro why b' refused
    obtain rfl := (Edit.perform_refused sound refused).1
    refine ⟨rfl, fun later => ?_⟩
    refine ⟨_, (b.performAll later).1, (b.performAll later).2, new.length_performAll edits,
      new.performAll_append edits later, ?_⟩
    have attempted : e.attempt b = (.error why, b) := by rw [Edit.attempt, refused]
    rw [performAll_append]
    simp only [performAll]
    rw [attempted]
  case sized =>
    intro x known turn few
    rw [Edit.perform_of_pushed? known]
    exact ⟨enter_refused_iff turn few, fun b' entered => length_of_enter entered⟩

/-- The name of a record that was too long is written in full when it is put in again. -/
theorem refused_untraced_name :
    let r : Record := ⟨⟨[⟨[0x61], by decide, by decide⟩], by decide⟩, .internet, 60,
      .a ⟨[192, 0, 2, 1], rfl⟩⟩
    let new : MessageBuilder := { header := {} }
    (Edit.answerWithin 20 r).perform new = .error .shortBuf new ∧
    ∃ behind last, new.performAll [.answer r] = (behind, last) ∧
      new.performAll [.answerWithin 20 r, .answer r] = (.error .shortBuf :: behind, last) ∧
      last.body = r.wire := by
  intro r new
  obtain ⟨b', refused⟩ : ∃ b', (Edit.answerWithin 20 r).perform new = .error .shortBuf b' :=
    ⟨_, rfl⟩
  obtain ⟨same, untraced⟩ :=
    (refused_untraced {} [] (.answerWithin 20 r)).1 .shortBuf b' refused
  obtain ⟨before, behind, last, size, without, with_refused⟩ := untraced [.answer r]
  obtain rfl : before = [] := List.eq_nil_of_length_eq_zero size
  have written : (new.performAll [.answer r]).2.body = r.wire := rfl
  refine ⟨by rw [refused, same]; rfl, behind, last, without, with_refused, ?_⟩
  rw [← written]
  exact congrArg (fun made => made.2.body) without.symm

end MessageBuilder
end ZoneSync
