import Mathlib.Data.List.Basic
import ZoneSync.Proofs.Step
import ZoneSync.Stream.Buffered
import ZoneSync.Stream.Channel

/-!
Writing behind a buffer. What a buffered writer has accepted reaches the stream beneath in order and
none of it is lost, whatever fails there. But a writer that has passed on only part of what it holds
when the stream beneath fails still holds all of it, and passes that part on again later. The octets
that go out twice are exactly those.
-/

namespace ZoneSync

variable {σ τ ε α : Type}

/-- A stream and the octets that it has accepted. -/
structure Recorded (σ : Type) where
  stream : σ
  accepted : Octets := []

namespace Recorded

/-- Runs a step of the stream and adds what it says that was accepted. -/
def through (accepted : α → Octets) (step : StreamM σ α) : StreamM (Recorded σ) α := fun r =>
  match step r.stream with
  | .ok a stream => .ok a { stream, accepted := r.accepted ++ accepted a }
  | .error e stream => .error e { r with stream }

theorem through_cases (accepted : α → Octets) (step : StreamM σ α) (r : Recorded σ) :
    (∃ a r', through accepted step r = .ok a r' ∧ r'.accepted = r.accepted ++ accepted a) ∨
      ∃ e r', through accepted step r = .error e r' ∧ r'.accepted = r.accepted := by
  rw [through]
  cases step r.stream with
  | ok a stream => exact .inl ⟨a, _, rfl, rfl⟩
  | error e stream => exact .inr ⟨e, _, rfl, rfl⟩

variable [WriteStream σ]

instance : WriteStream (Recorded σ) where
  write o := through o.take (WriteStream.write o)
  flush := through (fun _ => []) WriteStream.flush
  close := through (fun _ => []) WriteStream.close
  abandon r := { r with stream := WriteStream.abandon r.stream }

theorem write_cases (o : Octets) (r : Recorded σ) :
    (∃ n r', WriteStream.write o r = .ok n r' ∧ r'.accepted = r.accepted ++ o.take n) ∨
      ∃ e r', WriteStream.write o r = .error e r' ∧ r'.accepted = r.accepted :=
  through_cases _ _ r

/-- Octets that are to be written are all accepted, or some of the first before it fails. -/
theorem drain_cases {rounds : Nat} {o : Octets} (enough : o.length ≤ rounds) (r : Recorded σ) :
    (∃ r', drain rounds o r = .ok () r' ∧ r'.accepted = r.accepted ++ o) ∨
      ∃ e r' n, drain rounds o r = .error e r' ∧ o ≠ [] ∧ r'.accepted = r.accepted ++ o.take n := by
  induction rounds generalizing o r with
  | zero =>
      obtain rfl : o = [] := List.eq_nil_of_length_eq_zero (Nat.eq_zero_of_le_zero enough)
      exact .inl ⟨r, rfl, (List.append_nil _).symm⟩
  | succ rounds ih =>
      by_cases empty : o = []
      · subst empty
        exact .inl ⟨r, rfl, (List.append_nil _).symm⟩
      · rcases write_cases o r with ⟨n, middle, written, accepted⟩ | ⟨e, r', failed, accepted⟩
        · cases n with
          | zero =>
              exact .inr ⟨.io (.plain .writeZero), middle, 0, by simp [drain, empty, written],
                empty, accepted⟩
          | succ n =>
              have same : drain (rounds + 1) o r = drain rounds (o.drop (n + 1)) middle := by
                simp [drain, empty, written]
              have fewer : (o.drop (n + 1)).length ≤ rounds := by
                rw [List.length_drop]
                omega
              rw [same]
              rcases ih fewer middle with ⟨r', done, all⟩ | ⟨e, r', more, failed, -, part⟩
              · exact .inl ⟨r', done, by
                  rw [all, accepted, List.append_assoc, List.take_append_drop]⟩
              · refine .inr ⟨e, r', n + 1 + more, failed, empty, ?_⟩
                rw [part, accepted, List.append_assoc, ← List.take_add]
        · exact .inr ⟨e, r', 0, by simp [drain, empty, failed], empty, by simpa using accepted⟩

end Recorded

namespace BufferedWriter

variable {b : BufferedWriter (Recorded σ)}

def delivered (b : BufferedWriter (Recorded σ)) : Octets := b.inner.accepted

/-- What was delivered, and behind it what is held. -/
def content (b : BufferedWriter (Recorded σ)) : Octets := b.delivered ++ b.held

/-- How many octets a failed call has delivered and left with those that are held. -/
def spill (before after : BufferedWriter (Recorded σ)) : Nat :=
  if after.held.isEmpty then 0 else after.delivered.length - before.delivered.length

/-- What a failed call leaves is what there was, in order, with the octets that it spilt. -/
def Spilt (before after : BufferedWriter (Recorded σ)) : Prop :=
  before.content.Sublist after.content ∧
    after.content.length = before.content.length + spill before after

theorem Spilt.refl (b : BufferedWriter (Recorded σ)) : Spilt b b :=
  ⟨List.Sublist.refl _, by simp [spill]⟩

/-- A call that fails with nothing held has spilt nothing. -/
theorem spilt_of_content_eq {b' : BufferedWriter (Recorded σ)} (same : b'.content = b.content)
    (empty : b'.held = []) : Spilt b b' :=
  ⟨same ▸ List.Sublist.refl _, by simp [spill, same, empty]⟩

/-- Part of what was held has gone out before the failure. -/
theorem spilt_of_part {b' : BufferedWriter (Recorded σ)} {n : Nat} (held : b'.held = b.held)
    (nonempty : b.held ≠ []) (part : b'.delivered = b.delivered ++ b.held.take n) : Spilt b b' := by
  constructor
  · rw [content, content, held, part, List.append_assoc]
    exact (List.Sublist.refl _).append (List.sublist_append_right _ _)
  · have some_held : ¬ b.held.isEmpty := by simp [nonempty]
    rw [spill, held, if_neg some_held, content, content, held, part]
    simp only [List.length_append]
    omega

/-- A step of the stream beneath that accepts nothing leaves the content, whether the writer stays
open or not. -/
theorem beneath_cases (step : StreamM σ Unit) (stays : Bool) {middle : BufferedWriter (Recorded σ)}
    (same : middle.content = b.content) (empty : middle.held = []) :
    (∃ inner, Recorded.through (fun _ => []) step middle.inner = .ok () inner ∧
        content { middle with inner, isOpen := stays } = b.content) ∨
      ∃ e inner, Recorded.through (fun _ => []) step middle.inner = .error e inner ∧
        Spilt b { middle with inner, isOpen := stays } := by
  rcases Recorded.through_cases (fun _ => []) step middle.inner with
    ⟨_, inner, done, kept⟩ | ⟨e, inner, failed, kept⟩
  · refine .inl ⟨inner, done, ?_⟩
    rw [← same, content, content, delivered, delivered, kept, List.append_nil]
  · refine .inr ⟨e, inner, failed, spilt_of_content_eq ?_ empty⟩
    rw [← same, content, content, delivered, delivered, kept]

variable [WriteStream σ]

theorem passOn_cases (b : BufferedWriter (Recorded σ)) :
    (∃ b', passOn b = .ok () b' ∧ b'.content = b.content ∧ b'.held = []) ∨
      ∃ e b', passOn b = .error e b' ∧ Spilt b b' := by
  rcases Recorded.drain_cases (Nat.le_refl b.held.length) b.inner with
    ⟨inner, done, all⟩ | ⟨e, inner, n, failed, nonempty, part⟩
  · refine .inl ⟨{ b with inner, held := [] }, by simp only [passOn, writeAll, done], ?_, rfl⟩
    rw [content, content, delivered, delivered, all, List.append_nil]
  · exact .inr ⟨e, { b with inner }, by simp only [passOn, writeAll, failed],
      spilt_of_part rfl nonempty part⟩

theorem accept_cases {o : Octets}
    (room : b.held = [] ∨ b.held.length + o.length ≤ b.capacity) :
    (∃ n b', accept o b = .ok n b' ∧ b'.content = b.content ++ o.take n) ∨
      ∃ e b', accept o b = .error e b' ∧ b'.content = b.content ∧ b'.held = [] := by
  by_cases large : b.capacity ≤ o.length
  · -- What goes past the buffer finds nothing in it.
    have empty : b.held = [] := by
      rcases room with empty | fits
      · exact empty
      · exact List.eq_nil_of_length_eq_zero (by omega)
    rcases Recorded.write_cases o b.inner with
      ⟨n, inner, written, accepted⟩ | ⟨e, inner, failed, accepted⟩
    · refine .inl ⟨n, { b with inner }, by simp only [accept, large, if_true, written], ?_⟩
      simp only [content, delivered, accepted, empty, List.append_nil]
    · refine .inr ⟨e, { b with inner }, by simp only [accept, large, if_true, failed], ?_, empty⟩
      simp only [content, delivered, accepted]
  · refine .inl ⟨o.length, { b with held := b.held ++ o },
      by simp only [accept, large, if_false], ?_⟩
    simp only [content, delivered, List.take_length, List.append_assoc]

theorem write_cases (o : Octets) (b : BufferedWriter (Recorded σ)) :
    (∃ n b', WriteStream.write o b = .ok n b' ∧ b'.content = b.content ++ o.take n) ∨
      ∃ e b', WriteStream.write o b = .error e b' ∧ Spilt b b' := by
  by_cases opened : b.isOpen
  · by_cases full : b.held.length + o.length > b.capacity
    · rcases passOn_cases b with ⟨middle, passed, same, empty⟩ | ⟨e, b', failed, spilt⟩
      · have next : WriteStream.write o b = accept o middle := by
          simp [WriteStream.write, opened, full, passed]
        rw [next, ← same]
        refine (accept_cases (o := o) (.inl empty)).imp_right ?_
        rintro ⟨e, b', failed, kept, none_held⟩
        exact ⟨e, b', failed, spilt_of_content_eq (kept.trans same) none_held⟩
      · exact .inr ⟨e, b', by simp [WriteStream.write, opened, full, failed], spilt⟩
    · have next : WriteStream.write o b = accept o b := by simp [WriteStream.write, opened, full]
      rw [next]
      refine (accept_cases (o := o) (.inr (Nat.not_lt.mp full))).imp_right ?_
      rintro ⟨e, b', failed, kept, none_held⟩
      exact ⟨e, b', failed, spilt_of_content_eq kept none_held⟩
  · exact .inr ⟨.closed, b, by simp [WriteStream.write, opened], .refl b⟩

theorem flush_cases (b : BufferedWriter (Recorded σ)) :
    (∃ b', WriteStream.flush b = .ok () b' ∧ b'.content = b.content ∧ b'.held = []) ∨
      ∃ e b', WriteStream.flush b = .error e b' ∧ Spilt b b' := by
  by_cases opened : b.isOpen
  · rcases passOn_cases b with ⟨middle, passed, same, empty⟩ | ⟨e, b', failed, spilt⟩
    · rcases beneath_cases WriteStream.flush middle.isOpen same empty with
        ⟨inner, done, kept⟩ | ⟨e, inner, failed, spilt⟩
      · exact .inl ⟨{ middle with inner }, by simp [WriteStream.flush, opened, passed, done], kept,
          empty⟩
      · exact .inr ⟨e, { middle with inner }, by simp [WriteStream.flush, opened, passed, failed],
          spilt⟩
    · exact .inr ⟨e, b', by simp [WriteStream.flush, opened, failed], spilt⟩
  · exact .inr ⟨.closed, b, by simp [WriteStream.flush, opened], .refl b⟩

theorem close_cases (b : BufferedWriter (Recorded σ)) :
    (∃ b', WriteStream.close b = .ok () b' ∧ b'.content = b.content ∧ b'.held = []) ∨
      ∃ e b', WriteStream.close b = .error e b' ∧ Spilt b b' := by
  by_cases opened : b.isOpen
  · rcases passOn_cases b with ⟨middle, passed, same, empty⟩ | ⟨e, b', failed, spilt⟩
    · rcases beneath_cases WriteStream.close false same empty with
        ⟨inner, done, kept⟩ | ⟨e, inner, failed, spilt⟩
      · exact .inl ⟨{ middle with inner, isOpen := false },
          by simp [WriteStream.close, opened, passed, done], kept, empty⟩
      · exact .inr ⟨e, { middle with inner, isOpen := false },
          by simp [WriteStream.close, opened, passed, failed], spilt⟩
    · exact .inr ⟨e, { b' with inner := WriteStream.abandon b'.inner, isOpen := false },
        by simp [WriteStream.close, opened, failed], spilt⟩
  · exact .inr ⟨.closed, b, by simp [WriteStream.close, opened], .refl b⟩

end BufferedWriter

/-- A call of a writer. -/
inductive WriteCall where
  | write (o : Octets)
  | writeAll (o : Octets)
  | flush
  | close

def WriteCall.perform [WriteStream τ] : WriteCall → StreamM τ Unit
  | write o => discard (WriteStream.write o)
  | writeAll o => ZoneSync.writeAll o
  | flush => WriteStream.flush
  | close => WriteStream.close

/-- The state behind a step, whether it has failed or not. -/
def behind (step : EStateM ε τ α) (t : τ) : τ :=
  match step t with
  | .ok _ t => t
  | .error _ t => t

theorem behind_discard (step : EStateM ε τ α) (t : τ) :
    behind (discard step) t = behind step t := by
  change behind (EStateM.map (fun _ => ()) step) t = _
  rw [behind, behind, EStateM.map]
  cases step t <;> rfl

theorem behind_adaptExcept {ε' : Type} (step : EStateM ε τ α) (f : ε → ε') (t : τ) :
    behind (step.adaptExcept f) t = behind step t := by
  rw [behind, behind, EStateM.adaptExcept]
  cases step t <;> rfl

/-- The calls one after the other, whatever has failed before. -/
def WriteCall.run [WriteStream τ] (calls : List WriteCall) (t : τ) : τ :=
  calls.foldl (fun t call => behind call.perform t) t

/-- A buffered writer with an account of its calls. -/
structure Ledger (σ : Type) where
  writer : BufferedWriter (Recorded σ)
  /-- The octets that the writer has accepted, as its calls have told. -/
  accepted : Octets := []
  /-- How many octets failed calls have delivered that are held behind them all the same. -/
  spilt : Nat := 0

namespace Ledger

/-- A writer over a stream, before the first call. -/
def opened (capacity : Nat) (stream : σ) : Ledger σ :=
  { writer := { inner := { stream }, capacity } }

def delivered (l : Ledger σ) : Octets := l.writer.delivered

/-- Runs a step of the writer and books what it says that was accepted, or what it has spilt. -/
def book (accepted : α → Octets) (step : StreamM (BufferedWriter (Recorded σ)) α) :
    StreamM (Ledger σ) α := fun l =>
  match step l.writer with
  | .ok a writer => .ok a { l with writer, accepted := l.accepted ++ accepted a }
  | .error e writer =>
    .error e { l with writer, spilt := l.spilt + BufferedWriter.spill l.writer writer }

instance [WriteStream σ] : WriteStream (Ledger σ) where
  write o := book o.take (WriteStream.write o)
  flush := book (fun _ => []) WriteStream.flush
  close := book (fun _ => []) WriteStream.close

/-- What was accepted was delivered or is held, in order; only what was spilt is there twice. -/
def Balanced (l : Ledger σ) : Prop :=
  l.accepted.Sublist l.writer.content ∧
    l.writer.content.length = l.accepted.length + l.spilt

theorem balanced_opened (capacity : Nat) (stream : σ) : Balanced (opened capacity stream) :=
  ⟨List.Sublist.refl _, rfl⟩

variable {l : Ledger σ}

theorem Balanced.content_eq (h : Balanced l) (clean : l.spilt = 0) :
    l.writer.content = l.accepted := by
  obtain ⟨order, size⟩ := h
  exact (order.eq_of_length (by rw [size, clean, Nat.add_zero])).symm

/-- With nothing held the octets delivered are those accepted, unless some were spilt. -/
theorem Balanced.settled (h : Balanced l) (empty : l.writer.held = []) :
    l.accepted.Sublist l.delivered ∧ (l.spilt = 0 ↔ l.delivered <+: l.accepted) ∧
      (l.spilt = 0 ↔ l.delivered = l.accepted) := by
  have all : l.writer.content = l.delivered := by
    rw [BufferedWriter.content, empty, List.append_nil]
    rfl
  obtain ⟨order, size⟩ := id h
  rw [all] at order size
  have same (clean : l.spilt = 0) : l.delivered = l.accepted := all ▸ h.content_eq clean
  have clean (short : l.delivered.length ≤ l.accepted.length) : l.spilt = 0 := by omega
  exact ⟨order, ⟨fun none => same none ▸ List.prefix_rfl, fun h => clean h.length_le⟩, same,
    fun h => clean (Nat.le_of_eq (congrArg List.length h))⟩

theorem Balanced.book (h : Balanced l) {accepted : α → Octets}
    {step : StreamM (BufferedWriter (Recorded σ)) α}
    (done : (∃ a b', step l.writer = .ok a b' ∧ b'.content = l.writer.content ++ accepted a) ∨
      ∃ e b', step l.writer = .error e b' ∧ BufferedWriter.Spilt l.writer b') :
    Balanced (behind (book accepted step) l) := by
  obtain ⟨order, size⟩ := h
  rcases done with ⟨a, b', done, content⟩ | ⟨e, b', failed, more, larger⟩
  · have books : behind (Ledger.book accepted step) l =
        { l with writer := b', accepted := l.accepted ++ accepted a } := by
      simp only [behind, Ledger.book, done]
    rw [books]
    refine ⟨content ▸ order.append (List.Sublist.refl (accepted a)), ?_⟩
    rw [content, List.length_append, List.length_append, Nat.add_right_comm, ← size]
  · have books : behind (Ledger.book accepted step) l =
        { l with writer := b', spilt := l.spilt + BufferedWriter.spill l.writer b' } := by
      simp only [behind, Ledger.book, failed]
    rw [books]
    exact ⟨order.trans more, by rw [larger, ← Nat.add_assoc, ← size]⟩

variable [WriteStream σ]

theorem Balanced.write (h : Balanced l) (o : Octets) : Balanced (behind (WriteStream.write o) l) :=
  h.book (BufferedWriter.write_cases o l.writer)

theorem Balanced.flush (h : Balanced l) : Balanced (behind WriteStream.flush l) := by
  refine h.book ((BufferedWriter.flush_cases l.writer).imp_left ?_)
  rintro ⟨b', done, same, -⟩
  exact ⟨(), b', done, by rw [same, List.append_nil]⟩

theorem Balanced.close (h : Balanced l) : Balanced (behind WriteStream.close l) := by
  refine h.book ((BufferedWriter.close_cases l.writer).imp_left ?_)
  rintro ⟨b', done, same, -⟩
  exact ⟨(), b', done, by rw [same, List.append_nil]⟩

/-- Writing all of some octets is a number of writes, of which only the last one may fail. -/
theorem Balanced.drain (h : Balanced l) (rounds : Nat) (o : Octets) :
    Balanced (behind (drain rounds o) l) := by
  induction rounds generalizing l o with
  | zero => exact h
  | succ rounds ih =>
      by_cases empty : o = []
      · subst empty
        exact h
      · have kept := h.write o
        rw [behind] at kept ⊢
        cases written : WriteStream.write o l with
        | error e l' =>
            rw [written] at kept
            simpa [ZoneSync.drain, empty, written] using kept
        | ok n l' =>
            rw [written] at kept
            cases n with
            | zero => simpa [ZoneSync.drain, empty, written] using kept
            | succ n =>
                simpa [ZoneSync.drain, empty, written, behind] using ih kept (o.drop (n + 1))

theorem Balanced.perform (h : Balanced l) (call : WriteCall) :
    Balanced (behind call.perform l) := by
  cases call with
  | write o => exact behind_discard (WriteStream.write o) l ▸ h.write o
  | writeAll o => exact h.drain o.length o
  | flush => exact h.flush
  | close => exact h.close

theorem Balanced.run (h : Balanced l) (calls : List WriteCall) :
    Balanced (WriteCall.run calls l) := by
  induction calls generalizing l with
  | nil => exact h
  | cons call calls ih => exact ih (h.perform call)

/-- A flush or a close that succeeds leaves nothing held, and spills nothing. -/
theorem held_of_perform {l' : Ledger σ} {call : WriteCall} (last : call = .flush ∨ call = .close)
    (done : call.perform l = .ok () l') : l'.writer.held = [] := by
  have empty (step : StreamM (BufferedWriter (Recorded σ)) Unit)
      (cases : (∃ b', step l.writer = .ok () b' ∧ b'.content = l.writer.content ∧ b'.held = []) ∨
        ∃ e b', step l.writer = .error e b' ∧ BufferedWriter.Spilt l.writer b')
      (done : book (fun _ => []) step l = .ok () l') : l'.writer.held = [] := by
    rcases cases with ⟨b', passed, -, empty⟩ | ⟨e, b', failed, -⟩
    · rw [book, passed] at done
      obtain ⟨-, rfl⟩ := EStateM.Result.ok.inj done
      exact empty
    · rw [book, failed] at done
      cases done
  rcases last with rfl | rfl
  · exact empty WriteStream.flush (BufferedWriter.flush_cases l.writer) done
  · exact empty WriteStream.close (BufferedWriter.close_cases l.writer) done

/-- Nothing that was accepted is lost, and what is delivered twice is what was spilt: what a failed
call delivered of the octets that it left in the buffer. -/
theorem account (stream : σ) (capacity : Nat) (calls : List WriteCall) :
    let l := WriteCall.run calls (opened capacity stream)
    l.accepted.Sublist (l.delivered ++ l.writer.held) ∧
    l.delivered.length + l.writer.held.length = l.accepted.length + l.spilt ∧
    (l.spilt = 0 → l.delivered <+: l.accepted) ∧
    ∀ (call : WriteCall) (l' : Ledger σ), call = .flush ∨ call = .close →
      call.perform l = .ok () l' →
      l'.accepted.Sublist l'.delivered ∧ (l'.spilt = 0 ↔ l'.delivered <+: l'.accepted) ∧
        (l'.spilt = 0 ↔ l'.delivered = l'.accepted) := by
  intro l
  have balanced : Balanced l := (balanced_opened capacity stream).run calls
  refine ⟨balanced.1, ?_, fun clean => ?_, fun call l' last done => ?_⟩
  · rw [← balanced.2, BufferedWriter.content, List.length_append]
    rfl
  · exact ⟨l.writer.held, balanced.content_eq clean⟩
  · have kept := balanced.perform call
    rw [behind, done] at kept
    exact kept.settled (held_of_perform last done)

/-- A connection takes two of four octets and then times out. The next flush sends all four. -/
theorem resent_after_failure :
    let channel : OutboundChannel :=
      { departures := [.accept 2, .failure .timedOut], flushFailure := none }
    let l := WriteCall.run [.writeAll [1, 2, 3, 4], .flush] (opened 8 channel)
    ∃ l', WriteCall.flush.perform l = .ok () l' ∧ l'.accepted = [1, 2, 3, 4] ∧
      l'.delivered = [1, 2, 1, 2, 3, 4] ∧ ¬ l'.delivered <+: l'.accepted :=
  ⟨_, rfl, rfl, rfl, by decide⟩

end Ledger
end ZoneSync
