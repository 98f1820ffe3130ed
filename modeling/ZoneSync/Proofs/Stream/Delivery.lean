import ZoneSync.Proofs.Stream.Source
import ZoneSync.Stream.Channel
import ZoneSync.Stream.Framing

/-!
Streams that end behind given octets, streams that accept octets, and messages in frames on both of
them. A stream that is written to may fail at any call. A step that delivers octets has all of them
accepted, or it ends with the call that failed, and then the stream is as that call has left it:
nothing was done with it any more, and what it had accepted is the first part of the octets.
-/

namespace ZoneSync

/-- The stream ends behind its octets, and it knows a bound on their number. -/
structure Ends {σ : Type} [ReadStream σ] (At : σ → Octets → Octets → Prop) : Prop where
  ended : ∀ {s before} {n : Nat}, At s before [] → 0 < n →
    ∃ s', ReadStream.read n s = .error .endOfStream s'
  bound : ∀ {s before after}, At s before after → after.length ≤ ReadStream.available s

/-- `Has s got` relates the states of a stream to the octets it has accepted. No write and no
flush fails, and a write accepts some of what it is offered. -/
structure Sink {σ : Type} [WriteStream σ] (Has : σ → Octets → Prop) : Prop where
  write : ∀ {s got o}, Has s got → o ≠ [] → ∃ size s', 0 < size ∧ size ≤ o.length ∧
    WriteStream.write o s = .ok size s' ∧ Has s' (got ++ o.take size)
  flush : ∀ {s got}, Has s got → ∃ s', WriteStream.flush s = .ok () s' ∧ Has s' got

theorem MemoryReader.ends : Ends MemoryReader.Stands where
  ended := by
    rintro r before n ⟨opened, data, position⟩ pos
    have left : r.left = 0 := by
      simp [MemoryReader.left, ← Array.length_toList, data, position]
    have some_n : n ≠ 0 := by omega
    exact ⟨r, by simp [ReadStream.read, opened, some_n, left]⟩
  bound := by
    rintro r before after ⟨opened, data, position⟩
    simp [ReadStream.available, remaining, opened, left, ← Array.length_toList, data, position]

/-- An open writer has accepted what it holds. -/
def MemoryWriter.Holds (w : MemoryWriter) (got : Octets) : Prop := w.isOpen ∧ w.content = got

theorem MemoryWriter.sink : Sink MemoryWriter.Holds where
  write := by
    rintro w got o ⟨opened, rfl⟩ nonempty
    refine ⟨o.length, { w with content := w.content ++ o }, List.length_pos_iff.mpr nonempty,
      Nat.le_refl _, by simp [WriteStream.write, opened], opened, by simp⟩
  flush := by
    rintro w got ⟨opened, rfl⟩
    exact ⟨w, by simp [WriteStream.flush, opened], opened, rfl⟩

section Write

variable {σ : Type} [WriteStream σ] {Has : σ → Octets → Prop} {got : Octets}

/-- `Has s got` relates the states of a stream to the octets it has accepted. Any call may fail, and
a write that does not fail accepts some of what it is offered. Nothing is said of a stream that has
failed. -/
structure Fallible (Has : σ → Octets → Prop) : Prop where
  write : ∀ {s got o}, Has s got → o ≠ [] →
    (∃ size s', 0 < size ∧ size ≤ o.length ∧ WriteStream.write o s = .ok size s' ∧
      Has s' (got ++ o.take size)) ∨ ∃ e s', WriteStream.write o s = .error e s'
  flush : ∀ {s got}, Has s got →
    (∃ s', WriteStream.flush s = .ok () s' ∧ Has s' got) ∨ ∃ e s', WriteStream.flush s = .error e s'

theorem Sink.fallible (sink : Sink Has) : Fallible Has where
  write has nonempty := .inl (sink.write has nonempty)
  flush has := .inl (sink.flush has)

/-- The stream is as a call has left it that failed when `got` was accepted. -/
inductive BrokenAt (Has : σ → Octets → Prop) (got : Octets) : σ → Prop
  | write {s s' : σ} {o : Octets} {e : StreamError} (has : Has s got) (nonempty : o ≠ [])
      (failed : WriteStream.write o s = .error e s') : BrokenAt Has got s'
  | flush {s s' : σ} {e : StreamError} (has : Has s got)
      (failed : WriteStream.flush s = .error e s') : BrokenAt Has got s'

theorem Sink.not_brokenAt (sink : Sink Has) (s : σ) : ¬ BrokenAt Has got s := by
  rintro (⟨has, nonempty, failed⟩ | ⟨has, failed⟩)
  · obtain ⟨size, s', -, -, written, -⟩ := sink.write has nonempty
    rw [written] at failed
    cases failed
  · obtain ⟨s', flushed, -⟩ := sink.flush has
    rw [flushed] at failed
    cases failed

/-- The step has the octets `o` accepted, or a call of it fails and ends it. -/
def Delivers (Has : σ → Octets → Prop) (got : Octets) (step : StreamM σ Unit) (o : Octets) : Prop :=
  ∀ s, Has s got → (∃ s', step s = .ok () s' ∧ Has s' (got ++ o)) ∨
    ∃ e s' part, step s = .error e s' ∧ part <+: o ∧ BrokenAt Has (got ++ part) s'

theorem delivers_pure : Delivers Has got (pure ()) [] := fun s has =>
  .inl ⟨s, rfl, by rwa [List.append_nil]⟩

theorem Delivers.seq {x y : StreamM σ Unit} {o p : Octets} (first : Delivers Has got x o)
    (second : Delivers Has (got ++ o) y p) : Delivers Has got (x >>= fun _ => y) (o ++ p) := by
  intro s has
  rcases first s has with ⟨middle, done, has⟩ | ⟨e, s', part, failed, early, broken⟩
  · rcases second middle has with ⟨s', also, has⟩ | ⟨e, s', part, failed, early, broken⟩
    · exact .inl ⟨s', (bind_of_ok done).trans also, by rwa [← List.append_assoc]⟩
    · refine .inr ⟨e, s', o ++ part, (bind_of_ok done).trans failed, ?_, ?_⟩
      · exact (List.prefix_append_right_inj o).mpr early
      · rwa [← List.append_assoc]
  · exact .inr ⟨e, s', part, bind_of_error failed, early.trans (List.prefix_append o p), broken⟩

variable (fallible : Fallible Has)
include fallible

theorem delivers_drain {rounds : Nat} {o : Octets} (enough : o.length ≤ rounds) :
    Delivers Has got (drain rounds o) o := by
  induction rounds generalizing got o with
  | zero =>
      obtain rfl : o = [] := List.eq_nil_of_length_eq_zero (Nat.le_zero.mp enough)
      exact delivers_pure
  | succ rounds ih =>
      intro s has
      by_cases empty : o = []
      · subst empty
        exact .inl ⟨s, by simp [drain], by rwa [List.append_nil]⟩
      · rcases fallible.write has empty with
          ⟨size, middle, size_pos, size_le, written, has⟩ | ⟨e, s', failed⟩
        · obtain ⟨size, rfl⟩ := Nat.exists_eq_succ_of_ne_zero (Nat.ne_of_gt size_pos)
          have step : drain (rounds + 1) o s = drain rounds (o.drop (size + 1)) middle := by
            simp [drain, empty, written]
          have rest : Delivers Has (got ++ o.take (size + 1)) (drain rounds (o.drop (size + 1)))
              (o.drop (size + 1)) := ih (by rw [List.length_drop]; omega)
          rcases rest middle has with ⟨s', done, has⟩ | ⟨e, s', part, failed, early, broken⟩
          · refine .inl ⟨s', step.trans done, ?_⟩
            rwa [List.append_assoc, List.take_append_drop] at has
          · refine .inr ⟨e, s', o.take (size + 1) ++ part, step.trans failed, ?_, ?_⟩
            · have longer := (List.prefix_append_right_inj (o.take (size + 1))).mpr early
              rwa [List.take_append_drop] at longer
            · rwa [← List.append_assoc]
        · refine .inr ⟨e, s', [], by simp [drain, empty, failed], List.nil_prefix, ?_⟩
          rw [List.append_nil]
          exact .write has empty failed

theorem delivers_writeAll (o : Octets) : Delivers Has got (writeAll o) o :=
  delivers_drain fallible (Nat.le_refl _)

theorem delivers_flush : Delivers Has got WriteStream.flush [] := by
  intro s has
  rcases fallible.flush has with ⟨s', done, has⟩ | ⟨e, s', failed⟩
  · exact .inl ⟨s', done, by rwa [List.append_nil]⟩
  · refine .inr ⟨e, s', [], failed, List.nil_prefix, ?_⟩
    rw [List.append_nil]
    exact .flush has failed

end Write

/-- On a stream that accepts everything the octets are delivered. -/
theorem Delivers.on_sink {σ : Type} [WriteStream σ] {Has : σ → Octets → Prop} {got o : Octets}
    {step : StreamM σ Unit} (h : Delivers Has got step o) (sink : Sink Has) {s : σ}
    (has : Has s got) : ∃ s', step s = .ok () s' ∧ Has s' (got ++ o) := by
  refine (h s has).resolve_right ?_
  rintro ⟨_, s', _, -, -, broken⟩
  exact sink.not_brokenAt s' broken

theorem writeAll_eq {σ : Type} [WriteStream σ] {Has : σ → Octets → Prop} {s : σ} {got : Octets}
    (sink : Sink Has) (o : Octets) (has : Has s got) :
    ∃ s', writeAll o s = .ok () s' ∧ Has s' (got ++ o) :=
  (delivers_writeAll sink.fallible o).on_sink sink has

namespace OutboundChannel

/-- An open connection to a peer that accepts something at each write that does not fail. -/
structure Took (c : OutboundChannel) (got : Octets) : Prop where
  opened : c.isOpen
  sent : c.sent = got
  accepts : ∀ limit, .accept limit ∈ c.departures → 0 < limit

theorem offer_cases {size : Nat} (pos : 0 < size) {departures : List Departure}
    (accepts : ∀ limit, .accept limit ∈ departures → 0 < limit) :
    (∃ n later, offer size departures = (.ok n, later) ∧ 0 < n ∧ n ≤ size ∧
      ∀ d ∈ later, d ∈ departures) ∨ ∃ e later, offer size departures = (.error e, later) := by
  induction departures with
  | nil => exact .inl ⟨size, [], rfl, pos, Nat.le_refl _, fun _ known => known⟩
  | cons d later ih =>
      cases d with
      | accept limit =>
          have some_room := accepts limit List.mem_cons_self
          refine .inl ⟨min limit size, later, rfl, by omega, Nat.min_le_right _ _, ?_⟩
          exact fun d known => List.mem_cons_of_mem _ known
      | failure kind =>
          by_cases again : kind = .interrupted
          · subst again
            have skipped : offer size (.failure .interrupted :: later) = offer size later := rfl
            rw [skipped]
            rcases ih fun limit known => accepts limit (List.mem_cons_of_mem _ known) with
              ⟨n, rest, offered, n_pos, n_le, known⟩ | failed
            · refine .inl ⟨n, rest, offered, n_pos, n_le, ?_⟩
              exact fun d h => List.mem_cons_of_mem _ (known d h)
            · exact .inr failed
          · refine .inr ⟨.io (.plain kind), later, ?_⟩
            cases kind <;> first | rfl | exact absurd rfl again

theorem fallible : Fallible Took where
  write := by
    intro c got o has nonempty
    obtain ⟨opened, rfl, accepts⟩ := has
    rcases offer_cases (List.length_pos_iff.mpr nonempty) accepts with
      ⟨n, later, offered, n_pos, n_le, known⟩ | ⟨e, later, failed⟩
    · refine .inl ⟨n, { c with departures := later, sent := c.sent ++ o.take n }, n_pos, n_le, ?_,
        opened, rfl, fun limit h => accepts limit (known _ h)⟩
      simp [WriteStream.write, opened, offered]
    · exact .inr ⟨e, { c with departures := later }, by simp [WriteStream.write, opened, failed]⟩
  flush := by
    intro c got has
    have opened := has.opened
    cases result : c.flushed with
    | ok _ => exact .inl ⟨c, by simp [WriteStream.flush, opened, result], has⟩
    | error e => exact .inr ⟨e, c, by simp [WriteStream.flush, opened, result]⟩

end OutboundChannel

namespace Framing

def frame (message : Octets) : Octets := Octets.ofNat 2 message.length ++ message

theorem toNat_length {message : Octets} (size : message.length ≤ 65535) :
    (UInt16.ofNat message.length).toNat = message.length := by
  rw [UInt16.toNat_ofNat']
  omega

/-- The length in front of a message is a word of two octets. -/
theorem frame_eq {message : Octets} (size : message.length ≤ 65535) :
    frame message = Octets.ofUInt16 (UInt16.ofNat message.length) ++ message := by
  rw [frame, Octets.ofUInt16, toNat_length size]

theorem delivers_write {σ : Type} [WriteStream σ] {Has : σ → Octets → Prop} {got : Octets}
    (fallible : Fallible Has) {message : Octets} (short : message.length ≤ 65535) :
    Delivers Has got (write message) (frame message) := by
  have parts : (write message : StreamM σ Unit) =
      (writeAll (Octets.ofNat 2 message.length) >>= fun _ => writeAll message) := by
    rw [write, if_neg (Nat.not_lt.mpr short)]
  rw [parts, frame]
  exact (delivers_writeAll fallible _).seq (delivers_writeAll fallible _)

theorem write_eq {σ : Type} [WriteStream σ] {Has : σ → Octets → Prop} {s : σ} {got : Octets}
    (sink : Sink Has) {message : Octets} (size : message.length ≤ 65535) (has : Has s got) :
    ∃ s', write message s = .ok () s' ∧ Has s' (got ++ frame message) :=
  (delivers_write sink.fallible size).on_sink sink has

variable {σ : Type} [ReadStream σ] {At : σ → Octets → Octets → Prop} {before : Octets}

theorem yields_read (source : Source At) {message : Octets} (size : message.length ≤ 65535) :
    Yields At before read (frame message) (some message) := by
  intro s rest hs
  rw [frame_eq size, List.append_assoc] at hs
  obtain ⟨middle, first, hs⟩ := yields_readUInt16 source (UInt16.ofNat message.length) s _ hs
  obtain ⟨s', second, hs⟩ := ((yields_readOctets source (toNat_length size).symm).within
    (UInt16.ofNat message.length).toNat 0) middle rest hs
  refine ⟨s', ?_, by rwa [frame_eq size, ← List.append_assoc]⟩
  simp only [read, first, second]

theorem read_end (ends : Ends At) {s : σ} (hs : At s before []) :
    ∃ s', read s = .ok none s' := by
  obtain ⟨s', ended⟩ := ends.ended (n := 2) hs (by omega)
  refine ⟨s', ?_⟩
  have failed : readUInt16 s = .error .endOfStream s' := by
    refine bind_of_error ?_
    simp [readOctets, fill, ended]
  simp [read, failed]

end Framing
end ZoneSync
