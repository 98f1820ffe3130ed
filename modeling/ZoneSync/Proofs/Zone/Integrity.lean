import Mathlib.Data.List.Forall2
import ZoneSync.Proofs.Record.Decoding
import ZoneSync.Proofs.Stream.Ending
import ZoneSync.Proofs.Zone.Snapshot

/-!
What a snapshot was read from: the announced number of records behind the first line feed, and
nothing else. Where each record of a written snapshot stands, no other form of a record is read, so
neither a part of a snapshot nor more than it can be taken for one.
-/

namespace ZoneSync

namespace Record

/-- The octets are a form in which the record is read. -/
def LaidOut (o : Octets) (r : Record) : Prop :=
  ∃ owner declared names data, o = r.wireWith owner declared data ∧
    r.ReadFrom owner declared names data

theorem LaidOut.ne_nil {o : Octets} {r : Record} (h : LaidOut o r) : o ≠ [] := by
  obtain ⟨owner, declared, names, data, rfl, -⟩ := h
  intro none
  have length := congrArg List.length none
  simp [wireWith] at length

theorem LaidOut.append_inj {o p q : Octets} {r s : Record} (h : LaidOut o r)
    (same : o ++ p = s.wire ++ q) : o = s.wire ∧ p = q := by
  obtain ⟨owner, declared, names, data, rfl, found⟩ := h
  exact found.append_inj same

/-- As many records as were written are read from the octets written, or not at all. -/
theorem laidOut_append_inj {os : List Octets} {rs ss : List Record} {p q : Octets}
    (h : List.Forall₂ LaidOut os rs) (count : rs.length = ss.length)
    (same : os.flatten ++ p = ss.flatMap wire ++ q) : os.flatten = ss.flatMap wire ∧ p = q := by
  induction h generalizing ss with
  | nil =>
      obtain rfl := List.eq_nil_of_length_eq_zero count.symm
      exact ⟨rfl, same⟩
  | cons laid _ ih =>
      cases ss with
      | nil => cases count
      | cons s later =>
          rw [List.flatten_cons, List.flatMap_cons, List.append_assoc, List.append_assoc] at same
          obtain ⟨rfl, rest⟩ := laid.append_inj same
          obtain ⟨others, rest⟩ := ih (Nat.succ_inj.mp count) rest
          exact ⟨by rw [List.flatten_cons, List.flatMap_cons, others], rest⟩

end Record

namespace Snapshot

/-- The first line and the octets of the records that a snapshot was read from. -/
structure ReadFrom (s : Snapshot) (first : Octets) (heading : Heading) (os : List Octets) :
    Prop where
  unbroken : 0x0a ∉ first
  told : (Octets.toText? (Line.chomp first)).bind Heading.ofText? = some heading
  origin : heading.origin = s.origin
  serial : s.soa.soa?.map Soa.serial = some heading.serial
  count : heading.count = s.records.length + 1
  records : List.Forall₂ Record.LaidOut os (s.soa :: s.records)

section Read

variable {σ : Type} [ReadStream σ] {At : σ → Octets → Octets → Prop} {before after : Octets}
  {st st' : σ}

theorem takes_readRecords (faithful : Faithful At) (expected left : Nat) :
    Takes At before (readRecords expected left) fun o records =>
      ∃ os, o = os.flatten ∧ List.Forall₂ Record.LaidOut os records ∧ records.length = left := by
  induction left generalizing before with
  | zero => exact takes_pure ⟨[], rfl, .nil, rfl⟩
  | succ left ih =>
      refine ((Record.takes_read faithful).adaptExcept _).bind fun o r laid => ?_
      refine ih.bind_pure ?_
      rintro _ later ⟨os, rfl, others, length⟩
      exact ⟨o :: os, rfl, .cons laid others, congrArg Nat.succ length⟩

theorem readEnd_eq_ok (faithful : Faithful At) (settles : Settles At) (stands : At st before after)
    (h : readEnd st = .ok () st') : after = [] ∧ At st' before [] := by
  rw [readEnd] at h
  split at h
  · rename_i t ended
    obtain ⟨-, rfl⟩ := EStateM.Result.ok.inj h
    exact readUInt8_end faithful settles stands ended
  · cases h
  · cases h

/-- The steps of a reader that succeeds. -/
theorem steps_of_read {s : Snapshot} (h : read st = .ok s st') :
    ∃ text lined heading opening start filled,
      Line.read maxHeadingLength st = .ok text lined ∧
      Heading.ofText? text = some heading ∧ heading.origin = s.origin ∧
      Record.read lined = .ok s.soa opening ∧ s.soa.soa? = some start ∧
      start.serial = heading.serial ∧
      readRecords heading.count (heading.count - 1) opening = .ok s.records filled ∧
      readEnd filled = .ok () st' := by
  obtain ⟨text, lined, line, h⟩ := bind_eq_ok.mp h
  cases told : Heading.ofText? text with
  | none =>
      simp only [told] at h
      cases h
  | some heading =>
      simp only [told] at h
      obtain ⟨soa, opening, opened, h⟩ := bind_eq_ok.mp h
      cases found : soa.soa? with
      | none =>
          simp only [found] at h
          cases h
      | some start =>
          simp only [found] at h
          by_cases other : start.serial = heading.serial
          · rw [if_neg (not_not.mpr other)] at h
            obtain ⟨records, filled, taken, h⟩ := bind_eq_ok.mp h
            obtain ⟨_, last, ended, h⟩ := bind_eq_ok.mp h
            obtain ⟨rfl, rfl⟩ := EStateM.Result.ok.inj h
            exact ⟨text, lined, heading, opening, start, filled, adaptExcept_eq_ok.mp line, told,
              rfl, adaptExcept_eq_ok.mp opened, found, other, taken, ended⟩
          · rw [if_pos other] at h
            cases h

/-- A snapshot that is read takes up its stream to the end. -/
theorem read_eq_ok (faithful : Faithful At) (settles : Settles At) (stands : At st before after)
    {s : Snapshot} (h : read st = .ok s st') :
    ∃ first heading os, after = first ++ 0x0a :: os.flatten ∧ s.ReadFrom first heading os ∧
      At st' (before ++ after) [] := by
  obtain ⟨text, lined, heading, opening, start, filled, line, told, origin, opened, found, serial,
    taken, ended⟩ := steps_of_read h
  obtain ⟨first, ending, rest, rfl, unbroken, ends, decoded, lines⟩ :=
    Line.read_eq_ok faithful settles stands line
  obtain ⟨o, between, split, laid, opens⟩ :=
    Record.takes_read faithful lined opening rest s.soa lines opened
  cases ends with
  | last =>
      -- Behind a line that ends with the stream there is no record to be read.
      have none : o = [] := (List.append_eq_nil_iff.mp split.symm).1
      exact absurd none (Record.LaidOut.ne_nil laid)
  | feed =>
      obtain ⟨_, rest, rfl, ⟨os, rfl, others, length⟩, fills⟩ :=
        takes_readRecords faithful _ _ opening filled between s.records opens taken
      obtain ⟨rfl, ends⟩ := readEnd_eq_ok faithful settles fills ended
      refine ⟨first, heading, o :: os, by simp [split], ?_, by simpa [split] using ends⟩
      have count := Heading.count_pos told
      exact
        { unbroken
          told := by rw [decoded]; exact told
          origin
          serial := by rw [found, ← serial]; rfl
          count := by omega
          records := .cons laid others }

end Read

/-- Of all octets that begin as a written snapshot does, or with it, a snapshot is read from those
written only. -/
theorem ReadFrom.eq_octets {s t : Snapshot} {first : Octets} {heading : Heading}
    {os : List Octets} {p q : Octets} (h : t.ReadFrom first heading os)
    (same : first ++ 0x0a :: os.flatten ++ p = s.octets ++ q) :
    first ++ 0x0a :: os.flatten = s.octets := by
  rw [octets, List.append_assoc, List.append_assoc, List.cons_append, List.cons_append] at same
  have unbroken : 0x0a ∉ Octets.ofText s.heading.text := fun feed =>
    (s.heading.unbroken_text 0x0a feed).1 rfl
  obtain ⟨rfl, rest⟩ := Line.feed_append_inj h.unbroken unbroken same
  have told := h.told
  rw [Line.chomp_of_unbroken s.heading.unbroken_text, Octets.toText?_ofText] at told
  have count : heading.count = s.records.length + 1 := Heading.count_of_ofText?_text told
  have counted : (t.soa :: t.records).length = (s.soa :: s.records).length :=
    h.count.symm.trans count
  obtain ⟨records, -⟩ := Record.laidOut_append_inj h.records counted rest
  rw [octets, records]

/-- No snapshot is read from the octets, and a store that is to load one stays as it is. -/
def Refused (o : Octets) : Prop :=
  (∃ e r, read (MemoryReader.ofOctets o) = .error e r) ∧
    ∀ {τ : Type} [ZoneStorage τ] (store : τ),
      ∃ e r, load (store, MemoryReader.ofOctets o) = .error e (store, r)

theorem refused_of_read {o : Octets}
    (h : ∀ s r, read (MemoryReader.ofOctets o) ≠ .ok s r) : Refused o := by
  cases failed : read (MemoryReader.ofOctets o) with
  | ok s r => exact absurd failed (h s r)
  | error e r => exact ⟨⟨e, r, failed⟩, fun store => ⟨e, r, by rw [load, failed]⟩⟩

theorem refused_of_append_eq {s : Snapshot} {o p q : Octets} (same : o ++ p = s.octets ++ q)
    (other : o ≠ s.octets) : Refused o := by
  refine refused_of_read fun t r got => ?_
  obtain ⟨first, heading, os, rfl, found, -⟩ :=
    read_eq_ok MemoryReader.faithful MemoryReader.settles (MemoryReader.stands_ofOctets o) got
  exact other (found.eq_octets same)

/-- What is written of a snapshot is refused if any of it is missing at the end, or anything
follows. Whatever a snapshot is read from is taken up as a whole: a line that announces the serial
and the number of records, and as many records. -/
theorem damage_refused :
    (∀ s : Snapshot, ∃ w, s.write ({} : MemoryWriter) = .ok () w ∧
      (∀ o, o <+: w.content → o ≠ w.content → Refused o) ∧
      ∀ extra, extra ≠ [] → Refused (w.content ++ extra)) ∧
    ∀ (o : Octets) (s : Snapshot) (r : MemoryReader),
      read (MemoryReader.ofOctets o) = .ok s r →
      ∃ first heading os, o = first ++ 0x0a :: os.flatten ∧ s.ReadFrom first heading os ∧
        r.Stands o [] := by
  refine ⟨fun s => ?_, fun o s r got => ?_⟩
  · obtain ⟨w, written, -, content⟩ := write_eq MemoryWriter.sink s
      (⟨rfl, rfl⟩ : MemoryWriter.Holds {} [])
    rw [List.nil_append] at content
    refine ⟨w, written, ?_, ?_⟩
    · rintro o ⟨missing, whole⟩ other
      rw [content] at whole other
      exact refused_of_append_eq (q := []) (by rw [whole, List.append_nil]) other
    · intro extra nonempty
      rw [content]
      refine refused_of_append_eq (p := []) (List.append_nil _) fun same => nonempty ?_
      exact List.append_right_eq_self.mp same
  · exact read_eq_ok MemoryReader.faithful MemoryReader.settles (MemoryReader.stands_ofOctets o) got

/-- A snapshot that is cut between its two records, and one with an octet behind it. -/
theorem damage_refused_small :
    let s := small ⟨[⟨[0x61, 0x2d, 0x62], by decide, by decide⟩], by decide⟩
    Refused (Octets.ofText s.heading.text ++ 0x0a :: s.soa.wire) ∧ Refused (s.octets ++ [0]) := by
  intro s
  obtain ⟨w, written, cut, longer⟩ := damage_refused.1 s
  have content : w.content = s.octets := by
    obtain ⟨w', again, -, content⟩ := write_eq MemoryWriter.sink s
      (⟨rfl, rfl⟩ : MemoryWriter.Holds {} [])
    obtain ⟨-, rfl⟩ := EStateM.Result.ok.inj (written.symm.trans again)
    exact content
  rw [content] at cut longer
  have later : (Octets.ofText s.heading.text ++ 0x0a :: s.soa.wire) ++ s.records.flatMap Record.wire
      = s.octets := by
    simp [octets]
  refine ⟨cut _ ⟨_, later⟩ fun whole => ?_, longer [0] (by decide)⟩
  rw [whole] at later
  exact absurd (List.append_right_eq_self.mp later) (by decide)

end Snapshot
end ZoneSync
