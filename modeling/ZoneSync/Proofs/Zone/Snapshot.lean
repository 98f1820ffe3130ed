import ZoneSync.Proofs.Name.Equality
import ZoneSync.Proofs.Name.Presentation
import ZoneSync.Proofs.Record.Codec
import ZoneSync.Proofs.Stream.Lines
import ZoneSync.Proofs.Zone.Distinct
import ZoneSync.Zone.Snapshot

/-!
Snapshots that are written and read. Everything but the origin is read as it was written. The
origin goes through its text, so it is read back exactly if that is written without escapes.
-/

namespace ZoneSync

theorem Serial.ofText_text (a : Serial) : ofText a.text = .ok a := by
  rw [ofText, text, Decimal.read_toString a.value.toNat_lt, Except.map, UInt32.ofNat_toNat]

namespace Snapshot

namespace Heading

/-- The words of a first line. -/
def words (h : Heading) : List String := [mark, h.origin.text, h.serial.text, toString h.count]

theorem text_eq (h : Heading) : h.text = " ".intercalate h.words := rfl

variable {h : Heading}

theorem isGraphic_of_mem_words {w : String} (known : w ∈ h.words) :
    ∀ c ∈ w.toList, IsGraphic c := by
  simp only [words, List.mem_cons, List.not_mem_nil, or_false] at known
  have first : mark.toList.all fun c => decide (IsGraphic c) := by decide
  rcases known with rfl | rfl | rfl | rfl
  · simpa using first
  · exact fun c => Name.isGraphic_of_mem_text
  · exact fun c => Decimal.isGraphic_of_mem_toString
  · exact fun c => Decimal.isGraphic_of_mem_toString

theorem ne_empty_of_mem_words {w : String} (known : w ∈ h.words) : w ≠ "" := by
  have number (n : Nat) : toString n ≠ "" := by
    rw [Nat.toString_eq_repr]
    exact Nat.repr_ne_empty
  simp only [words, List.mem_cons, List.not_mem_nil, or_false] at known
  rcases known with rfl | rfl | rfl | rfl
  · decide
  · exact Name.text_ne_empty
  · exact number _
  · exact number _

theorem unbroken_text (h : Heading) : Line.Unbroken h.text :=
  Line.unbroken_intercalate fun _ known => isGraphic_of_mem_words known

theorem words_text (h : Heading) : Blank.words h.text = h.words :=
  Blank.words_intercalate fun _ known => ⟨ne_empty_of_mem_words known, isGraphic_of_mem_words known⟩

/-- The words of a first line are told from each other, and all but the origin are what they
were. -/
theorem ofText?_text (pos : 0 < h.count) (few : h.count < UInt64.size) :
    ofText? h.text =
      (Name.ofText h.origin.text).toOption.map fun found => { h with origin := found } := by
  rw [ofText?, words_text, words]
  simp only [Serial.ofText_text, Decimal.read_toString few]
  cases Name.ofText h.origin.text with
  | error e => rfl
  | ok found => simp [Nat.ne_of_gt pos, Except.toOption]

theorem count_pos {line : String} (told : ofText? line = some h) : 0 < h.count := by
  rw [ofText?] at told
  split at told
  · split at told
    · cases told
    · split at told
      · split at told
        · cases told
        · rename_i some_record
          obtain rfl := Option.some.inj told
          exact Nat.pos_of_ne_zero some_record
      · cases told
  · cases told

/-- The number of records that a first line announces is the one written in it. -/
theorem count_of_ofText?_text {found : Heading} (told : ofText? h.text = some found) :
    found.count = h.count := by
  rw [ofText?, words_text, words] at told
  dsimp only at told
  split at told
  · cases told
  · split at told
    · rename_i count _ _ read
      split at told
      · cases told
      · obtain rfl := Option.some.inj told
        exact Decimal.eq_of_read_toString read
    · cases told

theorem length_text (fits : (Octets.ofText h.origin.text).length ≤ 254)
    (few : h.count < UInt64.size) : (Octets.ofText h.text).length ≤ maxHeadingLength := by
  have serial : (Octets.ofText h.serial.text).length ≤ 10 :=
    Decimal.length_toString_le (by omega) (Nat.lt_of_lt_of_le h.serial.value.toNat_lt (by decide))
  have count : (Octets.ofText (toString h.count)).length ≤ 20 :=
    Decimal.length_toString_le (by omega) (Nat.lt_of_lt_of_le few (by decide))
  have first : (Octets.ofText mark).length = 9 := by decide
  have blank : (Octets.ofText " ").length = 1 := by decide
  rw [text_eq, words]
  simp only [String.intercalate_cons_cons, String.intercalate_singleton, Octets.ofText_append,
    List.length_append, first, blank, maxHeadingLength]
  omega

end Heading

/-- The first line of a written snapshot. -/
def heading (s : Snapshot) : Heading :=
  { origin := s.origin, serial := s.serial, count := s.records.length + 1 }

/-- The octets of a written snapshot. -/
def octets (s : Snapshot) : Octets :=
  Octets.ofText s.heading.text ++ 0x0a :: (s.soa :: s.records).flatMap Record.wire

/-- There is room for the first line when the snapshot is read. -/
def Fits (s : Snapshot) : Prop := (Octets.ofText s.heading.text).length ≤ maxHeadingLength

theorem ofText?_heading {s : Snapshot} (few : s.records.length + 1 < UInt64.size) :
    Heading.ofText? s.heading.text =
      (Name.ofText s.origin.text).toOption.map fun found => { s.heading with origin := found } :=
  Heading.ofText?_text (Nat.succ_pos _) few

theorem serial_eq {s : Snapshot} {start : Soa} (opened : s.soa.soa? = some start) :
    s.serial = start.serial := by
  rw [serial, opened]

section Write

variable {σ : Type} [WriteStream σ] {Has : σ → Octets → Prop} {st : σ} {got : Octets}

theorem forM_write_eq (sink : Sink Has) (records : List Record) (has : Has st got) :
    ∃ st', records.forM Record.write st = .ok () st' ∧
      Has st' (got ++ records.flatMap Record.wire) := by
  induction records generalizing st got with
  | nil => exact ⟨st, rfl, by simpa using has⟩
  | cons r later ih =>
      obtain ⟨middle, first, has⟩ := writeAll_eq sink r.wire has
      obtain ⟨st', others, has⟩ := ih has
      exact ⟨st', (bind_of_ok first).trans others, by simpa using has⟩

theorem write_eq (sink : Sink Has) (s : Snapshot) (has : Has st got) :
    ∃ st', s.write st = .ok () st' ∧ Has st' (got ++ s.octets) := by
  obtain ⟨lined, line, has⟩ := Line.write_eq sink s.heading.text has
  obtain ⟨filled, records, has⟩ := forM_write_eq sink (s.soa :: s.records) has
  obtain ⟨st', flushed, has⟩ := sink.flush has
  refine ⟨st', ?_, by simpa [octets] using has⟩
  exact (bind_of_ok line).trans ((bind_of_ok records).trans flushed)

end Write

section Read

variable {σ : Type} [ReadStream σ] {At : σ → Octets → Octets → Prop} {before : Octets}

theorem yields_record (source : Source At) (remembers : Remembers At) {r : Record}
    (typed : r.WellTyped) : Yields At before Record.read r.wire r :=
  Record.yields_read source remembers typed .whole

theorem yields_readRecords (source : Source At) (remembers : Remembers At) {records : List Record}
    (typed : ∀ r ∈ records, r.WellTyped) (expected : Nat) :
    Yields At before (readRecords expected records.length) (records.flatMap Record.wire)
      records := by
  induction records generalizing before with
  | nil => exact yields_pure []
  | cons r later ih =>
      obtain ⟨first, others⟩ := List.forall_mem_cons.mp typed
      exact ((yields_record source remembers first).adaptExcept _).bind (ih others).bind_pure

theorem readEnd_eq (ends : Ends At) {st : σ} (hs : At st before []) :
    ∃ st', readEnd st = .ok () st' := by
  obtain ⟨st', ended⟩ := ends.ended (n := 1) hs (by omega)
  have failed : readUInt8 st = .error .endOfStream st' := by
    refine bind_of_error ?_
    simp [readOctets, fill, ended]
  exact ⟨st', by simp [readEnd, failed]⟩

variable {s : Snapshot} {st : σ}

theorem read_line (source : Source At) (fits : s.Fits) (hs : At st before s.octets) :
    ∃ st', (Line.read maxHeadingLength).adaptExcept SnapshotError.stream st =
        .ok s.heading.text st' ∧
      At st' (before ++ (Octets.ofText s.heading.text ++ [0x0a]))
        ((s.soa :: s.records).flatMap Record.wire) :=
  ((Line.yields_read source (Heading.unbroken_text _) fits).adaptExcept _) st _
    (by simpa [octets] using hs)

/-- Behind a first line with a name in it comes the rest of the snapshot, as it was written. -/
theorem read_found (source : Source At) (remembers : Remembers At) (ends : Ends At) {start : Soa}
    (opened : s.soa.soa? = some start) (typed : ∀ r ∈ s.records, r.WellTyped)
    (few : s.records.length + 1 < UInt64.size) (fits : s.Fits) {found : Name}
    (named : Name.ofText s.origin.text = .ok found) (hs : At st before s.octets) :
    ∃ st', read st = .ok { s with origin := found } st' := by
  obtain ⟨lined, line, hs⟩ := read_line source fits hs
  have told : Heading.ofText? s.heading.text = some { s.heading with origin := found } := by
    rw [ofText?_heading few, named]
    rfl
  have start_typed := (Record.isSome_soa?_iff.mp (Option.isSome_of_eq_some opened)).2
  obtain ⟨opening, first, hs⟩ := (yields_record source remembers
    start_typed).adaptExcept SnapshotError.record lined _ hs
  obtain ⟨filled, others, hs⟩ := yields_readRecords source remembers typed s.heading.count opening
    [] (by rwa [List.append_nil])
  obtain ⟨st', ended⟩ := readEnd_eq ends hs
  refine ⟨st', ?_⟩
  rw [read, bind_of_ok line]
  simp only [told]
  rw [bind_of_ok first]
  simp only [opened]
  have same : start.serial = s.heading.serial := (serial_eq opened).symm
  have count : s.heading.count - 1 = s.records.length := rfl
  simp only [same, ne_eq, not_true_eq_false, if_false, count]
  rw [bind_of_ok others, bind_of_ok ended]
  rfl

/-- A snapshot is read from its octets exactly if its first line has room and has a name in it.
That name is the origin of what is read, which is otherwise as it was written. -/
theorem read_eq_ok_iff (source : Source At) (remembers : Remembers At) (ends : Ends At)
    {start : Soa} (opened : s.soa.soa? = some start) (typed : ∀ r ∈ s.records, r.WellTyped)
    (few : s.records.length + 1 < UInt64.size) (hs : At st before s.octets) {t : Snapshot} :
    (∃ st', read st = .ok t st') ↔
      s.Fits ∧ ∃ found, Name.ofText s.origin.text = .ok found ∧ t = { s with origin := found } := by
  constructor
  · rintro ⟨st', got⟩
    by_cases fits : s.Fits
    · cases named : Name.ofText s.origin.text with
      | ok found =>
          obtain ⟨st'', same⟩ := read_found source remembers ends opened typed few fits named hs
          obtain ⟨rfl, -⟩ := EStateM.Result.ok.inj (got.symm.trans same)
          exact ⟨fits, found, rfl, rfl⟩
      | error e =>
          obtain ⟨lined, line, -⟩ := read_line source fits hs
          have told : Heading.ofText? s.heading.text = none := by
            rw [ofText?_heading few, named]
            rfl
          rw [read, bind_of_ok line] at got
          simp only [told] at got
          contradiction
    · obtain ⟨lined, long⟩ := Line.read_long source (Heading.unbroken_text s.heading)
        (Nat.not_le.mp fits) hs
      have failed : (Line.read maxHeadingLength).adaptExcept SnapshotError.stream st =
          .error (.stream .longLine) lined := by
        rw [EStateM.adaptExcept, long]
      rw [read, bind_of_error failed] at got
      contradiction
  · rintro ⟨fits, found, named, rfl⟩
    exact read_found source remembers ends opened typed few fits named hs

end Read

theorem same_of_mem_zip {records : List Record} {r r' : Record}
    (h : (r, r') ∈ records.zip records) : r.same r' := by
  induction records with
  | nil => simp at h
  | cons x later ih =>
      rw [List.zip_cons_cons, List.mem_cons, Prod.mk.injEq] at h
      rcases h with ⟨rfl, rfl⟩ | h
      · exact r'.same_refl
      · exact ih h

theorem same_refl (s : Snapshot) : s.same s := by
  have records (r r' : Record) (h : (r, r') ∈ s.records.zip s.records) : r.same r' :=
    same_of_mem_zip h
  simpa [same, Record.same_refl] using records

theorem isPlain_of_same {s : Snapshot} {found : Name}
    (named : Name.ofText s.origin.text = .ok found)
    (h : s.same { s with origin := found }) : s.origin.IsPlain := by
  have origin : s.origin.same found := by
    simp only [same, Bool.and_eq_true] at h
    exact h.1.1.1
  exact Name.isPlain_of_ofText named (Nat.le_of_eq (Name.length_eq_of_same origin).symm)

section Memory

variable {s : Snapshot} {start : Soa}

theorem reread_eq_ok_iff (opened : s.soa.soa? = some start) (typed : ∀ r ∈ s.records, r.WellTyped)
    (few : s.records.length + 1 < UInt64.size) :
    ∃ w, s.write ({} : MemoryWriter) = .ok () w ∧
      ∀ t, (∃ r, read (MemoryReader.ofOctets w.content) = .ok t r) ↔ s.Fits ∧
        ∃ found, Name.ofText s.origin.text = .ok found ∧ t = { s with origin := found } := by
  obtain ⟨w, written, -, content⟩ := write_eq MemoryWriter.sink s
    (⟨rfl, rfl⟩ : MemoryWriter.Holds {} [])
  have stands : (MemoryReader.ofOctets w.content).Stands [] s.octets :=
    content ▸ MemoryReader.stands_ofOctets w.content
  exact ⟨w, written, fun t => read_eq_ok_iff MemoryReader.source MemoryReader.remembers
    MemoryReader.ends opened typed few stands⟩

/-- Writing a snapshot to memory always succeeds. What is read from the octets written is equal to
the snapshot exactly if no octet of the origin is escaped in its text, and then it is the snapshot
itself. No list in memory has as many records as a machine word can count. -/
theorem reread_iff_isPlain (opened : s.soa.soa? = some start)
    (typed : ∀ r ∈ s.records, r.WellTyped) (few : s.records.length + 1 < UInt64.size) :
    ∃ w, s.write ({} : MemoryWriter) = .ok () w ∧
      ((∃ t r, read (MemoryReader.ofOctets w.content) = .ok t r ∧ s.same t) ↔ s.origin.IsPlain) ∧
      (s.origin.IsPlain → ∃ r, read (MemoryReader.ofOctets w.content) = .ok s r) := by
  obtain ⟨w, written, reads⟩ := reread_eq_ok_iff opened typed few
  have faithful (plain : s.origin.IsPlain) :
      ∃ r, read (MemoryReader.ofOctets w.content) = .ok s r :=
    (reads s).mpr ⟨Heading.length_text (Name.length_text_of_plain plain) few, s.origin,
      Name.ofText_text_of_plain plain, rfl⟩
  refine ⟨w, written, ⟨?_, fun plain => ?_⟩, faithful⟩
  · rintro ⟨t, r, got, same⟩
    obtain ⟨-, found, named, rfl⟩ := (reads t).mp ⟨r, got⟩
    exact isPlain_of_same named same
  · obtain ⟨r, got⟩ := faithful plain
    exact ⟨s, r, got, s.same_refl⟩

end Memory

/-- The start of authority of a small zone. -/
def smallSoa : Soa := ⟨.root, .root, ⟨9⟩, 1, 2, 3, 4⟩

/-- A zone of two records at an origin. -/
def small (origin : Name) : Snapshot where
  origin := origin
  soa := { owner := origin, cls := .internet, ttl := 3600, data := .soa smallSoa }
  records := [{ owner := origin, cls := .internet, ttl := 60, data := .a ⟨[192, 0, 2, 1], rfl⟩ }]

theorem reread_small :
    let s := small ⟨[⟨[0x61, 0x2d, 0x62], by decide, by decide⟩], by decide⟩
    s.soa.soa? = some smallSoa ∧ (∀ r ∈ s.records, r.WellTyped) ∧
      s.records.length + 1 < UInt64.size ∧
      ∃ w r, s.write ({} : MemoryWriter) = .ok () w ∧
        read (MemoryReader.ofOctets w.content) = .ok s r := by
  intro s
  have opened : s.soa.soa? = some smallSoa := rfl
  have typed : ∀ r ∈ s.records, r.WellTyped := by decide
  have few : s.records.length + 1 < UInt64.size := by decide
  have plain : s.origin.IsPlain := by decide
  obtain ⟨w, written, -, faithful⟩ := reread_iff_isPlain opened typed few
  obtain ⟨r, got⟩ := faithful plain
  exact ⟨opened, typed, few, w, r, written, got⟩

/-- The dot in a label is written behind a backslash. What is read are two labels, and the
backslash is in the first of them. -/
theorem dotted_origin_lost :
    let s := small ⟨[⟨[0x61, 0x2e, 0x62], by decide, by decide⟩], by decide⟩
    let other : Name := ⟨[⟨[0x61, 0x5c], by decide, by decide⟩, ⟨[0x62], by decide, by decide⟩],
      by decide⟩
    s.soa.soa? = some smallSoa ∧ (∀ r ∈ s.records, r.WellTyped) ∧
      ∃ w r, s.write ({} : MemoryWriter) = .ok () w ∧
        read (MemoryReader.ofOctets w.content) = .ok { s with origin := other } r ∧
        ¬ s.same { s with origin := other } := by
  intro s other
  have opened : s.soa.soa? = some smallSoa := rfl
  have typed : ∀ r ∈ s.records, r.WellTyped := by decide
  obtain ⟨w, written, reads⟩ := reread_eq_ok_iff opened typed (by decide)
  have fits : s.Fits := Heading.length_text (by decide) (by decide)
  have named : Name.ofText s.origin.text = .ok other := by decide
  obtain ⟨r, got⟩ := (reads _).mpr ⟨fits, other, named, rfl⟩
  exact ⟨opened, typed, w, r, written, got, by decide⟩

end Snapshot
end ZoneSync
