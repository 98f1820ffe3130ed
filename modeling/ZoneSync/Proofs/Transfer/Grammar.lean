import ZoneSync.Proofs.Transfer.Assembling
import ZoneSync.Proofs.Zone.Chain
import ZoneSync.Transfer.Primary

/-!
The grammar of transfer answers: which sequences of records are answers, and what each of them
means. A full answer and an incremental one in either framing have one constructor each, and so
has the answer that there is nothing new.
-/

namespace ZoneSync

/-- No record is a start of authority. Opaque data of that type is not one. -/
def Plain (records : List Record) : Prop := ∀ r ∈ records, r.soaRecord? = none

instance (records : List Record) : Decidable (Plain records) :=
  inferInstanceAs (Decidable (∀ r ∈ records, r.soaRecord? = none))

theorem Plain.concat {records : List Record} {r : Record} (h : Plain records)
    (hr : r.soaRecord? = none) : Plain (records ++ [r]) := by
  intro s hs
  cases List.mem_append.mp hs with
  | inl hs => exact h s hs
  | inr hs =>
      rw [List.mem_singleton.mp hs]
      exact hr

/-- Every start of authority among the records is that of the zone. -/
def OwnedBy (origin : Name) (records : List Record) : Prop :=
  ∀ r ∈ records, ∀ soa, r.soaRecord? = some soa → soa.owner.same origin

theorem ownedBy_append {origin : Name} {records later : List Record} :
    OwnedBy origin (records ++ later) ↔ OwnedBy origin records ∧ OwnedBy origin later :=
  List.forall_mem_append

theorem ownedBy_soa {origin : Name} {soa : SoaRecord} {later : List Record} :
    OwnedBy origin (soa.record :: later) ↔ soa.owner.same origin ∧ OwnedBy origin later := by
  simp [OwnedBy]

/-- A diff as it can stand in an answer: it does not go back, and its changes are plain. -/
structure ZoneDiff.Sendable (d : ZoneDiff) : Prop where
  forward : d.toSerial.greaterOrEqual d.fromSerial
  removed : Plain d.removed
  added : Plain d.added

/-- Diffs lead to the serial that their chain ends at. -/
theorem Received.serial_delta {diffs : List ZoneDiff} {start stop : Serial}
    (contiguous : ZoneDiff.isContiguous diffs start stop) :
    (Received.delta start diffs).serial = stop := by
  rcases List.eq_nil_or_concat diffs with rfl | ⟨older, last, rfl⟩
  · simpa [ZoneDiff.isContiguous, serial] using contiguous
  · rw [List.concat_eq_append] at contiguous ⊢
    simpa [serial] using (ZoneDiff.isContiguous_concat.mp contiguous).2

/-- The records of diffs and the one behind them begin with a start of authority. -/
theorem exists_soa_cons (diffs : List ZoneDiff) (last : SoaRecord) (more : List Record) :
    ∃ (soa : SoaRecord) (rest : List Record),
      diffs.flatMap Primary.diffRecords ++ last.record :: more = soa.record :: rest := by
  cases diffs with
  | nil => exact ⟨last, more, rfl⟩
  | cons d later => exact ⟨d.fromSoa, _, rfl⟩

/-- The complete answers and their content. -/
inductive Answer (e : Expectation) : List Record → Received → Prop
  /-- A zone, with its start of authority again at the end or not. Where changes were asked
  for, it is at another serial than the one they were asked for since. -/
  | full {soa : SoaRecord} {body : List Record} {closing : Option SoaRecord}
      (start : e.deltaStart ≠ some soa.serial) (body_plain : Plain body)
      (closing_serial : ∀ last ∈ closing, last.serial = soa.serial) :
      Answer e (soa.record :: body ++ closing.toList.map SoaRecord.record) (.full soa body)
  /-- The start of authority that the secondary has, alone. -/
  | upToDate {soa : SoaRecord} (start : e.deltaStart = some soa.serial) :
      Answer e [soa.record] (.upToDate soa.serial)
  /-- Diffs and the start of authority they end with. They reach the known target. -/
  | chain {old : Serial} {diffs : List ZoneDiff} {last : SoaRecord}
      (start : e.deltaStart = some old) (nonempty : diffs ≠ [])
      (sendable : ∀ d ∈ diffs, d.Sendable)
      (contiguous : ZoneDiff.isContiguous diffs old last.serial)
      (reached : ∀ target, e.target = some target → ¬ last.serial.less target) :
      Answer e (diffs.flatMap Primary.diffRecords ++ [last.record]) (.delta old diffs)
  /-- Diffs between two copies of the start of authority they lead to. -/
  | framed {old : Serial} {diffs : List ZoneDiff} {first last : SoaRecord}
      (start : e.deltaStart = some old) (other : first.serial ≠ old) (nonempty : diffs ≠ [])
      (sendable : ∀ d ∈ diffs, d.Sendable)
      (contiguous : ZoneDiff.isContiguous diffs old first.serial)
      (bounded : ∀ d ∈ diffs, d.toSerial.lessOrEqual first.serial)
      (early : ∀ d ∈ diffs.dropLast, d.toSerial ≠ first.serial)
      (closed : last.serial = first.serial) :
      Answer e (first.record :: diffs.flatMap Primary.diffRecords ++ [last.record])
        (.delta old diffs)

theorem Answer.eq_cons {e : Expectation} {records : List Record} {result : Received}
    (h : Answer e records result) :
    ∃ (soa : SoaRecord) (later : List Record), records = soa.record :: later := by
  cases h with
  | @full soa => exact ⟨soa, _, rfl⟩
  | @upToDate soa => exact ⟨soa, [], rfl⟩
  | chain _ nonempty =>
      obtain ⟨d, later, rfl⟩ := List.exists_cons_of_ne_nil nonempty
      exact ⟨d.fromSoa, _, rfl⟩
  | @framed _ _ first => exact ⟨first, _, rfl⟩

/-- A zone whose start of authority does not come again. -/
theorem answer_full_open {e : Expectation} {soa : SoaRecord} {body : List Record}
    (start : e.deltaStart ≠ some soa.serial) (plain : Plain body) :
    Answer e (soa.record :: body) (.full soa body) := by
  have closing : ∀ last ∈ (none : Option SoaRecord), last.serial = soa.serial := nofun
  have answer := Answer.full start plain closing
  rwa [Option.toList_none, List.map_nil, List.append_nil] at answer

end ZoneSync
