import ZoneSync.Proofs.Name.Equality
import ZoneSync.Zone.Generation

/-!
When a generation can be built and when diffs can be applied, and what comes out of it.
-/

namespace ZoneSync.Generation

/-- A record that can be part of a zone beside its start of authority. -/
structure Fits (origin : Name) (cls : RecordClass) (r : Record) : Prop where
  type : r.type ≠ .soa
  owner : r.owner.endsWith origin
  cls : r.cls = cls

theorem refusal?_eq_none_iff {origin : Name} {cls : RecordClass} {r : Record} :
    refusal? origin cls r = none ↔ Fits origin cls r := by
  rw [refusal?]
  constructor
  · intro h
    split at h
    · simp at h
    · split at h
      · simp at h
      · split at h
        · simp at h
        · exact ⟨by assumption, by simp_all, by simp_all⟩
  · intro h
    simp [h.type, h.owner, h.cls]

theorem check_eq_ok_iff {origin : Name} {cls : RecordClass} {records : List Record} :
    check origin cls records = .ok () ↔ ∀ r ∈ records, Fits origin cls r := by
  rw [check]
  simp only [← refusal?_eq_none_iff, ← List.findSome?_eq_none_iff]
  cases records.findSome? (refusal? origin cls) <;> simp

theorem Fits.congr_origin {origin other : Name} {cls : RecordClass} {r : Record}
    (h : Fits origin cls r) (same : origin.same other) : Fits other cls r :=
  ⟨h.type, Name.endsWith_congr_right same r.owner ▸ h.owner, h.cls⟩

theorem build_eq_ok_iff {token : Token} {origin : Name} {soa : Record} {records : List Record}
    {g : Generation} :
    build token origin soa records = .ok g ↔
      ∃ s : SoaRecord, soa = s.record ∧ s.owner.same origin ∧
        (∀ r ∈ records, Fits origin s.cls r) ∧ g = ⟨token, s, keepLast records⟩ := by
  rw [build]
  cases hs : soa.soaRecord? with
  | none =>
      have other : ∀ s : SoaRecord, soa ≠ s.record := by
        rintro s rfl
        simp [Record.soaRecord?, SoaRecord.record] at hs
      simp [other]
  | some s =>
      obtain rfl := Record.soaRecord?_eq_some.mp hs
      have unique : ∀ t : SoaRecord, s.record = t.record ↔ t = s := by
        intro t
        rw [← Record.soaRecord?_eq_some, hs, Option.some.injEq, eq_comm]
      simp only [unique, exists_eq_left, ← check_eq_ok_iff]
      cases owned : s.owner.same origin
      · simp
      · cases checked : check origin s.cls records with
        | error e => simp [Except.map]
        | ok u => simp [Except.map, eq_comm]

/-- What is built for a zone is built for it in every spelling of its name. -/
theorem build_congr_origin {token : Token} {origin other : Name} {soa : Record}
    {records : List Record} {g : Generation} (same : origin.same other)
    (h : build token origin soa records = .ok g) : build token other soa records = .ok g := by
  obtain ⟨s, rfl, owner, fits, rfl⟩ := build_eq_ok_iff.mp h
  exact build_eq_ok_iff.mpr
    ⟨s, rfl, Name.same_trans owner same, fun r hr => (fits r hr).congr_origin same, rfl⟩

theorem changeAll_eq_ok_iff {origin : Name} {cls : RecordClass} {records after : List Record}
    {diffs : List ZoneDiff} :
    changeAll origin cls records diffs = .ok after ↔
      (∀ d ∈ diffs, ∀ r ∈ d.added, Fits origin cls r) ∧ after = diffs.foldl change records := by
  induction diffs generalizing records with
  | nil => simp [changeAll, eq_comm]
  | cons d later ih =>
      simp only [changeAll, List.forall_mem_cons, List.foldl_cons, ← @check_eq_ok_iff _ _ d.added]
      cases checked : check origin cls d.added with
      | error e => simp [Except.bind]
      | ok u => simp [Except.bind, ih]

theorem apply_eq_ok_iff {g next : Generation} {token : Token} {origin : Name}
    {diffs : List ZoneDiff} :
    g.apply token origin diffs = .ok next ↔
      ∃ last, diffs.getLast? = some last ∧
        ZoneDiff.isContiguous diffs g.serial last.toSerial ∧
        (∀ d ∈ diffs, ∀ r ∈ d.added, Fits origin g.soa.cls r) ∧
        build token origin last.toSoa.record (diffs.foldl change g.records) = .ok next := by
  rw [apply]
  cases hl : diffs.getLast? with
  | none => simp
  | some last =>
      simp only [Option.some.injEq, exists_eq_left']
      by_cases contiguous : ZoneDiff.isContiguous diffs g.serial last.toSerial
      · cases changed : changeAll origin g.soa.cls g.records diffs with
        | error e =>
            have refused : ¬ ∀ d ∈ diffs, ∀ r ∈ d.added, Fits origin g.soa.cls r := fun fits => by
              rw [changeAll_eq_ok_iff.mpr ⟨fits, rfl⟩] at changed
              simp at changed
            simp [contiguous, refused, Except.bind]
        | ok after =>
            obtain ⟨fits, rfl⟩ := changeAll_eq_ok_iff.mp changed
            simpa [contiguous, Except.bind] using fun _ => fits
      · simp [contiguous]

theorem apply_congr_origin {g next : Generation} {token : Token} {origin other : Name}
    {diffs : List ZoneDiff} (same : origin.same other)
    (h : g.apply token origin diffs = .ok next) : g.apply token other diffs = .ok next := by
  obtain ⟨last, hl, contiguous, fits, built⟩ := apply_eq_ok_iff.mp h
  exact apply_eq_ok_iff.mpr ⟨last, hl, contiguous,
    fun d hd r hr => (fits d hd r hr).congr_origin same, build_congr_origin same built⟩

end ZoneSync.Generation
