import ZoneSync.Proofs.Zone.Generation

/-!
Records that differ pairwise in more than their time to live. Building a generation and applying
diffs to one leaves such records, and two lists that hold the same set of records still do so
after the same change.
-/

namespace ZoneSync

theorem Record.sameData_iff {r s : Record} : r.sameData s ↔ r.key = s.key := beq_iff_eq

theorem Record.same_iff {r s : Record} : r.same s ↔ r.key = s.key ∧ r.ttl = s.ttl := by
  simp [same, sameData_iff]

theorem Record.same_refl (r : Record) : r.same r := same_iff.mpr ⟨rfl, rfl⟩

theorem RecordData.type_folded (d : RecordData) : d.folded.type = d.type := by
  cases d <;> rfl

theorem Record.type_of_key {r s : Record} (h : r.key = s.key) : r.type = s.type := by
  have data : r.data.folded = s.data.folded := congrArg (·.data) h
  rw [type, type, ← r.data.type_folded, data, s.data.type_folded]

namespace Generation

theorem Fits.of_key {origin : Name} {cls : RecordClass} {r s : Record} (h : Fits origin cls r)
    (same : r.key = s.key) : Fits origin cls s where
  type := Record.type_of_key same ▸ h.type
  owner := by
    have folded : r.owner.folded = s.owner.folded := congrArg (·.owner) same
    rw [← Name.endsWith_congr_left folded]
    exact h.owner
  cls := (congrArg (·.cls) same).symm.trans h.cls

/-- No two records have the same data. -/
def Distinct (records : List Record) : Prop := records.Pairwise fun r s => r.key ≠ s.key

theorem Distinct.eq_of_key {records : List Record} (h : Distinct records) {r s : Record}
    (hr : r ∈ records) (hs : s ∈ records) (same : r.key = s.key) : r = s := by
  induction h with
  | nil => simp at hr
  | @cons x later differs _ ih =>
      rcases List.mem_cons.mp hr with rfl | later_r
      · rcases List.mem_cons.mp hs with rfl | later_s
        · rfl
        · exact absurd same (differs s later_s)
      · rcases List.mem_cons.mp hs with rfl | later_s
        · exact absurd same.symm (differs r later_r)
        · exact ih later_r later_s

theorem mem_of_mem_keepLast {records : List Record} {r : Record} (h : r ∈ keepLast records) :
    r ∈ records := by
  induction records with
  | nil => exact h
  | cons x later ih =>
      rw [keepLast_cons] at h
      split at h
      · exact List.mem_cons_of_mem x (ih h)
      · rcases List.mem_cons.mp h with rfl | h
        · exact List.mem_cons_self
        · exact List.mem_cons_of_mem x (ih h)

theorem exists_mem_keepLast {records : List Record} {r : Record} (h : r ∈ records) :
    ∃ s ∈ keepLast records, s.key = r.key := by
  induction records generalizing r with
  | nil => simp at h
  | cons x later ih =>
      rw [keepLast_cons]
      split
      · rename_i again
        rcases List.mem_cons.mp h with rfl | h
        · obtain ⟨y, hy, same⟩ := List.any_eq_true.mp again
          obtain ⟨s, kept, key⟩ := ih hy
          exact ⟨s, kept, key.trans (Record.sameData_iff.mp same).symm⟩
        · exact ih h
      · rcases List.mem_cons.mp h with rfl | h
        · exact ⟨r, List.mem_cons_self, rfl⟩
        · obtain ⟨s, kept, key⟩ := ih h
          exact ⟨s, List.mem_cons_of_mem x kept, key⟩

theorem distinct_keepLast (records : List Record) : Distinct (keepLast records) := by
  induction records with
  | nil => exact .nil
  | cons x later ih =>
      rw [keepLast_cons]
      split
      · exact ih
      · rename_i last
        refine List.pairwise_cons.mpr ⟨fun s kept same => ?_, ih⟩
        refine last (List.any_eq_true.mpr ⟨s, mem_of_mem_keepLast kept, ?_⟩)
        exact Record.sameData_iff.mpr same

theorem keepLast_eq_self {records : List Record} (h : Distinct records) :
    keepLast records = records := by
  induction h with
  | nil => rfl
  | @cons x later differs _ ih =>
      have last : ¬ later.any x.sameData := fun again => by
        obtain ⟨y, hy, same⟩ := List.any_eq_true.mp again
        exact differs y hy (Record.sameData_iff.mp same)
      rw [keepLast_cons, if_neg last, ih]

theorem mem_change {records : List Record} {d : ZoneDiff} {r : Record} (h : r ∈ change records d) :
    r ∈ records ∨ r ∈ d.added := by
  cases List.mem_append.mp h with
  | inl h => exact .inl (List.mem_filter.mp h).1
  | inr h => exact .inr (mem_of_mem_keepLast h)

theorem distinct_change {records : List Record} (h : Distinct records) (d : ZoneDiff) :
    Distinct (change records d) := by
  refine List.pairwise_append.mpr ⟨h.filter _, distinct_keepLast d.added, ?_⟩
  intro r kept s added same
  have mentioned : s.key ∈ (d.removed ++ d.added).map Record.key :=
    List.mem_map_of_mem (List.mem_append_right _ (mem_of_mem_keepLast added))
  rw [← same] at mentioned
  simp only [List.mem_filter, Bool.not_eq_true', List.contains_eq_mem,
    decide_eq_false_iff_not] at kept
  exact kept.2 mentioned

theorem distinct_changes {records : List Record} (h : Distinct records) (diffs : List ZoneDiff) :
    Distinct (diffs.foldl change records) := by
  induction diffs generalizing records with
  | nil => exact h
  | cons d later ih => exact ih (distinct_change h d)

/-- What all records of a zone satisfy they still do after diffs that put in only such records. -/
theorem forall_mem_changes {P : Record → Prop} {records : List Record} {diffs : List ZoneDiff}
    (h : ∀ r ∈ records, P r) (added : ∀ d ∈ diffs, ∀ r ∈ d.added, P r) :
    ∀ r ∈ diffs.foldl change records, P r := by
  induction diffs generalizing records with
  | nil => exact h
  | cons d later ih =>
      obtain ⟨here, added⟩ := List.forall_mem_cons.mp added
      refine ih (fun r hr => ?_) added
      cases mem_change hr with
      | inl hr => exact h r hr
      | inr hr => exact here r hr

/-- The lists hold the same set of records. -/
structure SameRecords (records others : List Record) : Prop where
  left : ∀ r ∈ records, ∃ s ∈ others, r.same s
  right : ∀ s ∈ others, ∃ r ∈ records, r.same s

theorem SameRecords.refl (records : List Record) : SameRecords records records :=
  ⟨fun r hr => ⟨r, hr, r.same_refl⟩, fun r hr => ⟨r, hr, r.same_refl⟩⟩

theorem SameRecords.change {records others : List Record} (h : SameRecords records others)
    (d : ZoneDiff) : SameRecords (change records d) (Generation.change others d) := by
  rw [Generation.change]
  constructor
  · intro r hr
    cases List.mem_append.mp hr with
    | inl hr =>
        obtain ⟨hr, kept⟩ := List.mem_filter.mp hr
        obtain ⟨s, hs, same⟩ := h.left r hr
        rw [(Record.same_iff.mp same).1] at kept
        exact ⟨s, List.mem_append_left _ (List.mem_filter.mpr ⟨hs, kept⟩), same⟩
    | inr hr => exact ⟨r, List.mem_append_right _ hr, r.same_refl⟩
  · intro s hs
    cases List.mem_append.mp hs with
    | inl hs =>
        obtain ⟨hs, kept⟩ := List.mem_filter.mp hs
        obtain ⟨r, hr, same⟩ := h.right s hs
        rw [← (Record.same_iff.mp same).1] at kept
        exact ⟨r, List.mem_append_left _ (List.mem_filter.mpr ⟨hr, kept⟩), same⟩
    | inr hs => exact ⟨s, List.mem_append_right _ hs, s.same_refl⟩

theorem SameRecords.changes {records others : List Record} (h : SameRecords records others)
    (diffs : List ZoneDiff) :
    SameRecords (diffs.foldl Generation.change records) (diffs.foldl Generation.change others) := by
  induction diffs generalizing records others with
  | nil => exact h
  | cons d later ih => exact ih (h.change d)

/-- Records with the same data in a list are the same record if they are in another list that
has it only once. -/
theorem SameRecords.keepLast {records others : List Record} (h : SameRecords records others)
    (distinct : Distinct others) : SameRecords (keepLast records) others where
  left r hr := h.left r (mem_of_mem_keepLast hr)
  right s hs := by
    -- What is kept in the place of `r` has a counterpart with the data of `s`: `s` itself.
    obtain ⟨r, hr, same⟩ := h.right s hs
    obtain ⟨kept, hk, key⟩ := exists_mem_keepLast hr
    obtain ⟨t, ht, kept_same⟩ := h.left kept (mem_of_mem_keepLast hk)
    have keys : t.key = s.key :=
      (Record.same_iff.mp kept_same).1.symm.trans (key.trans (Record.same_iff.mp same).1)
    obtain rfl := distinct.eq_of_key ht hs keys
    exact ⟨kept, hk, kept_same⟩

end Generation
end ZoneSync
