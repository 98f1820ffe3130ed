import ZoneSync.Proofs.Zone.Advance

/-!
What diffs leave in a zone. The records with a key that no diff mentions stay as they were, and for
any other key there is what the last diff that mentions it puts in.
-/

namespace ZoneSync

/-- The records with a key, in their order. -/
def withKey (k : Record.Key) (records : List Record) : List Record :=
  records.filter fun r => r.key = k

theorem withKey_cons (k : Record.Key) (r : Record) (later : List Record) :
    withKey k (r :: later) = if r.key = k then r :: withKey k later else withKey k later := by
  simp [withKey, List.filter_cons]

@[simp] theorem withKey_append (k : Record.Key) (records later : List Record) :
    withKey k (records ++ later) = withKey k records ++ withKey k later :=
  List.filter_append ..

theorem withKey_eq_nil_iff {k : Record.Key} {records : List Record} :
    withKey k records = [] ↔ ∀ r ∈ records, r.key ≠ k := by
  simp [withKey, List.filter_eq_nil_iff]

/-- The diff takes out or puts in a record with the key. -/
def ZoneDiff.mentions (d : ZoneDiff) (k : Record.Key) : Bool :=
  (d.removed ++ d.added).any fun r => r.key = k

theorem ZoneDiff.mentions_of_added {d : ZoneDiff} {r : Record} (h : r ∈ d.added) :
    d.mentions r.key :=
  List.any_eq_true.mpr ⟨r, List.mem_append_right _ h, decide_eq_true rfl⟩

namespace Generation

theorem change_eq (records : List Record) (d : ZoneDiff) :
    change records d = records.filter (fun r => !d.mentions r.key) ++ keepLast d.added := by
  have same : ∀ r : Record, ((d.removed ++ d.added).map Record.key).contains r.key =
      d.mentions r.key := by
    intro r
    rw [Bool.eq_iff_iff]
    simp [ZoneDiff.mentions]
  simp only [change, same]

/-- Of the records with one key the last is kept. -/
theorem withKey_keepLast (k : Record.Key) (records : List Record) :
    withKey k (keepLast records) = (withKey k records).getLast?.toList := by
  induction records with
  | nil => rfl
  | cons r later ih =>
      rw [keepLast_cons, withKey_cons]
      -- A record with the key gives way if there is another one behind it.
      by_cases here : r.key = k
      · cases rest : withKey k later with
        | nil =>
            have last : ¬ later.any r.sameData := by
              intro again
              obtain ⟨s, hs, same⟩ := List.any_eq_true.mp again
              have key : s.key = k := (Record.sameData_iff.mp same).symm.trans here
              exact withKey_eq_nil_iff.mp rest s hs key
            rw [rest] at ih
            rw [if_neg last, withKey_cons, if_pos here, if_pos here, ih]
            rfl
        | cons s more =>
            have again : later.any r.sameData := by
              have known : s ∈ withKey k later := by simp [rest]
              obtain ⟨hs, key⟩ := List.mem_filter.mp known
              refine List.any_eq_true.mpr ⟨s, hs, Record.sameData_iff.mpr ?_⟩
              exact here.trans (of_decide_eq_true key).symm
            rw [if_pos again, if_pos here, ih, rest, List.getLast?_cons_cons]
      · rw [if_neg here, ← ih]
        split
        · rfl
        · rw [withKey_cons, if_neg here]

/-- Records with keys that the diff does not mention stay, with nothing new between them. -/
theorem filter_change {p : Record.Key → Bool} {d : ZoneDiff}
    (untouched : ∀ k, p k → ¬ d.mentions k) (records : List Record) :
    (change records d).filter (fun r => p r.key) = records.filter fun r => p r.key := by
  have nothing : (keepLast d.added).filter (fun r => p r.key) = [] := by
    refine List.filter_eq_nil_iff.mpr fun r hr mine => ?_
    exact untouched r.key mine (ZoneDiff.mentions_of_added (mem_of_mem_keepLast hr))
  rw [change_eq, List.filter_append, nothing, List.append_nil, List.filter_filter]
  refine List.filter_congr fun r _ => ?_
  cases mine : p r.key with
  | false => rfl
  | true => simp [untouched r.key mine]

theorem filter_changes {p : Record.Key → Bool} {diffs : List ZoneDiff}
    (untouched : ∀ d ∈ diffs, ∀ k, p k → ¬ d.mentions k) (records : List Record) :
    (diffs.foldl change records).filter (fun r => p r.key) =
      records.filter fun r => p r.key := by
  induction diffs generalizing records with
  | nil => rfl
  | cons d later ih =>
      obtain ⟨here, behind⟩ := List.forall_mem_cons.mp untouched
      rw [List.foldl_cons, ih behind, filter_change here]

theorem withKey_changes {k : Record.Key} {diffs : List ZoneDiff}
    (untouched : ∀ d ∈ diffs, ¬ d.mentions k) (records : List Record) :
    withKey k (diffs.foldl change records) = withKey k records := by
  refine filter_changes (p := fun x => x = k) (fun d hd x same => ?_) records
  rw [of_decide_eq_true same]
  exact untouched d hd

theorem withKey_change {k : Record.Key} {d : ZoneDiff} (mentioned : d.mentions k)
    (records : List Record) :
    withKey k (change records d) = (withKey k d.added).getLast?.toList := by
  have gone : withKey k (records.filter fun r => !d.mentions r.key) = [] := by
    refine withKey_eq_nil_iff.mpr fun r hr same => ?_
    have kept := (List.mem_filter.mp hr).2
    rw [same, mentioned] at kept
    simp at kept
  rw [change_eq, withKey_append, gone, List.nil_append, withKey_keepLast]

/-- The last diff that mentions a key says which record with it there is. -/
theorem withKey_changes_last {k : Record.Key} {before after : List ZoneDiff} {d : ZoneDiff}
    (mentioned : d.mentions k) (last : ∀ x ∈ after, ¬ x.mentions k) (records : List Record) :
    withKey k ((before ++ d :: after).foldl change records) =
      (withKey k d.added).getLast?.toList := by
  rw [List.foldl_append, List.foldl_cons, withKey_changes last, withKey_change mentioned]

theorem mem_changes {records : List Record} {diffs : List ZoneDiff} {r : Record}
    (h : r ∈ diffs.foldl change records) : r ∈ records ∨ ∃ d ∈ diffs, r ∈ d.added := by
  induction diffs generalizing records with
  | nil => exact .inl h
  | cons d later ih =>
      rcases ih h with h | ⟨x, hx, h⟩
      · rcases mem_change h with h | h
        · exact .inl h
        · exact .inr ⟨d, List.mem_cons_self, h⟩
      · exact .inr ⟨x, List.mem_cons_of_mem d hx, h⟩

/-- What diffs leave of a generation and add to it. -/
structure Updated (g : Generation) (diffs : List ZoneDiff) (next : Generation) : Prop where
  soa : ∃ last, diffs.getLast? = some last ∧ next.soa = last.toSoa
  /-- For each key there is one record at most. -/
  distinct : Distinct next.records
  untouched : ∀ k, (∀ d ∈ diffs, ¬ d.mentions k) → withKey k next.records = withKey k g.records
  /-- A diff that puts a record in several times, or also takes it out, leaves its last form. -/
  added : ∀ k before d after, diffs = before ++ d :: after → (∀ x ∈ after, ¬ x.mentions k) →
    (∃ r ∈ d.added, r.key = k) →
      ∃ r, (withKey k d.added).getLast? = some r ∧ withKey k next.records = [r]
  removed : ∀ k before d after, diffs = before ++ d :: after → (∀ x ∈ after, ¬ x.mentions k) →
    d.mentions k → (∀ r ∈ d.added, r.key ≠ k) → withKey k next.records = []
  nothing_else : ∀ r ∈ next.records, r ∈ g.records ∨ ∃ d ∈ diffs, r ∈ d.added
  order : next.records.filter (fun r => !diffs.any (ZoneDiff.mentions · r.key)) =
    g.records.filter fun r => !diffs.any (ZoneDiff.mentions · r.key)

/-- A generation comes out of `build`, so the records it has differ in their keys. Applied to it,
diffs change exactly the records that they mention. -/
theorem updated_of_apply {made token : Token} {owner origin : Name} {soa : Record}
    {records : List Record} {g next : Generation} {diffs : List ZoneDiff}
    (built : build made owner soa records = .ok g)
    (applied : g.apply token origin diffs = .ok next) : Updated g diffs next := by
  have distinct := (valid_build built).distinct
  have result := ZoneStore.records_of_apply distinct applied
  obtain ⟨last, hl, -, -, rebuilt⟩ := apply_eq_ok_iff.mp applied
  refine {
    soa := ⟨last, hl, build_soa rebuilt⟩
    distinct := (valid_build rebuilt).distinct
    untouched := ?_
    added := ?_
    removed := ?_
    nothing_else := ?_
    order := ?_ }
  · intro k untouched
    rw [result, withKey_changes untouched]
  · rintro k before d after rfl later ⟨r, hr, rfl⟩
    have present : r ∈ withKey r.key d.added := List.mem_filter.mpr ⟨hr, decide_eq_true rfl⟩
    obtain ⟨x, hx⟩ := Option.isSome_iff_exists.mp
      (List.getLast?_isSome.mpr (List.ne_nil_of_mem present))
    refine ⟨x, hx, ?_⟩
    rw [result, withKey_changes_last (ZoneDiff.mentions_of_added hr) later, hx]
    rfl
  · rintro k before d after rfl later mentioned absent
    rw [result, withKey_changes_last mentioned later, withKey_eq_nil_iff.mpr absent]
    rfl
  · intro r hr
    rw [result] at hr
    exact mem_changes hr
  · rw [result]
    refine filter_changes (p := fun k => !diffs.any (ZoneDiff.mentions · k)) ?_ g.records
    intro d hd k untouched mentioned
    have known : diffs.any (ZoneDiff.mentions · k) := List.any_eq_true.mpr ⟨d, hd, mentioned⟩
    simp [known] at untouched

/-- A record taken out in other letters, one with a new time to live, and one that the diff takes
out and puts in twice. -/
theorem updated_of_apply_root :
    let host (letter : UInt8) (ttl : UInt32) : Record :=
      { rootAddress 1 with owner := .ofOctet letter, ttl }
    let g : Generation := ⟨⟨1⟩, rootSoa 8, [host 0x61 300, host 0x62 300, host 0x63 300]⟩
    let diffs : List ZoneDiff := [⟨rootSoa 8, rootSoa 9, [host 0x41 60], [host 0x62 600]⟩,
      ⟨rootSoa 9, rootSoa 10, [host 0x64 1], [host 0x64 1, host 0x44 2]⟩]
    let next : Generation := ⟨⟨2⟩, rootSoa 10, [host 0x63 300, host 0x62 600, host 0x44 2]⟩
    build ⟨1⟩ .root (rootSoa 8).record g.records = .ok g ∧
      g.apply ⟨2⟩ .root diffs = .ok next ∧ Updated g diffs next := by
  intro host g diffs next
  have built : build ⟨1⟩ .root (rootSoa 8).record g.records = .ok g := by decide
  have applied : g.apply ⟨2⟩ .root diffs = .ok next := by decide
  exact ⟨built, applied, updated_of_apply built applied⟩

end Generation
end ZoneSync
