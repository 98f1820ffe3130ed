import ZoneSync.Proofs.Zone.Reachable
import ZoneSync.Proofs.Zone.Snapshot

/-!
Generations that are saved and loaded. The store that loads the snapshot of a zone comes to have the
saved generation under a token of its own, whatever it had before.
-/

namespace ZoneSync

theorem ZoneStore.historyLength_commitFull {s s' : ZoneStore} {origin : Name} {soa : Record}
    {records : List Record} {token : Token} (h : commitFull origin soa records s = .ok token s') :
    s'.historyLength origin = .ok 0 := by
  obtain ⟨z, g, found, -, -, rfl⟩ := commitFull_eq_ok_iff.mp h
  have published := find?_replace (s := { s with nextToken := s.nextToken + 1 })
    (z := publish s.limits { z with history := [] } g) found rfl
  rw [historyLength, zone_eq_ok_iff.mpr published]
  rfl

/-- The snapshot of a generation under a name of its zone. -/
def Generation.snapshot (g : Generation) (origin : Name) : Snapshot :=
  ⟨origin, g.soa.record, g.records⟩

namespace Snapshot

variable {σ ρ : Type} [WriteStream σ] [ReadStream ρ] {Has : σ → Octets → Prop}
  {At : ρ → Octets → Octets → Prop}

/-- Saving writes the snapshot of the current generation, with the serial of its version. -/
theorem save_eq (sink : Sink Has) {store : ZoneStore} {origin : Name} {zone : Zone}
    {g : Generation} (found : store.find? origin = some zone) (content : zone.current = some g)
    {w : σ} {start : Octets} (has : Has w start) :
    ∃ w', save store origin w = .ok g.version w' ∧
      Has w' (start ++ (g.snapshot origin).octets) := by
  obtain ⟨w', written, has⟩ := write_eq sink (g.snapshot origin) has
  have current : ZoneStorage.current store origin = .ok g.version :=
    ZoneStore.current_of_find? found content
  have enumerated : ZoneStorage.enumerate store origin g.version.token = .ok g.allRecords :=
    ZoneStore.enumerate_current found content
  have records : (writeRecords origin g.version.serial g.allRecords).adaptExcept
      SnapshotError.stream w = .ok () w' := adaptExcept_eq_ok.mpr written
  refine ⟨w', ?_, has⟩
  simp only [save, current, enumerated]
  rw [bind_of_ok records]
  rfl

/-- A snapshot that is read is committed as the whole content of its zone. -/
theorem load_eq {store store' : ZoneStore} {s : Snapshot} {r r' : ρ} {token : Token}
    (got : read r = .ok s r')
    (committed : ZoneStore.commitFull s.origin s.soa s.records store = .ok token store') :
    load (store, r) = .ok (s.origin, token) (store', r') := by
  have commit : ZoneStorage.commitFull s.origin s.soa s.records store = .ok token store' :=
    committed
  rw [load, got]
  dsimp only
  rw [commit]

/-- Every generation whose records are read as they are written, of a zone whose name is, is saved
as the current version and restored by loading, in every store that has the zone. No list in memory
has as many records as a machine word can count. -/
theorem load_save (sink : Sink Has) (source : Source At) (remembers : Remembers At)
    (ends : Ends At) {store : ZoneStore} (reachable : store.Reachable) {origin : Name} {zone : Zone}
    {g : Generation} (found : store.find? origin = some zone) (content : zone.current = some g)
    (plain : origin.IsPlain) (typed : ∀ r ∈ g.records, r.WellTyped)
    (few : g.records.length + 1 < UInt64.size) {w : σ} {start : Octets} (has : Has w start) :
    ∃ w' octets, save store origin w = .ok g.version w' ∧ Has w' (start ++ octets) ∧
      store.current origin = .ok g.version ∧
      store.enumerate origin g.token = .ok g.allRecords ∧
      ∀ (target : ZoneStore) old r before, target.find? origin = some old → At r before octets →
        ∃ token target' r', load (target, r) = .ok (origin, token) (target', r') ∧
          target'.current origin = .ok ⟨token, g.soa⟩ ∧
          target'.enumerate origin token = .ok g.allRecords ∧
          target'.historyLength origin = .ok 0 := by
  obtain ⟨w', saved, has⟩ := save_eq sink found content has
  refine ⟨w', _, saved, has, ZoneStore.current_of_find? found content,
    ZoneStore.enumerate_current found content, fun target old r before known stands => ?_⟩
  have fits : (g.snapshot origin).Fits := Heading.length_text (Name.length_text_of_plain plain) few
  have opened : (g.snapshot origin).soa.soa? = some g.soa.soa := rfl
  obtain ⟨r', got⟩ := read_found source remembers ends opened typed few fits
    (Name.ofText_text_of_plain plain) stands
  obtain ⟨token, target', z', committed, published, current⟩ :=
    ZoneStore.commitFull_valid known (reachable.valid_current found content)
  exact ⟨token, target', r', load_eq got committed, ZoneStore.current_of_find? published current,
    ZoneStore.enumerate_current published current, ZoneStore.historyLength_commitFull committed⟩

/-- A store with a small zone. -/
def smallStore (origin : Name) : ZoneStore :=
  [Command.addZone origin, .commitFull origin (small origin).soa (small origin).records].foldl
    Command.run {}

/-- A zone that is saved under its name and loaded into a store that has it, with the name in other
letters. The letters are those that were saved. -/
theorem load_save_small :
    let lower : Name := ⟨[⟨[0x61, 0x2d, 0x62], by decide, by decide⟩], by decide⟩
    let upper : Name := ⟨[⟨[0x41, 0x2d, 0x42], by decide, by decide⟩], by decide⟩
    let g : Generation := ⟨⟨1⟩, ⟨lower, .internet, 3600, smallSoa⟩, (small lower).records⟩
    ∃ w r token target,
      save (smallStore lower) lower ({} : MemoryWriter) = .ok g.version w ∧
      load (smallStore upper, MemoryReader.ofOctets w.content) = .ok (lower, token) (target, r) ∧
      target.enumerate lower token = .ok g.allRecords ∧ target.historyLength lower = .ok 0 := by
  intro lower upper g
  have reachable : (smallStore lower).Reachable := (ZoneStore.Reachable.empty {} 1).run _
  have found : (smallStore lower).find? lower = some { origin := lower, current := some g } :=
    rfl
  have known : ((smallStore upper).find? lower).isSome := rfl
  obtain ⟨old, known⟩ := Option.isSome_iff_exists.mp known
  obtain ⟨w, octets, saved, ⟨-, rfl⟩, -, -, loads⟩ := load_save MemoryWriter.sink
    MemoryReader.source MemoryReader.remembers MemoryReader.ends reachable found rfl (by decide)
    (by decide) (by decide) (⟨rfl, rfl⟩ : MemoryWriter.Holds {} [])
  obtain ⟨token, target, r, loaded, -, enumerated, ended⟩ := loads (smallStore upper) old
    (MemoryReader.ofOctets w.content) [] known (MemoryReader.stands_ofOctets w.content)
  exact ⟨w, r, token, target, saved, loaded, enumerated, ended⟩

end Snapshot
end ZoneSync
