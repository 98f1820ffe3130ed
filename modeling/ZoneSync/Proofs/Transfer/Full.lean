import Mathlib
import ZoneSync.Proofs.Transfer.Exchange
import ZoneSync.Proofs.Transfer.Planning
import ZoneSync.Proofs.Zone.Reachable

/-!
Full transfers. The secondary ends up with the very records of the primary, in their order,
whatever it had before and however the answer was cut into messages.
-/

namespace ZoneSync

theorem Generation.Fits.plain {origin : Name} {cls : RecordClass} {r : Record}
    (h : Fits origin cls r) : r.soaRecord? = none := by
  cases hr : r.soaRecord? with
  | none => rfl
  | some s =>
      rw [Record.soaRecord?_eq_some.mp hr] at h
      exact absurd rfl h.type

namespace Generation

def closing (g : Generation) (config : TransferConfig) : Option SoaRecord :=
  if config.axfrClosingSoa then some g.soa else none

def fullAnswer (g : Generation) (config : TransferConfig) : List Record :=
  g.soa.record :: g.records ++ (g.closing config).toList.map SoaRecord.record

theorem eq_of_mem_closing {g : Generation} {config : TransferConfig} {soa : SoaRecord}
    (h : soa ∈ g.closing config) : soa = g.soa := by
  rw [closing] at h
  split at h
  · exact (Option.some.inj h).symm
  · simp at h

theorem mem_fullAnswer {g : Generation} {config : TransferConfig} {r : Record}
    (h : r ∈ g.fullAnswer config) : r = g.soa.record ∨ r ∈ g.records := by
  cases List.mem_append.mp h with
  | inl h => exact List.mem_cons.mp h
  | inr h =>
      obtain ⟨soa, hs, rfl⟩ := List.mem_map.mp h
      rw [eq_of_mem_closing (Option.mem_toList.mp hs)]
      exact .inl rfl

theorem Valid.ownedBy {origin : Name} {g : Generation} (h : g.Valid origin)
    (config : TransferConfig) : OwnedBy origin (g.fullAnswer config) := by
  intro r hr soa found
  rcases mem_fullAnswer hr with rfl | hr
  · rw [SoaRecord.soaRecord?_record] at found
    rw [← Option.some.inj found]
    exact h.owner
  · rw [(h.fits r hr).plain] at found
    simp at found

end Generation

theorem Secondary.deltaStart_expectation (config : TransferConfig) (request : TransferRequest) :
    (expectation config request).deltaStart = Primary.askedSerial request := by
  cases type : request.type <;>
    simp [expectation, Expectation.deltaStart, Primary.askedSerial, type]

/-- A full answer is one to every request that does not ask for changes since its serial. -/
theorem Generation.Valid.answer {origin : Name} {g : Generation} (h : g.Valid origin)
    (producer : TransferConfig) {consumer : TransferConfig} {request : TransferRequest}
    (other : Primary.askedSerial request ≠ some g.serial) :
    Answer (Secondary.expectation consumer request) (g.fullAnswer producer)
      (.full g.soa g.records) := by
  refine .full ?_ (fun r hr => (h.fits r hr).plain) fun last hl => ?_
  · rwa [Secondary.deltaStart_expectation]
  · rw [eq_of_mem_closing hl]

theorem Primary.answerRecords_full {store : ZoneStore} {origin : Name} {z : Zone}
    {g : Generation} {p : AnswerPlan} (config : TransferConfig)
    (found : store.find? origin = some z) (content : z.current = some g)
    (version : p.version = g.version) (full : p.negotiation.plan = .axfr) :
    answerRecords store config origin p = .ok (g.fullAnswer config) := by
  have enumerated : ZoneStorage.enumerate store origin p.version.token = .ok g.allRecords := by
    rw [version]
    exact ZoneStore.enumerate_current found content
  have soa : p.version.soa = g.soa := congrArg ZoneVersion.soa version
  simp only [answerRecords, full, enumerated, soa, Except.map, Generation.fullAnswer,
    Generation.closing]
  split <;> simp [Generation.allRecords]

variable {σ ρ : Type} [WriteStream σ] [ReadStream ρ] {Has : σ → Octets → Prop}
  {At : ρ → Octets → Octets → Prop}

/-- A full answer to any request is sent, received and committed, and then the secondary
enumerates the zone as the primary does. -/
theorem axfr_exact (sink : Sink Has) (source : Source At) (ends : Ends At) {primary : ZoneStore}
    (reachable : primary.Reachable) (request : TransferRequest) {zone : Zone} {g : Generation}
    (found : primary.find? request.origin = some zone) (content : zone.current = some g)
    (typed : ∀ r ∈ g.records, r.WellTyped)
    (room : ∀ r ∈ g.records, preambleLength + r.length ≤ maxMessageLength)
    (producer : TransferConfig) {p : Primary.AnswerPlan}
    (planned : Primary.plan primary request = .ok p) (full : p.negotiation.plan = .axfr)
    {consumer : TransferConfig} (unlimited : consumer.maxTransferRecords = none)
    {server : Secondary ZoneStore} {old : Zone}
    (known : server.store.find? request.origin = some old)
    (idle : ¬ server.sessions.isActive request.origin) {w : σ} {start : Octets}
    (has : Has w start) :
    ∃ stats w' octets, Primary.serve primary producer request w = .ok stats w' ∧
      Has w' (start ++ octets) ∧
      stats.records = g.allRecords.length + (g.closing producer).toList.length ∧
      ∀ r before, At r before octets → ∃ token server' r',
        Secondary.transfer consumer request (server, r) =
          .ok (.committed g.serial token .axfr stats.records) (server', r') ∧
        server'.store.current request.origin = .ok ⟨token, g.soa⟩ ∧
        server'.store.enumerate request.origin token = .ok g.allRecords ∧
        primary.enumerate request.origin g.token = .ok g.allRecords := by
  have valid := reachable.valid_current found content
  have basis := Primary.planned_of_plan planned
  have version : p.version = g.version :=
    Except.ok.inj (basis.current.symm.trans (ZoneStore.current_of_find? found content))
  have other : Primary.askedSerial request ≠ some g.serial := by
    have asks := basis.asks_other full
    rwa [version] at asks
  have sent := Primary.answerRecords_full producer found content version full
  have all_room : ∀ r ∈ g.fullAnswer producer, preambleLength + r.length ≤ maxMessageLength := by
    intro r hr
    rcases Generation.mem_fullAnswer hr with rfl | hr
    · exact g.soa.has_room
    · exact room r hr
  have all_typed : ∀ r ∈ g.fullAnswer producer, r.WellTyped := by
    intro r hr
    rcases Generation.mem_fullAnswer hr with rfl | hr
    · trivial
    · exact typed r hr
  obtain ⟨stats, w', octets, served, has, count, received⟩ := exchange_eq sink source ends
    unlimited planned sent (valid.answer producer other) all_room all_typed
    (valid.ownedBy producer) has
  refine ⟨stats, w', octets, served, has, ?_, fun r before stands => ?_⟩
  · rw [count, Generation.fullAnswer, List.length_append, List.length_map]
    rfl
  obtain ⟨r', received⟩ := received r before stands
  obtain ⟨token, store, z, committed, published, current⟩ :=
    ZoneStore.commitFull_valid known valid
  have commit : Secondary.commit request.origin (.full g.soa g.records) stats.records
      server.store = .ok (.committed g.serial token .axfr stats.records) store :=
    (bind_of_ok committed).trans rfl
  obtain ⟨sessions, transferred⟩ := Secondary.transfer_eq idle received commit
  exact ⟨token, _, r', transferred, ZoneStore.current_of_find? published current,
    ZoneStore.enumerate_current published current, ZoneStore.enumerate_current found content⟩

def rootGeneration (token : Nat) (serial : UInt32) (last : UInt8) : Generation :=
  ⟨⟨token⟩, rootSoa serial, [rootAddress last]⟩

def rootStore : ZoneStore :=
  [Command.addZone .root, .commitFull .root (rootSoa 9).record [rootAddress 1]].foldl
    Command.run {}

theorem reachable_rootStore : rootStore.Reachable := (ZoneStore.Reachable.empty {} 1).run _

theorem find?_rootStore :
    rootStore.find? .root = some { origin := .root, current := some (rootGeneration 1 9 1) } := by
  cbv

/-- A request for changes that the primary does not have, answered in messages of one record. -/
theorem axfr_exact_root :
    let g := rootGeneration 1 9 1
    let server : Secondary ZoneStore := { store := (Command.addZone .root).run {} }
    let request : TransferRequest := .ixfr 7 .root (rootSoa 5).record
    let producer : TransferConfig := { maxMessageSize := 0, axfrClosingSoa := true }
    ∃ stats w' octets, Primary.serve rootStore producer request ({} : MemoryWriter) =
        .ok stats w' ∧
      w'.Holds octets ∧ stats.records = 3 ∧
      ∀ (r : MemoryReader) before, r.Stands before octets → ∃ token server' r',
        Secondary.transfer {} request (server, r) =
          .ok (.committed ⟨9⟩ token .axfr stats.records) (server', r') ∧
        server'.store.current .root = .ok ⟨token, g.soa⟩ ∧
        server'.store.enumerate .root token = .ok g.allRecords ∧
        rootStore.enumerate .root g.token = .ok g.allRecords :=
  axfr_exact MemoryWriter.sink MemoryReader.source MemoryReader.ends reachable_rootStore
    (.ixfr 7 .root (rootSoa 5).record) find?_rootStore rfl (by decide) (by decide)
    { maxMessageSize := 0, axfrClosingSoa := true }
    (p := ⟨⟨⟨1⟩, rootSoa 9⟩, ⟨.axfr, some .deltaUnavailable⟩, []⟩) (by cbv) rfl rfl
    (by cbv : ((Command.addZone .root).run {}).find? .root = some { origin := .root })
    (by decide) (⟨rfl, rfl⟩ : MemoryWriter.Holds {} [])

end ZoneSync
