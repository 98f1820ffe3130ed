import ZoneSync.Proofs.Step
import ZoneSync.Transfer.Assembly

/-!
What the assembly of an answer does with one record and with many: when each step succeeds, and
what it leads to. Processing counts records and keeps to the limit; without a limit it succeeds
exactly when the records can be taken in.
-/

namespace ZoneSync

@[simp] theorem SoaRecord.soaRecord?_record (soa : SoaRecord) :
    soa.record.soaRecord? = some soa := rfl

theorem SoaRecord.record_inj {s t : SoaRecord} : s.record = t.record ↔ s = t := by
  rw [← Record.soaRecord?_eq_some, soaRecord?_record, Option.some.injEq]

namespace Assembly

theorem deltaStart_eq_some {e : Expectation} {old : Serial} (h : e.deltaStart = some old) :
    e.oldSerial = some old := by
  rw [Expectation.deltaStart] at h
  split at h
  · exact h
  · simp at h

theorem closeFull_eq_ok {soa found : SoaRecord} {body : List Record} {p : Progress} :
    closeFull soa body found = .ok p ↔
      found.serial = soa.serial ∧ p = .finished (.full soa body) := by
  rw [closeFull]
  split <;> simp_all [eq_comm]

theorem openAdded_eq_ok {chain : Chain} {fromSoa found : SoaRecord} {removed : List Record}
    {p : Progress} :
    openAdded chain fromSoa removed found = .ok p ↔
      found.serial.greaterOrEqual fromSoa.serial ∧
        (∀ target ∈ chain.target, found.serial.lessOrEqual target) ∧
        p = .adding chain { fromSoa, toSoa := found, removed } := by
  rw [openAdded]
  by_cases forward : found.serial.greaterOrEqual fromSoa.serial
  · cases chain.target with
    | none => simp [forward, eq_comm (a := p)]
    | some target =>
        by_cases bounded : found.serial.lessOrEqual target <;>
          simp [forward, bounded, eq_comm (a := p)]
  · simp [forward]

/-- The state behind closed diffs: the end, the next diff, or either of them. -/
def afterDiffs (chain : Chain) (diffs : List ZoneDiff) (found : SoaRecord) : Progress :=
  let chain := { chain with diffs := chain.diffs ++ diffs }
  match chain.target with
  | none => .betweenDiffs chain found
  | some target =>
    if target = found.serial then .finished (.delta chain.start chain.diffs)
    else .removing chain found []

theorem closeDiff_eq_ok {chain : Chain} {diff : ZoneDiff} {found : SoaRecord} {p : Progress} :
    closeDiff chain diff found = .ok p ↔
      found.serial = diff.toSerial ∧ p = afterDiffs chain [diff] found := by
  rw [closeDiff, afterDiffs]
  by_cases closes : found.serial = diff.toSerial
  · cases chain.target with
    | none => simp [closes, eq_comm (a := p)]
    | some target =>
        by_cases last : target = diff.toSerial <;> simp [closes, last, eq_comm (a := p)]
  · simp [closes]

/-- Between two diffs the start of authority already stands for the older end of the next. -/
theorem take_betweenDiffs (e : Expectation) (r : Record) (chain : Chain) (soa : SoaRecord) :
    take e r (.betweenDiffs chain soa) = take e r (.removing chain soa []) := rfl

theorem take_eq_ok {e : Expectation} {r : Record} {p q : Progress} :
    take e r p = .ok q ↔
      (r.soaRecord? = none ∧ takeOther r p = .ok q) ∨
        ∃ found, r = found.record ∧ found.owner.same e.origin ∧ takeSoa e found p = .ok q := by
  rw [take]
  cases h : r.soaRecord? with
  | none =>
      have other : ∀ found : SoaRecord, r ≠ found.record := by
        rintro found rfl
        simp at h
      simp [other]
  | some found =>
      obtain rfl := Record.soaRecord?_eq_some.mp h
      simp only [SoaRecord.record_inj]
      cases hs : found.owner.same e.origin <;> simp [hs]

theorem take_other {e : Expectation} {r : Record} (h : r.soaRecord? = none) (p : Progress) :
    take e r p = takeOther r p := by
  simp only [take, h]

theorem take_soa {e : Expectation} {found : SoaRecord} (h : found.owner.same e.origin)
    (p : Progress) : take e found.record p = takeSoa e found p := by
  simp only [take, SoaRecord.soaRecord?_record, h, Bool.not_true, Bool.false_eq_true, if_false]

def takeAll (e : Expectation) (records : List Record) (p : Progress) :
    Except Violation Progress :=
  records.foldlM (fun p r => take e r p) p

@[simp] theorem takeAll_nil (e : Expectation) (p : Progress) : takeAll e [] p = .ok p := rfl

theorem takeAll_cons (e : Expectation) (r : Record) (later : List Record) (p : Progress) :
    takeAll e (r :: later) p = (take e r p).bind (takeAll e later) := rfl

theorem takeAll_cons_of_ok {e : Expectation} {r : Record} {later : List Record}
    {p q : Progress} (h : take e r p = .ok q) : takeAll e (r :: later) p = takeAll e later q := by
  rw [takeAll_cons, h]
  rfl

theorem takeAll_append_of_ok {e : Expectation} {records later : List Record} {p q : Progress}
    (h : takeAll e records p = .ok q) : takeAll e (records ++ later) p = takeAll e later q := by
  have split : takeAll e (records ++ later) p = (takeAll e records p).bind (takeAll e later) :=
    List.foldlM_append
  rw [split, h]
  rfl

def processAll (records : List Record) : EStateM Violation Assembly Unit :=
  records.forM process

theorem processAll_append_eq (records later : List Record) :
    processAll (records ++ later) = processAll records >>= fun _ => processAll later :=
  List.forM_append

theorem processAll_append {records later : List Record} {a c : Assembly} :
    processAll (records ++ later) a = .ok () c ↔
      ∃ b, processAll records a = .ok () b ∧ processAll later b = .ok () c := by
  rw [processAll_append_eq, bind_eq_ok]
  constructor
  · rintro ⟨_, b, h, hl⟩
    exact ⟨b, h, hl⟩
  · rintro ⟨b, h, hl⟩
    exact ⟨(), b, h, hl⟩

theorem process_eq_ok {r : Record} {a b : Assembly} (h : process r a = .ok () b) :
    ∃ p, take a.expectation r a.progress = .ok p ∧
      b = { a with progress := p, count := a.count + 1 } := by
  rw [process] at h
  split at h
  · simp at h
  · dsimp only at h
    split at h
    · simp at h
    · split at h
      · rename_i p hp
        exact ⟨p, hp, by simpa using (EStateM.Result.ok.inj h).2.symm⟩
      · simp at h

theorem process_of_take {r : Record} {a : Assembly} {p : Progress}
    (unlimited : a.expectation.maxRecords = none)
    (h : take a.expectation r a.progress = .ok p) :
    process r a = .ok () { a with progress := p, count := a.count + 1 } := by
  have running : a.progress ≠ .aborted := by
    intro stopped
    rw [stopped] at h
    rcases take_eq_ok.mp h with ⟨-, h⟩ | ⟨found, -, -, h⟩ <;>
      simp [takeOther, takeSoa] at h
  rw [process]
  split
  · exact absurd (by assumption) running
  · simp [isOverfull, unlimited, h]

theorem processAll_eq_ok {records : List Record} {a b : Assembly}
    (h : processAll records a = .ok () b) :
    ∃ p, takeAll a.expectation records a.progress = .ok p ∧
      b = { a with progress := p, count := a.count + records.length } := by
  induction records generalizing a with
  | nil =>
      obtain rfl : a = b := (EStateM.Result.ok.inj h).2
      exact ⟨_, rfl, rfl⟩
  | cons r later ih =>
      obtain ⟨_, middle, hr, hlater⟩ := bind_eq_ok.mp h
      obtain ⟨q, hq, rfl⟩ := process_eq_ok hr
      obtain ⟨p, hp, rfl⟩ := ih hlater
      refine ⟨p, ?_, ?_⟩
      · rwa [takeAll_cons_of_ok hq]
      · simp [Nat.add_comm, Nat.add_left_comm]

theorem count_of_processAll {records : List Record} {e : Expectation} {a : Assembly}
    (h : processAll records { expectation := e } = .ok () a) : a.count = records.length := by
  obtain ⟨p, -, rfl⟩ := processAll_eq_ok h
  exact Nat.zero_add _

theorem processAll_of_takeAll {records : List Record} {a : Assembly} {p : Progress}
    (unlimited : a.expectation.maxRecords = none)
    (h : takeAll a.expectation records a.progress = .ok p) :
    processAll records a = .ok () { a with progress := p, count := a.count + records.length } := by
  induction records generalizing a with
  | nil =>
      obtain rfl := Except.ok.inj h
      rfl
  | cons r later ih =>
      rw [takeAll_cons] at h
      cases hr : take a.expectation r a.progress with
      | error v => simp [hr, Except.bind] at h
      | ok q =>
          rw [hr] at h
          refine (bind_of_ok (process_of_take unlimited hr)).trans ?_
          refine (ih (a := { a with progress := q, count := a.count + 1 }) unlimited h).trans ?_
          simp [Nat.add_comm, Nat.add_left_comm]

/-- The outcome of an answer that consists of the given records. -/
def assemble (e : Expectation) (records : List Record) : Except Violation Received :=
  match processAll records { expectation := e } with
  | .ok () a => a.finish
  | .error v _ => .error v

theorem assemble_of_processAll {e : Expectation} {records : List Record} {a : Assembly}
    (h : processAll records { expectation := e } = .ok () a) : assemble e records = a.finish := by
  rw [assemble, h]

end Assembly
end ZoneSync
