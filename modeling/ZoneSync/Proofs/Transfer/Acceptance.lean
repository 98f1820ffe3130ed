import ZoneSync.Proofs.Transfer.Recognition

/-!
The assembly of an answer accepts every answer of the grammar, and yields its content: block by
block within a diff, diff by diff within a chain.
-/

namespace ZoneSync.Assembly

/-- Plain records are put behind those of the block that is open. -/
theorem takeAll_plain {e : Expectation} (block : List Record → Progress)
    (step : ∀ r taken, takeOther r (block taken) = .ok (block (taken ++ [r])))
    {records : List Record} (plain : Plain records) (taken : List Record) :
    takeAll e records (block taken) = .ok (block (taken ++ records)) := by
  induction records generalizing taken with
  | nil => simp
  | cons r later ih =>
      have hr := (take_other (e := e) (plain r (by simp)) (block taken)).trans (step r taken)
      rw [takeAll_cons_of_ok hr, ih fun s hs => plain s (by simp [hs])]
      simp

/-- The older start of authority opens a diff, and what follows it up to the next one is
exactly that diff. -/
theorem takeAll_diff {e : Expectation} (chain : Chain) {d : ZoneDiff} (sendable : d.Sendable)
    (owned : d.toSoa.owner.same e.origin)
    (bounded : ∀ target ∈ chain.target, d.toSerial.lessOrEqual target) :
    takeAll e (d.removed ++ d.toSoa.record :: d.added) (.removing chain d.fromSoa []) =
      .ok (.adding chain d) := by
  have removed := takeAll_plain (e := e) (.removing chain d.fromSoa) (fun _ _ => rfl)
    sendable.removed []
  have opened : take e d.toSoa.record (.removing chain d.fromSoa d.removed) =
      .ok (.adding chain { d with added := [] }) :=
    (take_soa owned _).trans (openAdded_eq_ok.mpr ⟨sendable.forward, bounded, rfl⟩)
  have added := takeAll_plain (e := e) (fun taken => .adding chain { d with added := taken })
    (fun _ _ => rfl) sendable.added []
  rw [takeAll_append_of_ok removed]
  exact (takeAll_cons_of_ok opened).trans added

theorem takeAll_afterDiffs {e : Expectation} {chain : Chain} {diffs : List ZoneDiff}
    {found : SoaRecord} (early : chain.target ≠ some found.serial) {records : List Record}
    (more : records ≠ []) :
    takeAll e records (afterDiffs chain diffs found) =
      takeAll e records (.removing { chain with diffs := chain.diffs ++ diffs } found []) := by
  obtain ⟨r, later, rfl⟩ := List.exists_cons_of_ne_nil more
  rw [takeAll_cons, takeAll_cons]
  congr 1
  rw [afterDiffs]
  cases ht : chain.target with
  | none => exact take_betweenDiffs e r _ found
  | some target =>
      rw [ht] at early
      have other : target ≠ found.serial := fun same => early (by rw [same])
      simp [other]

/-- Behind an open diff the rest of a chain is taken in diff by diff. -/
theorem takeAll_laterDiffs {e : Expectation} (chain : Chain) {d : ZoneDiff}
    {later : List ZoneDiff} {last : SoaRecord} (sendable : ∀ x ∈ later, x.Sendable)
    (contiguous : ZoneDiff.isContiguous later d.toSerial last.serial)
    (bounded : ∀ target ∈ chain.target, ∀ x ∈ later, x.toSerial.lessOrEqual target)
    (early : ∀ x ∈ (d :: later).dropLast, chain.target ≠ some x.toSerial)
    (owned : OwnedBy e.origin (later.flatMap Primary.diffRecords ++ [last.record])) :
    takeAll e (later.flatMap Primary.diffRecords ++ [last.record]) (.adding chain d) =
      .ok (afterDiffs chain (d :: later) last) := by
  induction later generalizing chain d with
  | nil =>
      have closes : last.serial = d.toSerial := by
        simpa [ZoneDiff.isContiguous, eq_comm] using contiguous
      have closed := (take_soa (ownedBy_soa.mp owned).1 (.adding chain d)).trans
        (closeDiff_eq_ok.mpr ⟨closes, rfl⟩)
      exact takeAll_cons_of_ok closed
  | cons next later ih =>
      -- The older start of authority of `next` closes `d` before it opens `next`.
      obtain ⟨meets, contiguous⟩ : next.fromSerial = d.toSerial ∧
          ZoneDiff.isContiguous later next.toSerial last.serial := by
        simpa [ZoneDiff.isContiguous] using contiguous
      have shape : (next :: later).flatMap Primary.diffRecords ++ [last.record] =
          next.fromSoa.record :: (next.removed ++ next.toSoa.record :: next.added ++
            (later.flatMap Primary.diffRecords ++ [last.record])) := by
        simp [Primary.diffRecords]
      rw [shape] at owned ⊢
      obtain ⟨fromSoa_owned, owned⟩ := ownedBy_soa.mp owned
      obtain ⟨next_owned, later_owned⟩ := ownedBy_append.mp owned
      have toSoa_owned := (ownedBy_soa.mp (ownedBy_append.mp next_owned).2).1
      have closed := (take_soa fromSoa_owned (.adding chain d)).trans
        (closeDiff_eq_ok.mpr ⟨meets, rfl⟩)
      have not_yet : chain.target ≠ some next.fromSoa.serial := by
        have h := early d (by simp)
        rwa [← meets] at h
      have taken := takeAll_diff { chain with diffs := chain.diffs ++ [d] }
        (sendable next (by simp)) toSoa_owned fun target ht => bounded target ht next (by simp)
      rw [takeAll_cons_of_ok closed, takeAll_afterDiffs not_yet (by simp),
        takeAll_append_of_ok taken]
      refine (ih { chain with diffs := chain.diffs ++ [d] }
        (fun x hx => sendable x (by simp [hx])) contiguous
        (fun target ht x hx => bounded target ht x (by simp [hx]))
        (fun x hx => early x (by simpa using .inr hx)) later_owned).trans ?_
      simp [afterDiffs]

/-- From the first start of authority of a chain on, the chain is taken in diff by diff. -/
theorem takeAll_chain {e : Expectation} (chain : Chain) {diffs : List ZoneDiff}
    {last : SoaRecord} (nonempty : diffs ≠ [])
    (sendable : ∀ d ∈ diffs, d.Sendable)
    (contiguous : ZoneDiff.isContiguous diffs chain.start last.serial)
    (bounded : ∀ target ∈ chain.target, ∀ d ∈ diffs, d.toSerial.lessOrEqual target)
    (early : ∀ d ∈ diffs.dropLast, chain.target ≠ some d.toSerial)
    (owned : OwnedBy e.origin (diffs.flatMap Primary.diffRecords ++ [last.record]))
    {p : Progress} (opens : ∀ soa : SoaRecord, soa.owner.same e.origin →
      soa.serial = chain.start → take e soa.record p = .ok (.removing chain soa [])) :
    takeAll e (diffs.flatMap Primary.diffRecords ++ [last.record]) p =
      .ok (afterDiffs chain diffs last) := by
  obtain ⟨d, later, rfl⟩ := List.exists_cons_of_ne_nil nonempty
  have shape : (d :: later).flatMap Primary.diffRecords ++ [last.record] =
      d.fromSoa.record :: (d.removed ++ d.toSoa.record :: d.added ++
        (later.flatMap Primary.diffRecords ++ [last.record])) := by
    simp [Primary.diffRecords]
  rw [shape] at owned ⊢
  obtain ⟨fromSoa_owned, owned⟩ := ownedBy_soa.mp owned
  obtain ⟨d_owned, later_owned⟩ := ownedBy_append.mp owned
  have toSoa_owned := (ownedBy_soa.mp (ownedBy_append.mp d_owned).2).1
  obtain ⟨starts, contiguous⟩ : d.fromSerial = chain.start ∧
      ZoneDiff.isContiguous later d.toSerial last.serial := by
    simpa [ZoneDiff.isContiguous] using contiguous
  have taken := takeAll_diff chain (sendable d (by simp)) toSoa_owned
    fun target ht => bounded target ht d (by simp)
  rw [takeAll_cons_of_ok (opens d.fromSoa fromSoa_owned starts), takeAll_append_of_ok taken]
  exact takeAll_laterDiffs chain (fun x hx => sendable x (by simp [hx])) contiguous
    (fun target ht x hx => bounded target ht x (by simp [hx])) early later_owned

/-- A chain without the start of authority it leads to in front may end behind each of its diffs. -/
theorem takeAll_bare {e : Expectation} {old : Serial} {diffs : List ZoneDiff} {last : SoaRecord}
    (start : e.deltaStart = some old) (nonempty : diffs ≠ [])
    (sendable : ∀ d ∈ diffs, d.Sendable)
    (contiguous : ZoneDiff.isContiguous diffs old last.serial)
    (owned : OwnedBy e.origin (diffs.flatMap Primary.diffRecords ++ [last.record])) :
    takeAll e (diffs.flatMap Primary.diffRecords ++ [last.record]) .awaitingFirst =
      .ok (.betweenDiffs ⟨old, none, diffs⟩ last) :=
  takeAll_chain ⟨old, none, []⟩ nonempty sendable contiguous (by simp) (by simp) owned
    fun soa soa_owned starts => by
      rw [take_soa soa_owned]
      simp [takeSoa, start, starts]

/-- The state behind a zone's start of authority and the records `body`. -/
def IsCollecting (e : Expectation) (soa : SoaRecord) (body : List Record) (p : Progress) : Prop :=
  p = .collecting soa body ∨
    p = .awaitingSecond soa ∧ body = [] ∧ e.oldSerial ≠ some soa.serial

theorem takeAll_body {e : Expectation} {soa : SoaRecord} {body : List Record}
    (start : e.deltaStart ≠ some soa.serial) (plain : Plain body)
    (owned : soa.owner.same e.origin) :
    ∃ p, takeAll e (soa.record :: body) .awaitingFirst = .ok p ∧ IsCollecting e soa body p := by
  have collected {records : List Record} (h : Plain records) :=
    takeAll_plain (e := e) (.collecting soa) (fun _ _ => rfl) h
  cases hs : e.deltaStart with
  | none =>
      have first : take e soa.record .awaitingFirst = .ok (.collecting soa []) := by
        rw [take_soa owned]
        simp [takeSoa, hs]
      exact ⟨_, (takeAll_cons_of_ok first).trans (collected plain []), .inl rfl⟩
  | some old =>
      have other : soa.serial ≠ old := fun same => start (by rw [hs, same])
      have first : take e soa.record .awaitingFirst = .ok (.awaitingSecond soa) := by
        rw [take_soa owned]
        simp [takeSoa, hs, other]
      cases body with
      | nil =>
          refine ⟨_, takeAll_cons_of_ok first, .inr ⟨rfl, rfl, ?_⟩⟩
          simpa [deltaStart_eq_some hs] using other.symm
      | cons r later =>
          have second : take e r (.awaitingSecond soa) = .ok (.collecting soa [r]) :=
            take_other (plain r (by simp)) _
          rw [takeAll_cons_of_ok first, takeAll_cons_of_ok second]
          exact ⟨_, collected (fun s hs => plain s (by simp [hs])) [r], .inl rfl⟩

theorem take_closing {e : Expectation} {soa last : SoaRecord} {body : List Record}
    {p : Progress} (h : IsCollecting e soa body p) (owned : last.owner.same e.origin)
    (closes : last.serial = soa.serial) :
    take e last.record p = .ok (.finished (.full soa body)) := by
  rw [take_soa owned]
  rcases h with rfl | ⟨rfl, rfl, other⟩
  · exact closeFull_eq_ok.mpr ⟨closes, rfl⟩
  · rw [← closes] at other
    simp only [takeSoa, other, if_false]
    exact closeFull_eq_ok.mpr ⟨closes, rfl⟩

/-- Every answer is taken in, and ends in a state that yields its content. -/
theorem takeAll_of_answer {e : Expectation} {records : List Record} {result : Received}
    (h : Answer e records result) (owned : OwnedBy e.origin records) :
    ∃ p, takeAll e records .awaitingFirst = .ok p ∧
      finish { expectation := e, progress := p, count := records.length } = .ok result := by
  cases h with
  | @full soa body closing start plain closing_serial =>
      obtain ⟨front_owned, closing_owned⟩ := ownedBy_append.mp owned
      obtain ⟨p, taken, collecting⟩ := takeAll_body start plain (ownedBy_soa.mp front_owned).1
      cases closing with
      | none =>
          refine ⟨p, by simpa using taken, ?_⟩
          rcases collecting with rfl | ⟨rfl, rfl, -⟩ <;> rfl
      | some last =>
          have last_owned := (ownedBy_soa.mp closing_owned).1
          have closed := take_closing collecting last_owned (closing_serial last rfl)
          exact ⟨_, (takeAll_append_of_ok taken).trans (takeAll_cons_of_ok closed), rfl⟩
  | @upToDate soa start =>
      have single : take e soa.record .awaitingFirst =
          .ok (.removing ⟨soa.serial, none, []⟩ soa []) := by
        rw [take_soa (ownedBy_soa.mp owned).1]
        simp [takeSoa, start]
      exact ⟨_, takeAll_cons_of_ok single, rfl⟩
  | @chain old diffs last start nonempty sendable contiguous reached =>
      refine ⟨_, takeAll_bare start nonempty sendable contiguous owned, ?_⟩
      cases ht : e.target with
      | none => simp [finish, ht]
      | some target => simp [finish, ht, reached target ht]
  | @framed old diffs first last start other nonempty sendable contiguous bounded early closed =>
      obtain ⟨first_owned, later_owned⟩ := ownedBy_soa.mp owned
      have opened : take e first.record .awaitingFirst = .ok (.awaitingSecond first) := by
        rw [take_soa first_owned]
        simp [takeSoa, start, other]
      have taken := takeAll_chain (p := .awaitingSecond first) ⟨old, some first.serial, []⟩
        nonempty sendable (by rw [closed]; exact contiguous)
        (by simpa using bounded) (by simpa [eq_comm] using early) later_owned
        fun soa soa_owned starts => by
          rw [take_soa soa_owned]
          simp only at starts
          simp [takeSoa, deltaStart_eq_some start, starts]
      refine ⟨_, (takeAll_cons_of_ok opened).trans taken, ?_⟩
      simp [finish, afterDiffs, closed]

theorem assemble_of_answer {e : Expectation} {records : List Record} {result : Received}
    (unlimited : e.maxRecords = none) (h : Answer e records result)
    (owned : OwnedBy e.origin records) : assemble e records = .ok result := by
  obtain ⟨p, taken, finished⟩ := takeAll_of_answer h owned
  have processed := processAll_of_takeAll (a := { expectation := e }) unlimited taken
  simpa [assemble, processed] using finished

/-- A chain that ends before the serial that the primary is known to have is taken in, but it is
not an answer. -/
theorem processAll_short {e : Expectation} {old target : Serial} {diffs : List ZoneDiff}
    {last : SoaRecord} (unlimited : e.maxRecords = none) (start : e.deltaStart = some old)
    (nonempty : diffs ≠ []) (sendable : ∀ d ∈ diffs, d.Sendable)
    (contiguous : ZoneDiff.isContiguous diffs old last.serial)
    (owned : OwnedBy e.origin (diffs.flatMap Primary.diffRecords ++ [last.record]))
    (known : e.target = some target) (short : last.serial.less target) :
    ∃ a, processAll (diffs.flatMap Primary.diffRecords ++ [last.record]) { expectation := e } =
      .ok () a ∧ a.finish = .error .incomplete := by
  have taken := takeAll_bare start nonempty sendable contiguous owned
  exact ⟨_, processAll_of_takeAll (a := { expectation := e }) unlimited taken,
    by simp [finish, known, short]⟩

/-- The assembly accepts exactly the grammar of answers, with the meaning the grammar gives. -/
theorem assemble_eq_ok_iff {e : Expectation} (unlimited : e.maxRecords = none)
    (records : List Record) (result : Received) :
    assemble e records = .ok result ↔ OwnedBy e.origin records ∧ Answer e records result :=
  ⟨fun h => (answer_of_assemble h).symm, fun h => assemble_of_answer unlimited h.2 h.1⟩

/-- An answer in two steps, between two copies of the newest start of authority. -/
theorem assemble_two_steps :
    let e : Expectation := { origin := .root, requested := .ixfr, oldSerial := some ⟨8⟩ }
    let diffs : List ZoneDiff :=
      [⟨rootSoa 8, rootSoa 9, [rootAddress 1], []⟩, ⟨rootSoa 9, rootSoa 10, [], [rootAddress 2]⟩]
    let records := (rootSoa 10).record :: diffs.flatMap Primary.diffRecords ++ [(rootSoa 10).record]
    e.maxRecords = none ∧ OwnedBy e.origin records ∧ Answer e records (.delta ⟨8⟩ diffs) :=
  ⟨rfl, (assemble_eq_ok_iff rfl _ _).mp (by cbv)⟩

end ZoneSync.Assembly
