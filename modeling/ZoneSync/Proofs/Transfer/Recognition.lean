import ZoneSync.Proofs.Transfer.Grammar

/-!
The assembly of an answer accepts nothing but answers. `Spells` says what the records taken in
so far are, by the state they have led to; every step keeps it, and at the end it is the grammar.
-/

namespace ZoneSync.Assembly

/-- The records of a chain that begins with the given start of authority, if with any. -/
def chainRecords (leading : Option SoaRecord) (diffs : List ZoneDiff) : List Record :=
  leading.toList.map SoaRecord.record ++ diffs.flatMap Primary.diffRecords

theorem chainRecords_concat (leading : Option SoaRecord) (diffs : List ZoneDiff) (d : ZoneDiff) :
    chainRecords leading (diffs ++ [d]) = chainRecords leading diffs ++ Primary.diffRecords d := by
  simp [chainRecords]

/-- A chain of closed diffs that leads to `stop` without having reached its target. -/
structure Chain.Open (e : Expectation) (c : Chain) (leading : Option SoaRecord)
    (stop : Serial) : Prop where
  start : e.deltaStart = some c.start
  leading_serial : leading.map SoaRecord.serial = c.target
  sendable : ∀ d ∈ c.diffs, d.Sendable
  contiguous : ZoneDiff.isContiguous c.diffs c.start stop
  other : c.target ≠ some c.start
  bounded : ∀ target ∈ c.target, ∀ d ∈ c.diffs,
    d.toSerial.lessOrEqual target ∧ d.toSerial ≠ target

/-- What the records taken in so far are, by the state they have led to. -/
def Spells (e : Expectation) (records : List Record) : Progress → Prop
  | .awaitingFirst => records = []
  | .awaitingSecond first =>
    records = [first.record] ∧ ∃ old, e.deltaStart = some old ∧ first.serial ≠ old
  | .collecting soa body =>
    records = soa.record :: body ∧ Plain body ∧ e.deltaStart ≠ some soa.serial
  | .removing chain fromSoa removed =>
    ∃ leading, chain.Open e leading fromSoa.serial ∧ Plain removed ∧
      records = chainRecords leading chain.diffs ++ fromSoa.record :: removed
  | .adding chain diff =>
    ∃ leading, chain.Open e leading diff.fromSerial ∧ diff.Sendable ∧
      (∀ target ∈ chain.target, diff.toSerial.lessOrEqual target) ∧
      records = chainRecords leading chain.diffs ++ Primary.diffRecords diff
  | .betweenDiffs chain soa =>
    chain.Open e none soa.serial ∧ chain.diffs ≠ [] ∧
      records = chainRecords none chain.diffs ++ [soa.record]
  | .finished result => Answer e records result
  | .aborted => False

theorem spells_takeOther {e : Expectation} {records : List Record} {r : Record} {p q : Progress}
    (h : Spells e records p) (hr : r.soaRecord? = none) (ht : takeOther r p = .ok q) :
    Spells e (records ++ [r]) q := by
  have single : Plain [r] := by simpa [Plain] using hr
  cases p with
  | awaitingFirst | finished _ | aborted => simp [takeOther] at ht
  | awaitingSecond first =>
      obtain rfl : _ = q := Except.ok.inj ht
      obtain ⟨rfl, old, start, other⟩ := h
      refine ⟨rfl, single, ?_⟩
      simpa [start] using other.symm
  | collecting soa body =>
      obtain rfl : _ = q := Except.ok.inj ht
      obtain ⟨rfl, plain, start⟩ := h
      exact ⟨rfl, plain.concat hr, start⟩
  | removing chain fromSoa removed =>
      obtain rfl : _ = q := Except.ok.inj ht
      obtain ⟨leading, opened, plain, rfl⟩ := h
      exact ⟨leading, opened, plain.concat hr, by simp⟩
  | adding chain diff =>
      obtain rfl : _ = q := Except.ok.inj ht
      obtain ⟨leading, opened, sendable, bounded, rfl⟩ := h
      refine ⟨leading, opened, ?_, bounded, by simp [Primary.diffRecords, ZoneDiff.pushAdded]⟩
      exact ⟨sendable.forward, sendable.removed, sendable.added.concat hr⟩
  | betweenDiffs chain soa =>
      obtain rfl : _ = q := Except.ok.inj ht
      obtain ⟨opened, -, rfl⟩ := h
      exact ⟨none, opened, single, by simp⟩

/-- A closed diff that does not reach the target makes the chain longer. -/
theorem Chain.Open.concat {e : Expectation} {c : Chain} {leading : Option SoaRecord}
    {d : ZoneDiff} (h : c.Open e leading d.fromSerial) (sendable : d.Sendable)
    (bounded : ∀ target ∈ c.target, d.toSerial.lessOrEqual target ∧ d.toSerial ≠ target) :
    Chain.Open e { c with diffs := c.diffs ++ [d] } leading d.toSerial where
  start := h.start
  leading_serial := h.leading_serial
  sendable := List.forall_mem_append.mpr ⟨h.sendable, by simpa using sendable⟩
  contiguous := ZoneDiff.isContiguous_concat.mpr ⟨h.contiguous, rfl⟩
  other := h.other
  bounded target ht :=
    List.forall_mem_append.mpr ⟨h.bounded target ht, by simpa using bounded target ht⟩

/-- A closed diff that reaches the target completes the answer. -/
theorem Chain.Open.answer {e : Expectation} {c : Chain} {leading : Option SoaRecord}
    {d : ZoneDiff} {last : SoaRecord} (h : c.Open e leading d.fromSerial) (sendable : d.Sendable)
    (closes : last.serial = d.toSerial) (bounded : d.toSerial.lessOrEqual d.toSerial)
    (reached : c.target = some d.toSerial) :
    Answer e (chainRecords leading (c.diffs ++ [d]) ++ [last.record])
      (.delta c.start (c.diffs ++ [d])) := by
  obtain ⟨first, rfl, first_serial⟩ : ∃ first, leading = some first ∧
      first.serial = d.toSerial := by
    simpa [reached, Option.map_eq_some_iff] using h.leading_serial
  have before := h.bounded d.toSerial reached
  refine Answer.framed h.start ?other (by simp) ?sendable ?contiguous ?bounded ?early ?closed
  case other =>
    have other := h.other
    rw [reached] at other
    simpa [first_serial] using other
  case sendable => exact List.forall_mem_append.mpr ⟨h.sendable, by simpa using sendable⟩
  case contiguous => exact ZoneDiff.isContiguous_concat.mpr ⟨h.contiguous, first_serial.symm⟩
  case bounded =>
    rw [first_serial]
    exact List.forall_mem_append.mpr ⟨fun x hx => (before x hx).1, by simpa using bounded⟩
  case early =>
    rw [first_serial, List.dropLast_concat]
    exact fun x hx => (before x hx).2
  case closed => rw [closes, first_serial]

theorem spells_afterDiffs {e : Expectation} {records : List Record} {chain : Chain}
    {diff : ZoneDiff} {found : SoaRecord} (h : Spells e records (.adding chain diff))
    (closes : found.serial = diff.toSerial) :
    Spells e (records ++ [found.record]) (afterDiffs chain [diff] found) := by
  obtain ⟨leading, opened, sendable, bounded, rfl⟩ := h
  rw [afterDiffs, closes]
  cases ht : chain.target with
  | none =>
      have unled : leading = none := by simpa [ht] using opened.leading_serial
      subst unled
      have longer := opened.concat sendable (by simp [ht])
      rw [ht] at longer
      exact ⟨by rwa [closes], by simp, by simp [chainRecords_concat]⟩
  | some target =>
      by_cases reached : target = diff.toSerial
      · subst reached
        simp only [if_true]
        have answer := opened.answer sendable closes (bounded _ ht) ht
        rwa [chainRecords_concat] at answer
      · simp only [reached, if_false]
        have longer := opened.concat sendable fun target' ht' => by
          obtain rfl : target = target' := by simpa [ht] using ht'
          exact ⟨bounded _ ht, fun same => reached same.symm⟩
        rw [ht] at longer
        exact ⟨leading, by rwa [closes], by simp [Plain], by simp [chainRecords_concat]⟩

theorem spells_takeFirst {e : Expectation} {found : SoaRecord} {q : Progress}
    (ht : takeSoa e found .awaitingFirst = .ok q) : Spells e [found.record] q := by
  simp only [takeSoa] at ht
  cases start : e.deltaStart with
  | none =>
      simp only [start, Except.ok.injEq] at ht
      subst ht
      exact ⟨rfl, by simp [Plain], by simp [start]⟩
  | some old =>
      simp only [start] at ht
      by_cases same : found.serial = old
      · simp only [same, if_true, Except.ok.injEq] at ht
        subst ht
        exact ⟨none, ⟨start, rfl, by simp, by simp [ZoneDiff.isContiguous, same], by simp,
          by simp⟩, by simp [Plain], rfl⟩
      · simp only [same, if_false, Except.ok.injEq] at ht
        subst ht
        exact ⟨rfl, old, start, same⟩

theorem spells_takeSecond {e : Expectation} {first found : SoaRecord} {q : Progress}
    {old : Serial} (start : e.deltaStart = some old) (other : first.serial ≠ old)
    (ht : takeSoa e found (.awaitingSecond first) = .ok q) :
    Spells e [first.record, found.record] q := by
  simp only [takeSoa, deltaStart_eq_some start, Option.some.injEq] at ht
  by_cases same : old = found.serial
  · simp only [same, if_true, Except.ok.injEq] at ht
    subst ht
    refine ⟨some first, ⟨by rw [start, same], rfl, by simp, by simp [ZoneDiff.isContiguous],
      by simpa [← same] using other, by simp⟩, by simp [Plain], rfl⟩
  · simp only [same, if_false] at ht
    obtain ⟨closes, rfl⟩ := closeFull_eq_ok.mp ht
    have answer : Answer e (first.record :: [] ++ (some found).toList.map SoaRecord.record)
        (.full first []) :=
      .full (by simpa [start] using other.symm) (by simp [Plain]) (by simpa using closes)
    simpa [Spells] using answer

theorem spells_takeSoa {e : Expectation} {records : List Record} {found : SoaRecord}
    {p q : Progress} (h : Spells e records p) (ht : takeSoa e found p = .ok q) :
    Spells e (records ++ [found.record]) q := by
  cases p with
  | finished _ | aborted => simp [takeSoa] at ht
  | awaitingFirst =>
      obtain rfl : records = [] := h
      exact spells_takeFirst ht
  | awaitingSecond first =>
      obtain ⟨rfl, old, start, other⟩ := h
      exact spells_takeSecond start other ht
  | collecting soa body =>
      obtain ⟨rfl, plain, start⟩ := h
      obtain ⟨closes, rfl⟩ := closeFull_eq_ok.mp ht
      have answer : Answer e (soa.record :: body ++ (some found).toList.map SoaRecord.record)
          (.full soa body) := .full start plain (by simpa using closes)
      simpa [Spells] using answer
  | removing chain fromSoa removed =>
      obtain ⟨leading, opened, plain, rfl⟩ := h
      obtain ⟨forward, bounded, rfl⟩ := openAdded_eq_ok.mp ht
      exact ⟨leading, opened, ⟨forward, plain, by simp [Plain]⟩, bounded,
        by simp [Primary.diffRecords]⟩
  | adding chain diff =>
      obtain ⟨closes, rfl⟩ := closeDiff_eq_ok.mp ht
      exact spells_afterDiffs h closes
  | betweenDiffs chain soa =>
      obtain ⟨opened, -, rfl⟩ := h
      obtain ⟨forward, bounded, rfl⟩ := openAdded_eq_ok.mp ht
      exact ⟨none, opened, ⟨forward, by simp [Plain], by simp [Plain]⟩, bounded,
        by simp [Primary.diffRecords]⟩

theorem spells_take {e : Expectation} {records : List Record} {r : Record} {p q : Progress}
    (h : Spells e records p) (ht : take e r p = .ok q) : Spells e (records ++ [r]) q := by
  rcases take_eq_ok.mp ht with ⟨hr, ht⟩ | ⟨found, rfl, -, ht⟩
  · exact spells_takeOther h hr ht
  · exact spells_takeSoa h ht

theorem spells_takeAll {e : Expectation} {before records : List Record} {p q : Progress}
    (h : Spells e before p) (ht : takeAll e records p = .ok q) :
    Spells e (before ++ records) q := by
  induction records generalizing before p with
  | nil =>
      obtain rfl : p = q := Except.ok.inj ht
      simpa using h
  | cons r later ih =>
      rw [takeAll_cons] at ht
      cases hr : take e r p with
      | error v => simp [hr, Except.bind] at ht
      | ok middle =>
          rw [hr] at ht
          simpa using ih (spells_take h hr) ht

theorem ownedBy_of_takeAll {e : Expectation} {records : List Record} {p q : Progress}
    (h : takeAll e records p = .ok q) : OwnedBy e.origin records := by
  induction records generalizing p with
  | nil => simp [OwnedBy]
  | cons r later ih =>
      rw [takeAll_cons] at h
      cases hr : take e r p with
      | error v => simp [hr, Except.bind] at h
      | ok middle =>
          rw [hr] at h
          refine List.forall_mem_cons.mpr ⟨?_, ih h⟩
          intro soa hs
          rcases take_eq_ok.mp hr with ⟨other, -⟩ | ⟨found, rfl, owned, -⟩
          · simp [other] at hs
          · obtain rfl : found = soa := by simpa using hs
            exact owned

/-- A start of authority that opens a diff is alone only if it opens the answer, too. -/
theorem answer_of_single {e : Expectation} {records : List Record} {chain : Chain}
    {fromSoa : SoaRecord} {removed : List Record}
    (h : Spells e records (.removing chain fromSoa removed)) (single : records.length = 1) :
    Answer e records (.upToDate chain.start) := by
  obtain ⟨leading, opened, -, rfl⟩ := h
  obtain ⟨before, after⟩ : (chainRecords leading chain.diffs).length = 0 ∧ removed.length = 0 := by
    simp only [List.length_append, List.length_cons] at single
    omega
  obtain ⟨-, closed⟩ : leading = none ∧ chain.diffs = [] := by
    cases leading <;> cases hd : chain.diffs <;> simp_all [chainRecords, Primary.diffRecords]
  have start := opened.contiguous
  rw [closed] at start
  have same : chain.start = fromSoa.serial := by simpa [ZoneDiff.isContiguous] using start
  rw [List.eq_nil_of_length_eq_zero before, List.eq_nil_of_length_eq_zero after, same]
  exact Answer.upToDate (by rw [← same, opened.start])

/-- What an answer that ends here is, is what the records taken in are. -/
theorem answer_of_finish {a : Assembly} {records : List Record} {result : Received}
    (h : Spells a.expectation records a.progress) (counted : a.count = records.length)
    (hf : a.finish = .ok result) : Answer a.expectation records result := by
  rw [finish] at hf
  cases hp : a.progress with
  | awaitingFirst | adding _ _ | aborted => simp [hp] at hf
  | finished received =>
      obtain rfl : received = result := by simpa [hp] using hf
      simpa [hp, Spells] using h
  | awaitingSecond first =>
      obtain rfl : _ = result := by simpa [hp] using hf
      rw [hp] at h
      obtain ⟨rfl, old, start, other⟩ := h
      exact answer_full_open (by simpa [start] using other.symm) (by simp [Plain])
  | collecting soa body =>
      obtain rfl : _ = result := by simpa [hp] using hf
      rw [hp] at h
      obtain ⟨rfl, plain, start⟩ := h
      exact answer_full_open start plain
  | removing chain fromSoa removed =>
      rw [hp] at h hf
      obtain ⟨single, rfl⟩ : a.count = 1 ∧ .upToDate chain.start = result := by
        simp only at hf
        split at hf
        · exact ⟨by assumption, Except.ok.inj hf⟩
        · simp at hf
      exact answer_of_single h (counted.symm.trans single)
  | betweenDiffs chain soa =>
      rw [hp] at h hf
      obtain ⟨opened, nonempty, rfl⟩ := h
      obtain ⟨reached, rfl⟩ : (∀ target, a.expectation.target = some target →
          ¬ soa.serial.less target) ∧ .delta chain.start chain.diffs = result := by
        cases ht : a.expectation.target with
        | none => simpa [ht] using hf
        | some target => by_cases early : soa.serial.less target <;> simp_all
      exact Answer.chain opened.start nonempty opened.sendable opened.contiguous reached

theorem answer_of_assemble {e : Expectation} {records : List Record} {result : Received}
    (h : assemble e records = .ok result) :
    Answer e records result ∧ OwnedBy e.origin records := by
  rw [assemble] at h
  split at h
  · rename_i a processed
    obtain ⟨p, taken, rfl⟩ := processAll_eq_ok processed
    refine ⟨answer_of_finish ?_ (by simp) h, ownedBy_of_takeAll taken⟩
    have spelled : Spells e [] .awaitingFirst := rfl
    exact spells_takeAll spelled taken
  · simp at h

end ZoneSync.Assembly
