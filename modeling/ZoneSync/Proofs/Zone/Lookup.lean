import ZoneSync.Proofs.Zone.Invariant

/-!
Which chains a history finds. What it finds is a run of its diffs that leads from the one serial to
the other. If its serials are all different, it finds the diffs between any two of them that stand
in this order, and nothing else.
-/

namespace ZoneSync

namespace ZoneDiff

/-- The serials that diffs lead along: where the first starts, and where each of them ends. -/
def boundaries : List ZoneDiff → List Serial
  | [] => []
  | d :: later => d.fromSerial :: (d :: later).map toSerial

theorem boundaries_drop_succ (diffs : List ZoneDiff) (i : Nat) :
    (boundaries diffs).drop (i + 1) = (diffs.drop i).map toSerial := by
  cases diffs with
  | nil => simp [boundaries]
  | cons d later => rw [boundaries, List.drop_succ_cons, List.map_drop]

/-- Each diff ends at the boundary behind it. -/
theorem boundaries_succ (diffs : List ZoneDiff) (i : Nat) :
    (boundaries diffs)[i + 1]? = diffs[i]?.map toSerial := by
  cases diffs with
  | nil => rfl
  | cons d later => rw [boundaries, List.getElem?_cons_succ, List.getElem?_map]

/-- Each diff of a chain starts at the boundary before it. -/
theorem boundaries_of_linked {diffs : List ZoneDiff} (linked : Linked diffs) {i : Nat}
    (h : i < diffs.length) : (boundaries diffs)[i]? = some diffs[i].fromSerial := by
  cases i with
  | zero =>
      cases diffs with
      | nil => simp at h
      | cons d later => rfl
  | succ i =>
      have step := List.isChain_iff_getElem.mp linked i h
      rw [boundaries_succ, List.getElem?_eq_getElem (by omega), Option.map_some, step]

theorem lt_length_of_boundaries {diffs : List ZoneDiff} {i : Nat} {stop : Serial}
    (h : (boundaries diffs)[i + 1]? = some stop) : i < diffs.length := by
  rw [boundaries_succ] at h
  obtain ⟨d, known, -⟩ := Option.map_eq_some_iff.mp h
  exact (List.getElem?_eq_some_iff.mp known).1

/-- The diffs between two boundaries of a chain lead from the one to the other. -/
theorem isContiguous_between {diffs : List ZoneDiff} (linked : Linked diffs) {i j : Nat}
    (order : i ≤ j) {start stop : Serial} (first : (boundaries diffs)[i]? = some start)
    (last : (boundaries diffs)[j]? = some stop) :
    isContiguous ((diffs.drop i).take (j - i)) start stop := by
  induction j, order using Nat.le_induction generalizing stop with
  | base =>
      obtain rfl := Option.some.inj (first.symm.trans last)
      simp [isContiguous]
  | succ j order ih =>
      have inside := lt_length_of_boundaries last
      have before := boundaries_of_linked linked inside
      rw [boundaries_succ, List.getElem?_eq_getElem inside] at last
      have longer :
          (diffs.drop i).take (j + 1 - i) = (diffs.drop i).take (j - i) ++ [diffs[j]] := by
        have place : (diffs.drop i)[j - i]? = some diffs[j] := by
          rw [List.getElem?_drop, Nat.add_sub_cancel' order, List.getElem?_eq_getElem inside]
        rw [Nat.succ_sub order, List.take_add_one, place]
        rfl
      rw [longer]
      exact isContiguous_concat.mpr ⟨ih before, Option.some.inj last⟩

theorem ne_nil_of_isContiguous {diffs : List ZoneDiff} {start stop : Serial}
    (other : start ≠ stop) (contiguous : isContiguous diffs start stop) : diffs ≠ [] := by
  rintro rfl
  simp [isContiguous, other] at contiguous

/-- A chain ends where its last diff does. -/
theorem stop_mem {diffs : List ZoneDiff} {start stop : Serial}
    (contiguous : isContiguous diffs start stop) (nonempty : diffs ≠ []) :
    stop ∈ diffs.map toSerial := by
  obtain ⟨-, -, last⟩ := linked_of_isContiguous contiguous
  have hl := List.getLast?_eq_some_getLast nonempty
  exact List.mem_map.mpr ⟨_, List.mem_of_getLast? hl, last _ hl⟩

/-- A chain that no diff leads back to its start ends at another serial. -/
theorem ne_of_fresh {diffs : List ZoneDiff} {start stop : Serial}
    (contiguous : isContiguous diffs start stop) (nonempty : diffs ≠ [])
    (fresh : start ∉ diffs.map toSerial) : start ≠ stop := by
  rintro rfl
  exact fresh (stop_mem contiguous nonempty)

/-- Behind the first diff of a chain each one starts where an earlier one ends. -/
theorem fromSerial_mem {d : ZoneDiff} {later : List ZoneDiff} (linked : Linked (d :: later)) :
    ∀ x ∈ later, x.fromSerial ∈ (d :: later).map toSerial := by
  induction later generalizing d with
  | nil => simp
  | cons next later ih =>
      obtain ⟨step, rest⟩ := List.isChain_cons_cons.mp linked
      refine List.forall_mem_cons.mpr ⟨?_, fun x hx => ?_⟩
      · rw [step]
        exact List.mem_cons_self
      · exact List.mem_cons_of_mem _ (ih rest x hx)

end ZoneDiff

namespace History

open ZoneDiff

/-- The search for the end of a chain stops there if no diff before ends at the same serial. -/
theorem upTo_append {diffs : List ZoneDiff} (newer : List ZoneDiff) {start stop : Serial}
    (contiguous : isContiguous diffs start stop) (nonempty : diffs ≠ [])
    (nodup : (diffs.map toSerial).Nodup) : upTo stop (diffs ++ newer) = diffs := by
  induction diffs generalizing start with
  | nil => exact absurd rfl nonempty
  | cons d later ih =>
      obtain ⟨-, rest⟩ := isContiguous_cons.mp contiguous
      obtain ⟨unique, nodup⟩ := List.nodup_cons.mp nodup
      rw [List.cons_append, upTo]
      cases later with
      | nil =>
          have reached : d.toSerial = stop := by simpa [isContiguous] using rest
          rw [if_pos reached]
      | cons next later =>
          have ends := stop_mem rest (List.cons_ne_nil next later)
          have early : d.toSerial ≠ stop := by
            rintro rfl
            exact unique ends
          rw [if_neg early, ih rest (List.cons_ne_nil next later) nodup]

/-- A history finds each chain in it whose serials do not come again. -/
theorem chain?_append (older newer : List ZoneDiff) {diffs : List ZoneDiff}
    {start stop : Serial} (contiguous : isContiguous diffs start stop) (nonempty : diffs ≠ [])
    (linked : Linked (diffs ++ newer))
    (nodup : (start :: (diffs ++ newer).map toSerial).Nodup) :
    chain? (older ++ (diffs ++ newer)) start stop = some diffs := by
  obtain ⟨fresh, nodup⟩ := List.nodup_cons.mp nodup
  rw [List.map_append] at nodup
  have reached := upTo_append newer contiguous nonempty (List.nodup_append.mp nodup).1
  obtain ⟨d, rest, rfl⟩ := List.exists_cons_of_ne_nil nonempty
  have behind : fromLast? start (rest ++ newer) = none := by
    refine fromLast?_eq_none fun x hx same => fresh ?_
    rw [← same]
    exact fromSerial_mem linked x hx
  have found : fromLast? start (d :: rest ++ newer) = some (d :: rest ++ newer) := by
    rw [List.cons_append, fromLast?, behind]
    simp [(isContiguous_cons.mp contiguous).1]
  have other : start ≠ stop := by
    refine ne_of_fresh contiguous nonempty fun again => fresh ?_
    rw [List.map_append]
    exact List.mem_append_left _ again
  rw [chain?, if_neg other, fromLast?_append older found]
  simp only [reached, contiguous, if_true]

/-- In a chain the diffs of a run stand between two of its boundaries. -/
theorem exists_boundaries {history diffs : List ZoneDiff} {start stop : Serial}
    (linked : Linked history) (run : diffs <:+: history) (nonempty : diffs ≠ [])
    (contiguous : isContiguous diffs start stop) :
    ∃ i j, i < j ∧ (boundaries history)[i]? = some start ∧
      (boundaries history)[j]? = some stop ∧ diffs = (history.drop i).take (j - i) := by
  obtain ⟨older, newer, rfl⟩ := run
  obtain ⟨d, rest, rfl⟩ := List.exists_cons_of_ne_nil nonempty
  refine ⟨older.length, older.length + (d :: rest).length, by simp, ?_, ?_, ?_⟩
  · rw [boundaries_of_linked linked (by simp)]
    simpa using (isContiguous_cons.mp contiguous).1
  · have hl := List.getLast?_eq_some_getLast nonempty
    obtain ⟨-, -, last⟩ := linked_of_isContiguous contiguous
    have place : (older ++ d :: rest ++ newer)[older.length + rest.length]? =
        (d :: rest).getLast? := by
      rw [List.getElem?_append_left (by simp), List.getElem?_append_right (by omega),
        Nat.add_sub_cancel_left, List.getLast?_eq_getElem?]
      rfl
    rw [List.length_cons, ← Nat.add_assoc, boundaries_succ, place, hl, Option.map_some, last _ hl]
  · simp

/-- Where no boundary comes twice, a history finds exactly the chains between its boundaries. -/
theorem chain?_eq_some_iff {history diffs : List ZoneDiff} {start stop : Serial}
    (linked : Linked history) (nodup : (boundaries history).Nodup) (other : start ≠ stop) :
    chain? history start stop = some diffs ↔
      ∃ i j, i < j ∧ (boundaries history)[i]? = some start ∧
        (boundaries history)[j]? = some stop ∧ diffs = (history.drop i).take (j - i) := by
  constructor
  · intro found
    obtain ⟨run, contiguous, -⟩ := chain?_sound other found
    exact exists_boundaries linked run (ne_nil_of_isContiguous other contiguous) contiguous
  · rintro ⟨i, j, order, first, last, rfl⟩
    have contiguous := isContiguous_between linked order.le first last
    obtain ⟨inside, here⟩ := List.getElem?_eq_some_iff.mp first
    have serials : (boundaries history).drop i = start :: (history.drop i).map toSerial := by
      rw [List.drop_eq_getElem_cons inside, here, boundaries_drop_succ]
    have split : (history.drop i).take (j - i) ++ (history.drop i).drop (j - i) =
        history.drop i := List.take_append_drop _ _
    have found := chain?_append (history.take i) ((history.drop i).drop (j - i)) contiguous
      (ne_nil_of_isContiguous other contiguous)
      (by rw [split]; exact linked.suffix (List.drop_suffix i history))
      (by rw [split, ← serials]; exact nodup.sublist (List.drop_sublist i _))
    rwa [split, List.take_append_drop] at found

/-- Some of the diffs, one behind the other, lead from the one serial to the other. -/
def HasChain (history : List ZoneDiff) (start stop : Serial) : Prop :=
  ∃ diffs, diffs ≠ [] ∧ diffs <:+: history ∧ isContiguous diffs start stop

theorem fromLast?_head {start : Serial} {diffs part : List ZoneDiff}
    (h : fromLast? start diffs = some part) :
    ∃ first later, part = first :: later ∧ first.fromSerial = start := by
  induction diffs with
  | nil => cases h
  | cons d diffs ih =>
      rw [fromLast?] at h
      split at h
      · rename_i shorter found
        obtain rfl := Option.some.inj h
        exact ih found
      · split at h
        · rename_i starts
          exact ⟨d, diffs, (Option.some.inj h).symm, starts⟩
        · cases h

theorem ne_of_fromLast?_eq_none {start : Serial} {diffs : List ZoneDiff}
    (h : fromLast? start diffs = none) : ∀ d ∈ diffs, d.fromSerial ≠ start := by
  induction diffs with
  | nil => simp
  | cons d diffs ih =>
      rw [fromLast?] at h
      split at h
      · cases h
      · rename_i none_later
        split at h
        · cases h
        · rename_i other
          exact List.forall_mem_cons.mpr ⟨other, ih none_later⟩

/-- Diffs that are linked up to a serial lead there, however often they pass it. -/
theorem isContiguous_upTo {d : ZoneDiff} {later : List ZoneDiff} {stop : Serial}
    (linked : Linked (d :: later)) (ended : ∀ last ∈ (d :: later).getLast?, last.toSerial = stop) :
    isContiguous (upTo stop (d :: later)) d.fromSerial stop := by
  induction later generalizing d with
  | nil =>
      have reached : d.toSerial = stop := by simpa using ended
      simp [upTo, isContiguous, reached]
  | cons next later ih =>
      rw [upTo]
      split
      · rename_i reached
        simp [isContiguous, reached]
      · obtain ⟨step, rest⟩ := List.isChain_cons_cons.mp linked
        rw [List.getLast?_cons_cons] at ended
        refine isContiguous_cons.mpr ⟨rfl, ?_⟩
        rw [← step]
        exact ih rest ended

/-- A history that ends at a serial finds a chain that leads there whenever it holds one. -/
theorem isSome_chain?_iff {history : List ZoneDiff} {start stop : Serial}
    (linked : Linked history) (ended : ∀ last ∈ history.getLast?, last.toSerial = stop)
    (other : start ≠ stop) :
    (chain? history start stop).isSome ↔ HasChain history start stop := by
  constructor
  · intro found
    obtain ⟨diffs, found⟩ := Option.isSome_iff_exists.mp found
    obtain ⟨run, contiguous, -⟩ := chain?_sound other found
    exact ⟨diffs, ne_nil_of_isContiguous other contiguous, run, contiguous⟩
  · rintro ⟨diffs, nonempty, run, contiguous⟩
    obtain ⟨d, rest, rfl⟩ := List.exists_cons_of_ne_nil nonempty
    have known : d ∈ history := run.subset List.mem_cons_self
    cases found : fromLast? start history with
    | none =>
        exact absurd (isContiguous_cons.mp contiguous).1 (ne_of_fromLast?_eq_none found d known)
    | some part =>
        obtain ⟨first, later, rfl, rfl⟩ := fromLast?_head found
        obtain ⟨older, rfl⟩ := fromLast?_suffix found
        have leads : isContiguous (upTo stop (first :: later)) first.fromSerial stop := by
          refine isContiguous_upTo (linked.suffix ⟨older, rfl⟩) ?_
          rwa [List.getLast?_append_of_ne_nil _ (List.cons_ne_nil first later)] at ended
        rw [chain?, if_neg other, found]
        simp [leads]

/-- A history that was cut in front finds the chain that it ends with, unless the cut went into the
chain. -/
theorem chain?_push (limit : Nat) (older : List ZoneDiff) {diffs : List ZoneDiff}
    {start stop : Serial} (contiguous : isContiguous diffs start stop) (nonempty : diffs ≠ [])
    (nodup : (start :: diffs.map toSerial).Nodup) :
    chain? (push limit [] (older ++ diffs)) start stop =
      if diffs.length ≤ limit then some diffs else none := by
  have other := ne_of_fresh contiguous nonempty (List.nodup_cons.mp nodup).1
  obtain ⟨linked, -⟩ := linked_of_isContiguous contiguous
  rw [push, List.nil_append, List.length_append]
  by_cases fits : diffs.length ≤ limit
  · rw [if_pos fits, List.drop_append_of_le_length (by omega)]
    have found := chain?_append (older.drop (older.length + diffs.length - limit)) [] contiguous
      nonempty (by rwa [List.append_nil]) (by rwa [List.append_nil])
    rwa [List.append_nil] at found
  · obtain ⟨d, rest, rfl⟩ := List.exists_cons_of_ne_nil nonempty
    rw [if_neg fits, chain?, if_neg other]
    -- The first diff is lost, and it is the only one that starts where the chain does.
    have lost : ∀ x ∈ (older ++ d :: rest).drop (older.length + (d :: rest).length - limit),
        x.fromSerial ≠ start := by
      intro x hx same
      have behind : older.length + (d :: rest).length - limit =
          older.length + ((d :: rest).length - limit - 1 + 1) := by omega
      rw [behind, List.drop_length_add_append, List.drop_succ_cons] at hx
      have again := fromSerial_mem linked x (List.mem_of_mem_drop hx)
      rw [same] at again
      exact (List.nodup_cons.mp nodup).1 again
    rw [fromLast?_eq_none lost]

end History

/-- What the history of a zone finds is a run of its diffs that leads where it should. If no
boundary of the history comes twice, a chain is found exactly between a boundary and a later one. -/
theorem ZoneStore.Reachable.chain?_iff_boundaries {s : ZoneStore} (reachable : s.Reachable)
    {z : Zone} (known : z ∈ s.zones) {start stop : Serial} (other : start ≠ stop)
    (diffs : List ZoneDiff) :
    (History.chain? z.history start stop = some diffs →
        diffs ≠ [] ∧ diffs <:+: z.history ∧ ZoneDiff.isContiguous diffs start stop) ∧
      ((ZoneDiff.boundaries z.history).Nodup →
        (History.chain? z.history start stop = some diffs ↔
          ∃ i j, i < j ∧ (ZoneDiff.boundaries z.history)[i]? = some start ∧
            (ZoneDiff.boundaries z.history)[j]? = some stop ∧
            diffs = (z.history.drop i).take (j - i))) := by
  refine ⟨fun found => ?_, fun nodup => ?_⟩
  · obtain ⟨run, contiguous, -⟩ := History.chain?_sound other found
    exact ⟨ZoneDiff.ne_nil_of_isContiguous other contiguous, run, contiguous⟩
  · exact History.chain?_eq_some_iff (reachable.sound z known).linked nodup other

/-- Three diffs, of which the history has kept two. -/
theorem ZoneStore.chain?_iff_boundaries_root :
    let step (older newer : UInt32) : ZoneDiff := ⟨rootSoa older, rootSoa newer, [], []⟩
    let s : ZoneStore := [Command.addZone .root, .commitFull .root (rootSoa 7).record [],
      .commitDelta .root ⟨7⟩ [step 7 8, step 8 9, step 9 10]].foldl Command.run
        { limits := { maxDeltas := 2 } }
    let z : Zone := {
      origin := .root
      current := some ⟨⟨2⟩, rootSoa 10, []⟩
      retained := [⟨⟨1⟩, rootSoa 7, []⟩]
      history := [step 8 9, step 9 10] }
    s.Reachable ∧ z ∈ s.zones ∧ (⟨8⟩ : Serial) ≠ ⟨10⟩ ∧ (ZoneDiff.boundaries z.history).Nodup ∧
      History.chain? z.history ⟨8⟩ ⟨10⟩ = some [step 8 9, step 9 10] ∧
      [step 8 9, step 9 10] <:+: z.history ∧
      ZoneDiff.isContiguous [step 8 9, step 9 10] ⟨8⟩ ⟨10⟩ := by
  intro step s z
  have reachable : s.Reachable := (Reachable.empty { maxDeltas := 2 } 1).run _
  have known : z ∈ s.zones := by decide
  have other : (⟨8⟩ : Serial) ≠ ⟨10⟩ := by decide
  have nodup : (ZoneDiff.boundaries z.history).Nodup := by decide
  obtain ⟨sound, complete⟩ := reachable.chain?_iff_boundaries known other [step 8 9, step 9 10]
  have found := (complete nodup).mpr ⟨0, 2, by decide, rfl, rfl, rfl⟩
  obtain ⟨-, run, contiguous⟩ := sound found
  exact ⟨reachable, known, other, nodup, found, run, contiguous⟩

end ZoneSync
