import ZoneSync.Proofs.Serial
import ZoneSync.Zone.History

/-!
Chains of diffs that only go forward and less than half way around the circle of serials, and
where a history finds them.
-/

namespace ZoneSync

namespace ZoneDiff

theorem isContiguous_append {diffs later : List ZoneDiff} {start stop : Serial} :
    isContiguous (diffs ++ later) start stop ↔
      ∃ middle, isContiguous diffs start middle ∧ isContiguous later middle stop := by
  induction diffs generalizing start with
  | nil => simp [isContiguous]
  | cons d diffs ih => simp [isContiguous, ih, and_assoc]

theorem isContiguous_concat {diffs : List ZoneDiff} {d : ZoneDiff} {start stop : Serial} :
    isContiguous (diffs ++ [d]) start stop ↔
      isContiguous diffs start d.fromSerial ∧ d.toSerial = stop := by
  simp only [isContiguous_append, isContiguous, Bool.and_eq_true, decide_eq_true_eq]
  constructor
  · rintro ⟨middle, h, rfl, rfl⟩
    exact ⟨h, rfl⟩
  · rintro ⟨h, rfl⟩
    exact ⟨_, h, rfl, rfl⟩

theorem isContiguous_cons {d : ZoneDiff} {later : List ZoneDiff} {start stop : Serial} :
    isContiguous (d :: later) start stop ↔
      d.fromSerial = start ∧ isContiguous later d.toSerial stop := by
  simp [isContiguous]

/-- The number of steps that the diffs go forward. -/
def travel (diffs : List ZoneDiff) : Nat :=
  (diffs.map fun d => d.fromSerial.distance d.toSerial).sum

@[simp] theorem travel_nil : travel [] = 0 := rfl

@[simp] theorem travel_cons (d : ZoneDiff) (later : List ZoneDiff) :
    travel (d :: later) = d.fromSerial.distance d.toSerial + travel later := by
  simp [travel]

@[simp] theorem travel_append (diffs later : List ZoneDiff) :
    travel (diffs ++ later) = travel diffs + travel later := by
  simp [travel]

/-- Each diff goes to a newer serial, and all together stay within half of the circle. -/
structure Forward (diffs : List ZoneDiff) : Prop where
  newer : ∀ d ∈ diffs, d.toSerial.greater d.fromSerial
  short : travel diffs < 2 ^ 31

theorem Forward.left {diffs later : List ZoneDiff} (h : Forward (diffs ++ later)) :
    Forward diffs where
  newer d hd := h.newer d (List.mem_append_left _ hd)
  short := by
    have short := h.short
    rw [travel_append] at short
    omega

theorem Forward.right {diffs later : List ZoneDiff} (h : Forward (diffs ++ later)) :
    Forward later where
  newer d hd := h.newer d (List.mem_append_right _ hd)
  short := by
    have short := h.short
    rw [travel_append] at short
    omega

theorem Forward.tail {d : ZoneDiff} {later : List ZoneDiff} (h : Forward (d :: later)) :
    Forward later := by
  rw [← List.singleton_append] at h
  exact h.right

theorem Forward.travel_pos {diffs : List ZoneDiff} (h : Forward diffs) (nonempty : diffs ≠ []) :
    0 < travel diffs := by
  obtain ⟨d, later, rfl⟩ := List.exists_cons_of_ne_nil nonempty
  have step := (Serial.greater_iff.mp (h.newer d (by simp))).1
  rw [travel_cons]
  omega

/-- The steps of the diffs add up to the distance from the first serial to the last. -/
theorem distance_eq_travel {diffs : List ZoneDiff} {start stop : Serial}
    (contiguous : isContiguous diffs start stop) (short : travel diffs < 2 ^ 31) :
    start.distance stop = travel diffs := by
  induction diffs generalizing start with
  | nil =>
      have same : start = stop := by simpa [isContiguous] using contiguous
      simp [same]
  | cons d later ih =>
      obtain ⟨rfl, later_contiguous⟩ := isContiguous_cons.mp contiguous
      rw [travel_cons] at short ⊢
      have rest := ih later_contiguous (by omega)
      rw [Serial.distance_add (b := d.toSerial) (by omega), rest]

/-- A chain that goes forward does not come back to where it started. -/
theorem Forward.ne_start {diffs : List ZoneDiff} {start stop : Serial} (h : Forward diffs)
    (contiguous : isContiguous diffs start stop) (nonempty : diffs ≠ []) : start ≠ stop := by
  intro same
  have far := distance_eq_travel contiguous h.short
  have pos := h.travel_pos nonempty
  rw [Serial.distance_eq_zero.mpr same] at far
  omega

/-- No diff of a chain goes beyond its end, and only the last one reaches it. -/
theorem Forward.serials {diffs : List ZoneDiff} {start stop : Serial} (h : Forward diffs)
    (contiguous : isContiguous diffs start stop) :
    (∀ d ∈ diffs, d.toSerial.lessOrEqual stop) ∧ ∀ d ∈ diffs.dropLast, d.toSerial ≠ stop := by
  induction diffs generalizing start with
  | nil => simp
  | cons d later ih =>
      obtain ⟨-, rest⟩ := isContiguous_cons.mp contiguous
      obtain ⟨bounded, early⟩ := ih h.tail rest
      constructor
      · refine List.forall_mem_cons.mpr ⟨?_, bounded⟩
        refine Serial.lessOrEqual_of_distance ?_
        rw [distance_eq_travel rest h.tail.short]
        exact h.tail.short
      · cases later with
        | nil => simp
        | cons next later =>
            rw [List.dropLast_cons_cons]
            exact List.forall_mem_cons.mpr ⟨h.tail.ne_start rest (by simp), early⟩

end ZoneDiff

namespace History

open ZoneDiff

theorem fromLast?_append {start : Serial} {part : List ZoneDiff} (older : List ZoneDiff)
    {diffs : List ZoneDiff} (h : fromLast? start diffs = some part) :
    fromLast? start (older ++ diffs) = some part := by
  induction older with
  | nil => exact h
  | cons d older ih => simp [fromLast?, ih]

theorem fromLast?_eq_none {start : Serial} {diffs : List ZoneDiff}
    (h : ∀ d ∈ diffs, d.fromSerial ≠ start) : fromLast? start diffs = none := by
  induction diffs with
  | nil => rfl
  | cons d later ih =>
      obtain ⟨here, later_ne⟩ := List.forall_mem_cons.mp h
      simp [fromLast?, ih later_ne, here]

/-- Behind its first diff no diff of a forward chain starts where the chain does. -/
theorem fromSerial_ne {d : ZoneDiff} {later : List ZoneDiff} {start stop : Serial}
    (h : Forward (d :: later)) (contiguous : isContiguous (d :: later) start stop) :
    ∀ x ∈ later, x.fromSerial ≠ start := by
  intro x hx
  obtain ⟨between, behind, rfl⟩ := List.append_of_mem hx
  rw [← List.cons_append] at contiguous h
  obtain ⟨middle, first, rest⟩ := isContiguous_append.mp contiguous
  rw [(isContiguous_cons.mp rest).1]
  exact (h.left.ne_start first (by simp)).symm

theorem upTo_eq_self {diffs : List ZoneDiff} {stop : Serial}
    (early : ∀ d ∈ diffs.dropLast, d.toSerial ≠ stop) : upTo stop diffs = diffs := by
  induction diffs with
  | nil => rfl
  | cons d later ih =>
      cases later with
      | nil => simp [upTo]
      | cons next later =>
          rw [List.dropLast_cons_cons] at early
          obtain ⟨here, early⟩ := List.forall_mem_cons.mp early
          rw [upTo, if_neg here, ih early]

theorem fromLast?_suffix {start : Serial} {diffs part : List ZoneDiff}
    (h : fromLast? start diffs = some part) : part <:+ diffs := by
  induction diffs with
  | nil => simp [fromLast?] at h
  | cons d later ih =>
      rw [fromLast?] at h
      split at h
      · rename_i shorter found
        obtain rfl := Option.some.inj h
        exact (ih found).trans (List.suffix_cons d later)
      · split at h
        · obtain rfl := Option.some.inj h
          exact List.suffix_refl _
        · simp at h

theorem prefix_upTo (stop : Serial) (diffs : List ZoneDiff) : upTo stop diffs <+: diffs := by
  induction diffs with
  | nil => exact List.prefix_refl _
  | cons d later ih =>
      rw [upTo]
      split
      · exact List.prefix_append [d] later
      · exact List.prefix_cons_inj d |>.mpr ih

/-- Only the last of the diffs up to a serial reaches it. -/
theorem upTo_early (stop : Serial) (diffs : List ZoneDiff) :
    ∀ d ∈ (upTo stop diffs).dropLast, d.toSerial ≠ stop := by
  induction diffs with
  | nil => simp [upTo]
  | cons d later ih =>
      rw [upTo]
      split
      · simp
      · rename_i other
        cases rest : upTo stop later with
        | nil => simp
        | cons next more =>
            rw [rest] at ih
            rw [List.dropLast_cons_cons]
            exact List.forall_mem_cons.mpr ⟨other, ih⟩

/-- A chain that a history finds is a run of its diffs, and only its last diff reaches the end. -/
theorem chain?_sound {history diffs : List ZoneDiff} {start stop : Serial} (other : start ≠ stop)
    (h : chain? history start stop = some diffs) :
    diffs <:+: history ∧ isContiguous diffs start stop ∧
      ∀ d ∈ diffs.dropLast, d.toSerial ≠ stop := by
  rw [chain?, if_neg other] at h
  split at h
  · simp at h
  · rename_i part found
    dsimp only at h
    split at h
    · rename_i contiguous
      obtain rfl := Option.some.inj h
      have run : upTo stop part <:+: history :=
        (prefix_upTo stop part).isInfix.trans (fromLast?_suffix found).isInfix
      exact ⟨run, contiguous, upTo_early stop part⟩
    · simp at h

/-- What a history finds from the start of a forward chain to its end is that chain, if the
history ends with it and is not cut within it. -/
theorem chain?_eq {history older diffs found : List ZoneDiff} {start stop : Serial}
    (suffix : history <:+ older ++ diffs) (forward : Forward diffs)
    (contiguous : isContiguous diffs start stop) (nonempty : diffs ≠ [])
    (h : chain? history start stop = some found) : found = diffs := by
  obtain ⟨d, later, rfl⟩ := List.exists_cons_of_ne_nil nonempty
  have other := forward.ne_start contiguous nonempty
  have none_later := fromLast?_eq_none (fromSerial_ne forward contiguous)
  have first : d.fromSerial = start := (isContiguous_cons.mp contiguous).1
  have whole : fromLast? start (d :: later) = some (d :: later) := by
    simp [fromLast?, none_later, first]
  rw [chain?, if_neg other] at h
  -- The history was cut before the chain, or within it, and then its first diff is lost.
  obtain ⟨cut, split⟩ := suffix
  rcases List.append_eq_append_iff.mp split with ⟨kept, -, rfl⟩ | ⟨kept, rfl, same⟩
  · rw [fromLast?_append kept whole] at h
    simp only [upTo_eq_self (forward.serials contiguous).2, contiguous, if_true] at h
    exact (Option.some.inj h).symm
  · cases kept with
    | nil =>
        obtain rfl : d :: later = history := same
        simp only [whole, upTo_eq_self (forward.serials contiguous).2, contiguous, if_true] at h
        exact (Option.some.inj h).symm
    | cons gone kept =>
        obtain ⟨-, rfl⟩ := List.cons.inj same
        have lost : fromLast? start history = none :=
          fromLast?_eq_none fun x hx =>
            fromSerial_ne forward contiguous x (List.mem_append_right _ hx)
        simp [lost] at h

end History

def rootSoa (serial : UInt32) : SoaRecord where
  owner := .root
  cls := .internet
  ttl := 3600
  soa := ⟨.root, .root, ⟨serial⟩, 1, 2, 3, 4⟩

def rootAddress (last : UInt8) : Record where
  owner := .root
  cls := .internet
  ttl := 60
  data := .a ⟨[192, 0, 2, last], rfl⟩

end ZoneSync
