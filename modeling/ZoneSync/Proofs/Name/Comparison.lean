import ZoneSync.Proofs.Name.Equality
import ZoneSync.Proofs.Name.Validity

/-!
Names compared label by label. Equality, order and hashing work on octets with the length octets
among them, and a suffix is looked for in octets too; since no length is a letter, and suffixes
begin at lengths only, what they decide is what the labels say.
-/

namespace ZoneSync

namespace Name

/-- Labels that are equal one by one, but for the case of letters. -/
def SameLabels (labels others : List Label) : Prop :=
  labels.length = others.length ∧
    ∀ p ∈ labels.zip others, Octets.sameLetters p.1.octets p.2.octets

theorem folded_eq_iff {l k : Label} :
    l.folded = k.folded ↔ Octets.sameLetters l.octets k.octets := by
  simp [Label.folded, Octets.sameLetters]

theorem sameLabels_iff {labels others : List Label} :
    SameLabels labels others ↔ labels.map Label.folded = others.map Label.folded := by
  induction labels generalizing others with
  | nil => cases others <;> simp [SameLabels]
  | cons l labels ih =>
      cases others with
      | nil => simp [SameLabels]
      | cons k others =>
          rw [List.map_cons, List.map_cons, List.cons.injEq, ← ih, folded_eq_iff]
          simp only [SameLabels, List.length_cons, List.zip_cons_cons, List.forall_mem_cons,
            Nat.add_right_cancel_iff]
          exact and_left_comm

theorem fold_wireOf_eq_iff {labels others : List Label} :
    Octets.fold (wireOf labels) = Octets.fold (wireOf others) ↔ SameLabels labels others := by
  rw [fold_wireOf, fold_wireOf, sameLabels_iff]
  exact ⟨wireOf_injective, congrArg wireOf⟩

theorem same_iff_labels {a b : Name} : a.same b ↔ SameLabels a.labels b.labels := by
  rw [same_iff]
  exact fold_wireOf_eq_iff

theorem sameLabels_refl (labels : List Label) : SameLabels labels labels := sameLabels_iff.mpr rfl

theorem SameLabels.trans {labels others more : List Label} (h : SameLabels labels others)
    (k : SameLabels others more) : SameLabels labels more :=
  sameLabels_iff.mpr ((sameLabels_iff.mp h).trans (sameLabels_iff.mp k))

section Order

theorem compareLex_eq (o p : Octets) : compare.compareLex o p = Ord.compare o p := by
  induction o generalizing p with
  | nil => cases p <;> rfl
  | cons b o ih =>
      cases p with
      | nil => rfl
      | cons c p => rw [compare.compareLex, List.compare_cons_cons, ih]

/-- Names are ordered as the lists of their octets are. -/
theorem compare_eq (a b : Name) : a.compare b = Ord.compare a.foldedWire b.foldedWire :=
  compareLex_eq _ _

instance : Std.TransCmp compare where
  eq_swap := by
    intro a b
    rw [compare_eq, compare_eq]
    exact Std.OrientedCmp.eq_swap
  isLE_trans := by
    intro a b c first second
    rw [compare_eq] at first second ⊢
    exact Std.TransCmp.isLE_trans first second

theorem compare_eq_eq_iff {a b : Name} : a.compare b = .eq ↔ a.same b := by
  rw [compare_eq, Std.LawfulEqOrd.compare_eq_iff_eq, same_iff]

end Order

theorem feed_eq {H : Type} (take : H → UInt8 → H) (start : H) (n : Name) :
    n.feed take start = n.foldedWire.foldl take start := by
  rw [feed, foldedWire, Octets.fold, List.foldl_map]

section Suffix

variable {a b c : Name}

/-- The octets that are compared to those of the base: a name's own, from each label on, and those
of the root. -/
theorem mem_suffixes_root {o : Octets} :
    o ∈ a.suffixes.map (·.2) ++ [root.wire] ↔
      ∃ i ≤ a.labels.length, wireOf (a.labels.drop i) = o := by
  have whole : wireOf (a.labels.drop a.labels.length) = root.wire := by
    rw [List.drop_length]
    rfl
  rw [suffixes, suffixesFrom_eq, List.map_map, List.mem_append, List.mem_singleton, List.mem_map]
  simp only [List.mem_range, Function.comp_apply]
  constructor
  · rintro (⟨i, inside, rfl⟩ | rfl)
    · exact ⟨i, Nat.le_of_lt inside, rfl⟩
    · exact ⟨_, Nat.le_refl _, whole⟩
  · rintro ⟨i, inside, rfl⟩
    rcases Nat.lt_or_eq_of_le inside with before | rfl
    · exact .inl ⟨i, before, rfl⟩
    · exact .inr whole

theorem endsWith_iff_drop :
    a.endsWith b ↔
      ∃ i ≤ a.labels.length, Octets.fold (wireOf (a.labels.drop i)) = b.foldedWire := by
  rw [endsWith, List.any_eq_true]
  simp only [mem_suffixes_root, beq_iff_eq]
  constructor
  · rintro ⟨_, ⟨i, inside, rfl⟩, equal⟩
    exact ⟨i, inside, equal⟩
  · rintro ⟨i, inside, equal⟩
    exact ⟨_, ⟨i, inside, rfl⟩, equal⟩

/-- A name is at or below another whose labels it ends in. -/
theorem endsWith_iff :
    a.endsWith b ↔ ∃ front last, a.labels = front ++ last ∧ SameLabels last b.labels := by
  rw [endsWith_iff_drop]
  constructor
  · rintro ⟨i, -, equal⟩
    exact ⟨_, _, (List.take_append_drop i a.labels).symm, fold_wireOf_eq_iff.mp equal⟩
  · rintro ⟨front, last, split, alike⟩
    refine ⟨front.length, ?_, ?_⟩
    · rw [split, List.length_append]
      exact Nat.le_add_right _ _
    · rw [split, List.drop_left]
      exact fold_wireOf_eq_iff.mpr alike

theorem endsWith_refl (a : Name) : a.endsWith a :=
  endsWith_iff.mpr ⟨[], a.labels, rfl, sameLabels_refl _⟩

theorem endsWith_root (a : Name) : a.endsWith root :=
  endsWith_iff.mpr ⟨a.labels, [], (List.append_nil _).symm, sameLabels_refl []⟩

theorem endsWith_trans (first : a.endsWith b) (second : b.endsWith c) : a.endsWith c := by
  obtain ⟨front, last, split, alike⟩ := endsWith_iff.mp first
  obtain ⟨middle, rest, parts, same⟩ := endsWith_iff.mp second
  rw [parts, sameLabels_iff, List.map_append] at alike
  obtain ⟨here, behind, rfl, -, folded⟩ := List.map_eq_append_iff.mp alike
  refine endsWith_iff.mpr ⟨front ++ here, behind, by rw [split, List.append_assoc], ?_⟩
  exact (sameLabels_iff.mpr folded).trans same

/-- Of two names that end in each other neither has a label more. -/
theorem same_of_endsWith (there : a.endsWith b) (back : b.endsWith a) : a.same b := by
  obtain ⟨front, last, split, alike⟩ := endsWith_iff.mp there
  obtain ⟨more, rest, parts, same⟩ := endsWith_iff.mp back
  have first := congrArg List.length split
  have second := congrArg List.length parts
  rw [List.length_append, alike.1] at first
  rw [List.length_append, same.1] at second
  obtain rfl : front = [] := List.eq_nil_of_length_eq_zero (by omega)
  rw [List.nil_append] at split
  rw [same_iff_labels, split]
  exact alike

/-- No label begins in the middle of another one. -/
theorem begins_outside (front last : List Label) (l : Label) (i : Nat) :
    (labelOctets ((front ++ l :: last).take i)).length ≤ (labelOctets front).length ∨
      (labelOctets front).length + l.wire.length ≤
        (labelOctets ((front ++ l :: last).take i)).length := by
  rcases Nat.lt_or_ge front.length i with beyond | within
  · obtain ⟨j, rfl⟩ := Nat.exists_eq_add_of_lt beyond
    right
    rw [Nat.add_assoc, List.take_length_add_append, List.take_succ_cons, labelOctets_append,
      labelOctets_cons, List.length_append, List.length_append]
    omega
  · left
    have parts := labelOctets_append (front.take i) (front.drop i)
    rw [List.take_append_drop] at parts
    rw [List.take_append_of_le_length within, parts, List.length_append]
    exact Nat.le_add_right _ _

/-- A name does not end in another one that its octets show only from the middle of a label on. -/
theorem not_endsWith_of_middle {front last : List Label} {l : Label} {place : Nat}
    (split : a.labels = front ++ l :: last) (behind : (labelOctets front).length < place)
    (inside : place < (labelOctets front).length + l.wire.length)
    (equal : Octets.fold (a.wire.drop place) = b.foldedWire) : ¬ a.endsWith b := by
  intro ends
  obtain ⟨i, -, found⟩ := endsWith_iff_drop.mp ends
  -- Octets from different places on are not equally many, so the two places are one.
  have lengths := congrArg List.length (equal.trans found.symm)
  have whole : a.wire.length = (labelOctets a.labels).length + 1 := by
    rw [wire, wireOf_eq, List.length_append, List.length_singleton]
  have parts := labelOctets_append (a.labels.take i) (a.labels.drop i)
  rw [List.take_append_drop] at parts
  have rest := congrArg List.length parts
  have outside := begins_outside front last l i
  have room := congrArg (fun labels => (labelOctets labels).length) split
  rw [← drop_wireOf, ← wire, Octets.fold, Octets.fold, List.length_map, List.length_map,
    List.length_drop, List.length_drop] at lengths
  simp only [labelOctets_append, labelOctets_cons, List.length_append] at room rest
  rw [← split] at outside
  omega

end Suffix

/-- Names are equal exactly if they have equally many labels and these are equal one by one but for
the case of letters. The order of names is a total one and yields equality for equal names only, and
equal names feed the same octets to a hasher. A name ends in another exactly if its last labels are
those of the other; so it ends in itself, in the root, in whatever a name ends in that it ends in,
and in each other only equal names end. Octets that are equal from the middle of a label on do not
count. -/
theorem compared_by_labels (a b c : Name) :
    (a.same b ↔ a.labels.length = b.labels.length ∧
      ∀ p ∈ a.labels.zip b.labels, Octets.sameLetters p.1.octets p.2.octets) ∧
    (a.compare b = .eq ↔ a.same b) ∧ a.compare b = (b.compare a).swap ∧
    ((a.compare b).isLE → (b.compare c).isLE → (a.compare c).isLE) ∧
    (a.same b → ∀ {H : Type} (take : H → UInt8 → H) (start : H),
      a.feed take start = b.feed take start) ∧
    (a.endsWith b ↔ ∃ front last, a.labels = front ++ last ∧ SameLabels last b.labels) ∧
    a.endsWith a ∧ a.endsWith root ∧ (a.endsWith b → b.endsWith c → a.endsWith c) ∧
    (a.endsWith b → b.endsWith a → a.same b) ∧
    ∀ front l last place, a.labels = front ++ l :: last → (labelOctets front).length < place →
      place < (labelOctets front).length + l.wire.length →
      Octets.fold (a.wire.drop place) = b.foldedWire → ¬ a.endsWith b := by
  refine ⟨same_iff_labels, compare_eq_eq_iff, Std.OrientedCmp.eq_swap, Std.TransCmp.isLE_trans,
    fun h H take start => ?_, endsWith_iff, endsWith_refl a, endsWith_root a, endsWith_trans,
    same_of_endsWith, fun front l last place => not_endsWith_of_middle⟩
  rw [feed_eq, feed_eq, same_iff.mp h]

/-- The first octet of the label could be the length of a label, but it is not. -/
theorem compared_by_labels_middle :
    let whole : Name := ⟨[⟨[1, 0x61], by decide, by decide⟩], by decide⟩
    whole.wire.drop 1 = (ofOctet 0x61).wire ∧ ¬ whole.endsWith (ofOctet 0x61) := by
  intro whole
  obtain ⟨-, -, -, -, -, -, -, -, -, -, middle⟩ := compared_by_labels whole (ofOctet 0x61) root
  exact ⟨rfl, middle [] ⟨[1, 0x61], by decide, by decide⟩ [] 1 rfl (by decide) (by decide) rfl⟩

end Name
end ZoneSync
