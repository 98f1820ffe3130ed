import ZoneSync.Name.Basic

/-!
Equality of names up to letter case. Folding the case of the octets of a name is folding it in
each label, since the length octets are no letters; so whatever is decided on folded octets
depends on the folded name only.
-/

namespace ZoneSync

theorem Octets.fold_append (o p : Octets) : fold (o ++ p) = fold o ++ fold p :=
  List.map_append

theorem Octets.lower_of_lt {b : UInt8} (h : b.toNat < 65) : lower b = b := by
  have below : ¬ (65 ≤ b ∧ b ≤ 90) := by
    rintro ⟨low, -⟩
    have := UInt8.le_iff_toNat_le.mp low
    simp at this
    omega
  simp only [lower, below, if_false]

theorem Label.fold_wire (l : Label) : Octets.fold l.wire = l.folded.wire := by
  have small : (UInt8.ofNat l.octets.length).toNat < 65 := by
    have := l.length_le
    simp only [UInt8.toNat_ofNat']
    omega
  simp [Label.wire, Label.folded, Octets.fold, Octets.lower_of_lt small]

namespace Name

theorem fold_wireOf (labels : List Label) :
    Octets.fold (wireOf labels) = wireOf (labels.map Label.folded) := by
  induction labels with
  | nil => rfl
  | cons l rest ih =>
      simp only [wireOf, List.flatMap_cons, List.map_cons, List.append_assoc, Octets.fold_append,
        Label.fold_wire] at ih ⊢
      rw [ih]

theorem same_iff {a b : Name} : a.same b ↔ a.foldedWire = b.foldedWire := by
  simp [same]

@[simp] theorem same_refl (n : Name) : n.same n := same_iff.mpr rfl

theorem same_symm {a b : Name} (h : a.same b) : b.same a := same_iff.mpr (same_iff.mp h).symm

theorem same_trans {a b c : Name} (h : a.same b) (k : b.same c) : a.same c :=
  same_iff.mpr ((same_iff.mp h).trans (same_iff.mp k))

theorem length_eq_of_same {a b : Name} (h : a.same b) : a.length = b.length := by
  simpa [length, foldedWire, Octets.fold] using congrArg List.length (same_iff.mp h)

theorem same_congr_left {a b : Name} (h : a.same b) (c : Name) : a.same c = b.same c := by
  simp only [same, same_iff.mp h]

theorem same_congr_right {a b : Name} (h : a.same b) (c : Name) : c.same a = c.same b := by
  simp only [same, same_iff.mp h]

theorem endsWith_congr_right {a b : Name} (h : a.same b) (n : Name) :
    n.endsWith a = n.endsWith b := by
  simp only [endsWith, same_iff.mp h]

theorem fold_suffixesFrom (offset : Nat) (labels : List Label) :
    (suffixesFrom offset labels).map (fun s => Octets.fold s.2) =
      (suffixesFrom offset (labels.map Label.folded)).map (·.2) := by
  induction labels generalizing offset with
  | nil => rfl
  | cons l rest ih =>
      simp only [suffixesFrom, List.map_cons, ih, Label.length_wire_folded, fold_wireOf]

theorem endsWith_eq (n base : Name) :
    n.endsWith base =
      ((n.folded.suffixes.map (·.2) ++ [Octets.fold root.wire]).any (· == base.foldedWire)) := by
  have folded := fold_suffixesFrom 0 n.labels
  simp only [endsWith, suffixes]
  rw [show n.folded.labels = n.labels.map Label.folded from rfl, ← folded]
  simp [List.any_map, Function.comp_def]

theorem endsWith_congr_left {a b : Name} (h : a.folded = b.folded) (base : Name) :
    a.endsWith base = b.endsWith base := by
  rw [endsWith_eq, endsWith_eq, h]

/-- The name of one label of one octet. -/
def ofOctet (b : UInt8) : Name where
  labels := [⟨[b], List.cons_ne_nil b [], by simp⟩]
  length_le := by simp [wireOf, Label.wire]

end Name
end ZoneSync
