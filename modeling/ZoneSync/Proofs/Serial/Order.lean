import Mathlib.Algebra.Ring.Int.Defs
import ZoneSync.Proofs.Serial

/-!
The order of serials. It is told by the number of steps from one serial to another alone, so it
stays when both move on by the same number of steps. Steps that stay within half of the circle
together lead to a newer serial.
-/

namespace ZoneSync.Serial

/-- Two serials are on opposite sides of the circle. -/
def Opposite (a b : Serial) : Prop :=
  a.value.toNat + 2 ^ 31 = b.value.toNat ∨ b.value.toNat + 2 ^ 31 = a.value.toNat

instance (a b : Serial) : Decidable (Opposite a b) :=
  inferInstanceAs (Decidable (_ ∨ _))

section Order

variable {a b : Serial}

theorem distance_eq_emod (a b : Serial) :
    (distance b a : Int) = ((a.value.toNat : Int) - b.value.toNat) % 2 ^ 32 := by
  have first := a.value.toNat_lt
  have second := b.value.toNat_lt
  rw [distance_eq]
  omega

theorem opposite_iff : Opposite a b ↔ distance a b = 2 ^ 31 := by
  have first := a.value.toNat_lt
  have second := b.value.toNat_lt
  rw [Opposite, distance_eq]
  omega

theorem greater_iff_emod : a.greater b ↔
    1 ≤ ((a.value.toNat : Int) - b.value.toNat) % 2 ^ 32 ∧
      ((a.value.toNat : Int) - b.value.toNat) % 2 ^ 32 ≤ 2 ^ 31 - 1 := by
  rw [← distance_eq_emod, greater_iff]
  omega

theorem less_iff_greater : a.less b ↔ b.greater a := less_iff.trans greater_iff.symm

/-- Of being equal, older and newer there is one, but for serials on opposite sides. -/
theorem verdict (a b : Serial) :
    (a = b ∧ ¬ a.less b ∧ ¬ a.greater b ∧ ¬ Opposite a b) ∨
    (a ≠ b ∧ a.less b ∧ ¬ a.greater b ∧ ¬ Opposite a b) ∨
    (a ≠ b ∧ ¬ a.less b ∧ a.greater b ∧ ¬ Opposite a b) ∨
    (a ≠ b ∧ ¬ a.less b ∧ ¬ a.greater b ∧ Opposite a b) := by
  by_cases same : a = b
  · refine .inl ⟨same, ?_⟩
    simp [less_iff, greater_iff, opposite_iff, same]
  · have around := distance_add_distance same
    have there : distance a b ≠ 0 := mt distance_eq_zero.mp same
    have back : distance b a ≠ 0 := mt distance_eq_zero.mp (Ne.symm same)
    refine .inr ?_
    rw [less_iff, greater_iff, opposite_iff]
    rcases Nat.lt_trichotomy (distance a b) (2 ^ 31) with near | half | far
    · exact .inl ⟨same, by omega, by omega, by omega⟩
    · exact .inr (.inr ⟨same, by omega, by omega, half⟩)
    · exact .inr (.inl ⟨same, by omega, by omega, by omega⟩)

/-- The order that is yielded, if any, is the one that holds. -/
theorem compare?_iff (a b : Serial) :
    (a.compare? b = some .eq ↔ a = b) ∧ (a.compare? b = some .lt ↔ a.less b) ∧
      (a.compare? b = some .gt ↔ a.greater b) ∧ (a.compare? b = none ↔ Opposite a b) := by
  rw [compare?]
  rcases verdict a b with ⟨same, h⟩ | ⟨apart, h⟩ | ⟨apart, h⟩ | ⟨apart, h⟩
  · rw [if_pos same]
    simpa [h] using same
  · simp [h, apart]
  · simp [h, apart]
  · simp [h, apart]

theorem greaterOrEqual_iff : a.greaterOrEqual b ↔ a = b ∨ a.greater b := by
  simp [greaterOrEqual]

theorem lessOrEqual_iff : a.lessOrEqual b ↔ a = b ∨ a.less b := by
  simp [lessOrEqual]

end Order

section Adding

variable {a b : Serial} {n : UInt32}

/-- Whatever is decided on two serials is decided on the distances between them. -/
theorem order_congr {c d : Serial} (there : distance a b = distance c d)
    (back : distance b a = distance d c) :
    (a = b ↔ c = d) ∧ a.greater b = c.greater d ∧ a.less b = c.less d ∧
      a.greaterOrEqual b = c.greaterOrEqual d ∧ a.lessOrEqual b = c.lessOrEqual d ∧
      a.compare? b = c.compare? d := by
  have same : a = b ↔ c = d := by rw [← distance_eq_zero, there, distance_eq_zero]
  have newer : a.greater b = c.greater d := by
    rw [Bool.eq_iff_iff, greater_iff, greater_iff, back]
  have older : a.less b = c.less d := by
    rw [Bool.eq_iff_iff, less_iff, less_iff, there]
  refine ⟨same, newer, older, ?_, ?_, ?_⟩
  · rw [Bool.eq_iff_iff, greaterOrEqual_iff, greaterOrEqual_iff, same, newer]
  · rw [Bool.eq_iff_iff, lessOrEqual_iff, lessOrEqual_iff, same, older]
  · simp only [compare?, same, newer, older]

theorem add?_eq_some (short : n.toNat < 2 ^ 31) : a.add? n = some ⟨a.value + n⟩ :=
  if_pos (UInt32.lt_iff_toNat_lt.mpr short)

theorem distance_add_value (a : Serial) (n : UInt32) : distance a ⟨a.value + n⟩ = n.toNat := by
  have place := a.value.toNat_lt
  have steps := n.toNat_lt
  rw [distance_eq, UInt32.toNat_add]
  omega

theorem distance_shift (a b : Serial) (n : UInt32) :
    distance ⟨a.value + n⟩ ⟨b.value + n⟩ = distance a b := by
  have first := a.value.toNat_lt
  have second := b.value.toNat_lt
  rw [distance_eq, distance_eq, UInt32.toNat_add, UInt32.toNat_add]
  omega

/-- Steps that stay within one turn lead as far ahead as they are long together. -/
theorem exists_steps {steps : List UInt32} (each : ∀ n ∈ steps, n.toNat < 2 ^ 31)
    (turn : (steps.map UInt32.toNat).sum < 2 ^ 32) (a : Serial) :
    ∃ b, steps.foldlM add? a = some b ∧ distance a b = (steps.map UInt32.toNat).sum := by
  induction steps generalizing a with
  | nil => exact ⟨a, rfl, distance_self a⟩
  | cons n steps ih =>
      obtain ⟨first, later⟩ := List.forall_mem_cons.mp each
      rw [List.map_cons, List.sum_cons] at turn ⊢
      have ahead := distance_add_value a n
      obtain ⟨b, led, far⟩ := ih later (by omega) ⟨a.value + n⟩
      refine ⟨b, by rw [List.foldlM_cons, add?_eq_some first]; exact led, ?_⟩
      rw [distance_add (b := ⟨a.value + n⟩) (by omega), ahead, far]

end Adding

/-- One serial is newer than another exactly if it is 1 to `2 ^ 31 - 1` steps ahead, and older if
the other one is newer. Of being equal, older and newer there is exactly one, unless the two are on
opposite sides of the circle, where there is none; the comparisons that allow for equality and the
one that yields an order say the same. None of this changes if both serials move on by the same
number of steps. A serial is newer than one it was reached from by steps that are more than none
and stay within half of the circle together. -/
theorem order_by_distance :
    (∀ a b : Serial,
      (a.greater b ↔ 1 ≤ ((a.value.toNat : Int) - b.value.toNat) % 2 ^ 32 ∧
        ((a.value.toNat : Int) - b.value.toNat) % 2 ^ 32 ≤ 2 ^ 31 - 1) ∧
      (a.less b ↔ b.greater a) ∧
      ((a = b ∧ ¬ a.less b ∧ ¬ a.greater b ∧ ¬ Opposite a b) ∨
        (a ≠ b ∧ a.less b ∧ ¬ a.greater b ∧ ¬ Opposite a b) ∨
        (a ≠ b ∧ ¬ a.less b ∧ a.greater b ∧ ¬ Opposite a b) ∨
        (a ≠ b ∧ ¬ a.less b ∧ ¬ a.greater b ∧ Opposite a b)) ∧
      (a.compare? b = some .eq ↔ a = b) ∧ (a.compare? b = some .lt ↔ a.less b) ∧
      (a.compare? b = some .gt ↔ a.greater b) ∧ (a.compare? b = none ↔ Opposite a b) ∧
      (a.greaterOrEqual b ↔ a = b ∨ a.greater b) ∧ (a.lessOrEqual b ↔ a = b ∨ a.less b)) ∧
    (∀ (a b : Serial) (n : UInt32), n.toNat < 2 ^ 31 →
      ∃ a' b', a.add? n = some a' ∧ b.add? n = some b' ∧
        (a' = b' ↔ a = b) ∧ a'.greater b' = a.greater b ∧ a'.less b' = a.less b ∧
        a'.greaterOrEqual b' = a.greaterOrEqual b ∧ a'.lessOrEqual b' = a.lessOrEqual b ∧
        a'.compare? b' = a.compare? b) ∧
    (∀ (a : Serial) (n : UInt32), 0 < n.toNat → n.toNat < 2 ^ 31 →
      ∃ b, a.add? n = some b ∧ b.greater a) ∧
    ∀ (a : Serial) (steps : List UInt32), (∀ n ∈ steps, n.toNat < 2 ^ 31) →
      1 ≤ (steps.map UInt32.toNat).sum → (steps.map UInt32.toNat).sum ≤ 2 ^ 31 - 1 →
      ∃ b, steps.foldlM add? a = some b ∧ b.greater a := by
  refine ⟨fun a b => ?_, fun a b n short => ?_, fun a n pos short => ?_,
    fun a steps each pos short => ?_⟩
  · obtain ⟨equal, older, newer, neither⟩ := compare?_iff a b
    exact ⟨greater_iff_emod, less_iff_greater, verdict a b, equal, older, newer, neither,
      greaterOrEqual_iff, lessOrEqual_iff⟩
  · exact ⟨_, _, add?_eq_some short, add?_eq_some short,
      order_congr (distance_shift a b n) (distance_shift b a n)⟩
  · refine ⟨_, add?_eq_some short, greater_iff.mpr ?_⟩
    rw [distance_add_value]
    exact ⟨pos, short⟩
  · obtain ⟨b, led, far⟩ := exists_steps each (by omega) a
    refine ⟨b, led, greater_iff.mpr ?_⟩
    rw [far]
    omega

/-- Two steps that lead past the end of the circle. -/
theorem order_by_distance_around :
    ∃ b, [0x10, 0x20].foldlM add? ⟨0xffffffe8⟩ = some b ∧ b.greater ⟨0xffffffe8⟩ :=
  order_by_distance.2.2.2 ⟨0xffffffe8⟩ [0x10, 0x20] (by simp) (by decide) (by decide)

end ZoneSync.Serial
