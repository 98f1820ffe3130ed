import Mathlib.Algebra.Ring.Nat
import ZoneSync.Serial

/-!
Serials by the number of steps from one to another on their circle.
-/

namespace ZoneSync.Serial

/-- The number of steps forward from one serial to another. -/
def distance (a b : Serial) : Nat := (b.value - a.value).toNat

theorem distance_eq (a b : Serial) :
    distance a b = (2 ^ 32 - a.value.toNat + b.value.toNat) % 2 ^ 32 := by
  rw [distance, UInt32.toNat_sub]

@[simp] theorem distance_self (a : Serial) : distance a a = 0 := by simp [distance]

theorem ext_toNat {a b : Serial} (h : a.value.toNat = b.value.toNat) : a = b := by
  cases a
  cases b
  simpa using UInt32.toNat_inj.mp h

theorem distance_eq_zero {a b : Serial} : distance a b = 0 ↔ a = b := by
  constructor
  · intro h
    rw [distance_eq] at h
    have first := a.value.toNat_lt
    have second := b.value.toNat_lt
    exact ext_toNat (by omega)
  · rintro rfl
    exact distance_self a

theorem distance_add {a b c : Serial} (h : distance a b + distance b c < 2 ^ 32) :
    distance a c = distance a b + distance b c := by
  rw [distance_eq, distance_eq] at h
  rw [distance_eq, distance_eq, distance_eq]
  have first := a.value.toNat_lt
  have second := b.value.toNat_lt
  have third := c.value.toNat_lt
  omega

/-- There and back is once around the circle. -/
theorem distance_add_distance {a b : Serial} (h : a ≠ b) :
    distance a b + distance b a = 2 ^ 32 := by
  have first := a.value.toNat_lt
  have second := b.value.toNat_lt
  have apart : a.value.toNat ≠ b.value.toNat := fun same => h (ext_toNat same)
  rw [distance_eq, distance_eq]
  omega

theorem greater_iff {a b : Serial} :
    a.greater b ↔ 0 < distance b a ∧ distance b a < 2 ^ 31 := by
  have first := a.value.toNat_lt
  have second := b.value.toNat_lt
  simp only [greater, half, Bool.or_eq_true, Bool.and_eq_true, decide_eq_true_eq,
    UInt32.lt_iff_toNat_lt, GT.gt, UInt32.toNat_sub, distance]
  have middle : (0x80000000 : UInt32).toNat = 2 ^ 31 := rfl
  rw [middle]
  omega

theorem less_iff {a b : Serial} : a.less b ↔ 0 < distance a b ∧ distance a b < 2 ^ 31 := by
  have first := a.value.toNat_lt
  have second := b.value.toNat_lt
  simp only [less, half, Bool.or_eq_true, Bool.and_eq_true, decide_eq_true_eq,
    UInt32.lt_iff_toNat_lt, GT.gt, UInt32.toNat_sub, distance]
  have middle : (0x80000000 : UInt32).toNat = 2 ^ 31 := rfl
  rw [middle]
  omega

/-- A serial is older than one that has more than half of the circle to go to it. -/
theorem less_iff_far {a b : Serial} : a.less b ↔ 2 ^ 31 < distance b a := by
  rw [less_iff]
  by_cases same : a = b
  · simp [same]
  · have around := distance_add_distance same
    have apart : distance a b ≠ 0 := mt distance_eq_zero.mp same
    omega

theorem ne_of_greater {a b : Serial} (h : b.greater a) : a ≠ b := by
  rintro rfl
  simp [greater_iff] at h

theorem greaterOrEqual_of_greater {a b : Serial} (h : a.greater b) : a.greaterOrEqual b := by
  simp [greaterOrEqual, h]

theorem lessOrEqual_of_distance {a b : Serial} (h : distance a b < 2 ^ 31) : a.lessOrEqual b := by
  by_cases same : a = b
  · simp [lessOrEqual, same]
  · have pos : 0 < distance a b := Nat.pos_of_ne_zero fun zero => same (distance_eq_zero.mp zero)
    simp [lessOrEqual, less_iff.mpr ⟨pos, h⟩]

end ZoneSync.Serial
