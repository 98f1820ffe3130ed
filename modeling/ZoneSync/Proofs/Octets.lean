import Mathlib.Algebra.Ring.Nat
import Mathlib.Data.List.Induction
import ZoneSync.Octets

/-!
Numbers that are read back from their octets.
-/

namespace ZoneSync.Octets

theorem toNat_append_singleton (o : Octets) (b : UInt8) :
    toNat (o ++ [b]) = toNat o * 256 + b.toNat := by
  simp [toNat]

theorem toNat_ofNat (width n : Nat) : toNat (ofNat width n) = n % 256 ^ width := by
  induction width generalizing n with
  | zero => simp [ofNat, toNat, Nat.mod_one]
  | succ width ih =>
    have low : (UInt8.ofNat n).toNat = n % 256 := by simp
    rw [ofNat, toNat_append_singleton, ih, low, Nat.pow_succ, Nat.mul_comm (256 ^ width),
      Nat.mod_mul]
    omega

theorem toUInt16_ofUInt16 (w : UInt16) : toUInt16 (ofUInt16 w) = w := by
  have wide : w.toNat < 256 ^ 2 := w.toNat_lt
  rw [toUInt16, ofUInt16, toNat_ofNat, Nat.mod_eq_of_lt wide]
  exact UInt16.ofNat_toNat

theorem toUInt32_ofUInt32 (w : UInt32) : toUInt32 (ofUInt32 w) = w := by
  have wide : w.toNat < 256 ^ 4 := w.toNat_lt
  rw [toUInt32, ofUInt32, toNat_ofNat, Nat.mod_eq_of_lt wide]
  exact UInt32.ofNat_toNat

theorem ofNat_toNat (o : Octets) : ofNat o.length (toNat o) = o := by
  induction o using List.reverseRecOn with
  | nil => rfl
  | append_singleton o b ih =>
      have high : (toNat o * 256 + b.toNat) / 256 = toNat o := by
        have := b.toNat_lt
        omega
      have low : UInt8.ofNat (toNat o * 256 + b.toNat) = b := by
        apply UInt8.toNat_inj.mp
        rw [UInt8.toNat_ofNat']
        have := b.toNat_lt
        omega
      rw [List.length_append, List.length_singleton, toNat_append_singleton, ofNat, high, low, ih]

theorem toNat_lt (o : Octets) : toNat o < 256 ^ o.length := by
  have spelled := toNat_ofNat o.length (toNat o)
  rw [ofNat_toNat] at spelled
  rw [spelled]
  exact Nat.mod_lt _ (Nat.pow_pos (by omega))

theorem ofUInt16_toUInt16 {o : Octets} (h : o.length = 2) : ofUInt16 (toUInt16 o) = o := by
  have wide := toNat_lt o
  rw [h] at wide
  have value : (UInt16.ofNat o.toNat).toNat = o.toNat := UInt16.toNat_ofNat_of_lt wide
  rw [ofUInt16, toUInt16, value, ← h, ofNat_toNat]

theorem ofUInt32_toUInt32 {o : Octets} (h : o.length = 4) : ofUInt32 (toUInt32 o) = o := by
  have wide := toNat_lt o
  rw [h] at wide
  have value : (UInt32.ofNat o.toNat).toNat = o.toNat := UInt32.toNat_ofNat_of_lt wide
  rw [ofUInt32, toUInt32, value, ← h, ofNat_toNat]

end ZoneSync.Octets
