import Mathlib.Algebra.Ring.Nat
import ZoneSync.Octets
import ZoneSync.Text.Blank
import ZoneSync.Text.Decimal

/-!
Texts that are read back as what was printed. ASCII characters are octets of their own, numbers
are told from their digits, and words without blanks from the blanks between them.
-/

namespace ZoneSync

/-- A visible ASCII character. -/
def IsGraphic (c : Char) : Prop := 0x21 ≤ c.toNat ∧ c.toNat ≤ 0x7e

instance : DecidablePred IsGraphic := fun c =>
  inferInstanceAs (Decidable (0x21 ≤ c.toNat ∧ c.toNat ≤ 0x7e))

namespace Octets

theorem ofText_eq_flatMap (s : String) : ofText s = s.toList.flatMap String.utf8EncodeChar := by
  obtain ⟨cs, rfl⟩ := s.exists_eq_ofList
  simp [ofText, List.utf8Encode]

theorem ofText_append (s t : String) : ofText (s ++ t) = ofText s ++ ofText t := by
  simp [ofText_eq_flatMap]

theorem ofText_join (ss : List String) : ofText (String.join ss) = ss.flatMap ofText := by
  rw [ofText_eq_flatMap, String.toList_join, List.flatMap_assoc]
  simp only [← ofText_eq_flatMap]

/-- The octet of an ASCII character is its code. -/
theorem utf8EncodeChar_ascii {c : Char} (ascii : c.toNat < 0x80) :
    String.utf8EncodeChar c = [UInt8.ofNat c.toNat] := by
  rw [String.utf8EncodeChar]
  exact if_pos (Nat.le_of_lt_succ ascii)

/-- The octets of an ASCII text are the codes of its characters. -/
theorem ofText_eq {s : String} (ascii : ∀ c ∈ s.toList, c.toNat < 0x80) :
    ofText s = s.toList.map fun c => UInt8.ofNat c.toNat := by
  rw [ofText_eq_flatMap, List.map_eq_flatMap, List.flatMap_def, List.flatMap_def,
    List.map_congr_left fun c known => utf8EncodeChar_ascii (ascii c known)]

/-- No octet of any other character is an ASCII code. -/
theorem le_of_mem_utf8EncodeChar {c : Char} (wide : 0x80 ≤ c.toNat) :
    ∀ b ∈ String.utf8EncodeChar c, 0x80 ≤ b.toNat := by
  have single : ¬ c.val.toNat ≤ 127 := Nat.not_le_of_lt wide
  rw [String.utf8EncodeChar, if_neg single]
  split
  · simp only [List.forall_mem_cons, UInt8.toNat_ofNat']
    exact ⟨by omega, by omega, by simp⟩
  · split
    · simp only [List.forall_mem_cons, UInt8.toNat_ofNat']
      exact ⟨by omega, by omega, by omega, by simp⟩
    · simp only [List.forall_mem_cons, UInt8.toNat_ofNat']
      exact ⟨by omega, by omega, by omega, by omega, by simp⟩

theorem char_of_ascii {c : Char} {b : UInt8} (known : b ∈ String.utf8EncodeChar c)
    (ascii : b.toNat < 0x80) : c = Char.ofNat b.toNat := by
  have narrow : c.toNat < 0x80 := by
    by_contra wide
    have high := le_of_mem_utf8EncodeChar (Nat.le_of_not_lt wide) b known
    omega
  rw [utf8EncodeChar_ascii narrow, List.mem_singleton] at known
  rw [known, UInt8.toNat_ofNat', Nat.mod_eq_of_lt (by omega), Char.ofNat_toNat]

theorem char_mem_of_ascii {s : String} {b : UInt8} (known : b ∈ ofText s)
    (ascii : b.toNat < 0x80) : Char.ofNat b.toNat ∈ s.toList := by
  rw [ofText_eq_flatMap] at known
  obtain ⟨c, inside, octet⟩ := List.mem_flatMap.mp known
  rwa [← char_of_ascii octet ascii]

theorem getLast?_of_ascii {s : String} {b : UInt8} (last : (ofText s).getLast? = some b)
    (ascii : b.toNat < 0x80) : s.toList.getLast? = some (Char.ofNat b.toNat) := by
  rw [ofText_eq_flatMap] at last
  rcases List.eq_nil_or_concat s.toList with empty | ⟨front, c, split⟩
  · simp [empty] at last
  · have some_octet : String.utf8EncodeChar c ≠ [] := by
      rw [ne_eq, ← List.length_eq_zero_iff, String.length_utf8EncodeChar]
      exact Nat.ne_of_gt c.utf8Size_pos
    rw [split, List.concat_eq_append, List.flatMap_append, List.flatMap_singleton,
      List.getLast?_append, List.getLast?_eq_some_getLast some_octet, Option.some_or] at last
    have octet : b ∈ String.utf8EncodeChar c :=
      Option.some.inj last ▸ List.getLast_mem some_octet
    rw [split, List.concat_eq_append, List.getLast?_concat, char_of_ascii octet ascii]

theorem toText?_ofText (s : String) : toText? (ofText s) = some s := by
  have octets : (⟨(ofText s).toArray⟩ : ByteArray) = s.toByteArray := rfl
  rw [toText?, octets, String.fromUTF8?, dif_pos s.isValidUTF8]
  rfl

theorem ofText_of_toText? {o : Octets} {s : String} (h : toText? o = some s) : ofText s = o := by
  rw [toText?, String.fromUTF8?] at h
  split at h
  · obtain rfl := Option.some.inj h
    rfl
  · cases h

end Octets

namespace Decimal

theorem readDigits_eq {bound value : Nat} {cs : List Char} (digits : ∀ c ∈ cs, c.isDigit)
    (below : Nat.ofDigitChars 10 cs value < bound) :
    readDigits bound value cs = .ok (Nat.ofDigitChars 10 cs value) := by
  induction cs generalizing value with
  | nil => simp [readDigits]
  | cons c rest ih =>
      obtain ⟨first, later⟩ := List.forall_mem_cons.mp digits
      have digit : digit? c = some (c.toNat - '0'.toNat) := if_pos first
      rw [Nat.ofDigitChars_cons, Nat.mul_comm] at below ⊢
      have small : value * 10 + (c.toNat - '0'.toNat) < bound := by
        rw [Nat.ofDigitChars_eq_ofDigitChars_zero] at below
        have grows := Nat.le_mul_of_pos_left (value * 10 + (c.toNat - '0'.toNat))
          (Nat.pow_pos (n := rest.length) (by omega : 0 < 10))
        omega
      rw [readDigits, digit]
      simp only [small, if_true]
      exact ih later below

/-- What is read of digits is their number, if anything is. -/
theorem eq_of_readDigits {bound value n : Nat} {cs : List Char}
    (h : readDigits bound value cs = .ok n) : n = Nat.ofDigitChars 10 cs value := by
  induction cs generalizing value with
  | nil => exact (Except.ok.inj h).symm
  | cons c rest ih =>
      rw [readDigits, digit?] at h
      rw [Nat.ofDigitChars_cons, Nat.mul_comm]
      by_cases digit : c.isDigit
      · simp only [digit, if_true] at h
        split at h
        · exact ih h
        · cases h
      · simp [digit] at h

/-- The digits of a number have no sign in front. -/
theorem read_digits (bound n : Nat) :
    read bound (toString n) = readDigits bound 0 (Nat.toDigits 10 n) := by
  have digits : ∀ c ∈ Nat.toDigits 10 n, c.isDigit := fun c known =>
    Nat.isDigit_of_mem_toDigits (by omega) (by omega) known
  obtain ⟨c, rest, shape⟩ := List.exists_cons_of_ne_nil (Nat.toDigits_ne_nil (n := n) (b := 10))
  have unsigned : c ≠ '+' := by
    rintro rfl
    rw [shape] at digits
    exact absurd (digits '+' List.mem_cons_self) (by decide)
  rw [read, Nat.toString_eq_repr, Nat.toList_repr, shape]
  split
  · contradiction
  · simp_all
  · simp_all
  · rfl

/-- A number below the bound is read back from its digits. -/
theorem read_toString {bound n : Nat} (below : n < bound) : read bound (toString n) = .ok n := by
  have digits : ∀ c ∈ Nat.toDigits 10 n, c.isDigit := fun c known =>
    Nat.isDigit_of_mem_toDigits (by omega) (by omega) known
  have value : Nat.ofDigitChars 10 (Nat.toDigits 10 n) 0 = n := Nat.ofDigitChars_ten_toDigits
  rw [read_digits, readDigits_eq digits (value.symm ▸ below), value]

/-- No other number is read from the digits of one. -/
theorem eq_of_read_toString {bound n m : Nat} (h : read bound (toString n) = .ok m) : m = n := by
  rw [read_digits] at h
  exact (eq_of_readDigits h).trans Nat.ofDigitChars_ten_toDigits

theorem isGraphic_of_isDigit {c : Char} (h : c.isDigit) : IsGraphic c := by
  rw [Char.isDigit_iff_toNat] at h
  exact ⟨Nat.le_trans (by decide) h.1, Nat.le_trans h.2 (by decide)⟩

theorem isGraphic_of_mem_toString {n : Nat} {c : Char} (h : c ∈ (toString n).toList) :
    IsGraphic c := by
  rw [Nat.toString_eq_repr, Nat.toList_repr] at h
  exact isGraphic_of_isDigit (Nat.isDigit_of_mem_toDigits (by omega) (by omega) h)

theorem length_toString_le {n k : Nat} (pos : 0 < k) (below : n < 10 ^ k) :
    (Octets.ofText (toString n)).length ≤ k := by
  have ascii c (known : c ∈ (toString n).toList) : c.toNat < 0x80 :=
    Nat.lt_of_le_of_lt (isGraphic_of_mem_toString known).2 (by decide)
  rw [Octets.ofText_eq ascii, List.length_map, Nat.toString_eq_repr, Nat.toList_repr]
  exact (Nat.length_toDigits_le_iff (by omega) pos).mpr below

end Decimal

namespace Blank

theorem isBlank_of_isGraphic {c : Char} (h : IsGraphic c) : isBlank c = false := by
  obtain ⟨low, high⟩ := h
  simp only [isBlank, ranges, List.any_cons, List.any_nil, Bool.or_false, Bool.or_eq_false_iff,
    Bool.and_eq_false_iff, decide_eq_false_iff_not]
  omega

/-- A word goes on to the next blank. -/
theorem wordsFrom_append {word cs : List Char} (h : ∀ c ∈ cs, isBlank c = false)
    (rest : List Char) : wordsFrom word (cs ++ rest) = wordsFrom (word ++ cs) rest := by
  induction cs generalizing word with
  | nil => simp
  | cons c cs ih =>
      obtain ⟨first, later⟩ := List.forall_mem_cons.mp h
      simp [wordsFrom, first, ih later]

/-- Words with blanks between them are told from each other. -/
theorem wordsFrom_intercalate {ws : List (List Char)}
    (h : ∀ w ∈ ws, w ≠ [] ∧ ∀ c ∈ w, IsGraphic c) : wordsFrom [] ([' '].intercalate ws) = ws := by
  induction ws with
  | nil => rfl
  | cons w later ih =>
      obtain ⟨⟨some_char, graphic⟩, others⟩ := List.forall_mem_cons.mp h
      have unblank c (known : c ∈ w) := isBlank_of_isGraphic (graphic c known)
      cases later with
      | nil =>
          have alone : wordsFrom [] (w ++ []) = wordsFrom ([] ++ w) [] :=
            wordsFrom_append unblank []
          rw [List.append_nil, List.nil_append] at alone
          simp [alone, wordsFrom, some_char]
      | cons v later =>
          have spaced : [' '].intercalate (w :: v :: later) =
              w ++ ' ' :: [' '].intercalate (v :: later) := by simp
          have blank : isBlank ' ' := by decide
          rw [spaced, wordsFrom_append unblank, List.nil_append]
          simp [wordsFrom, blank, some_char, ih others]

theorem mem_intercalate {ws : List String} {c : Char} (h : c ∈ (" ".intercalate ws).toList) :
    c = ' ' ∨ ∃ w ∈ ws, c ∈ w.toList := by
  induction ws with
  | nil => simp at h
  | cons w later ih =>
      cases later with
      | nil => exact .inr ⟨w, List.mem_cons_self, by rwa [String.intercalate_singleton] at h⟩
      | cons v later =>
          have blank : " ".toList = [' '] := by decide
          rw [String.intercalate_cons_cons, String.toList_append, String.toList_append, blank,
            List.append_assoc, List.mem_append, List.singleton_append, List.mem_cons] at h
          rcases h with first | rfl | others
          · exact .inr ⟨w, List.mem_cons_self, first⟩
          · exact .inl rfl
          · exact (ih others).imp_right fun ⟨x, word, inside⟩ =>
              ⟨x, List.mem_cons_of_mem w word, inside⟩

theorem words_intercalate {ws : List String}
    (h : ∀ w ∈ ws, w ≠ "" ∧ ∀ c ∈ w.toList, IsGraphic c) : words (" ".intercalate ws) = ws := by
  have told : wordsFrom [] ([' '].intercalate (ws.map String.toList)) = ws.map String.toList := by
    apply wordsFrom_intercalate
    simpa using h
  rw [words, String.toList_intercalate]
  change (wordsFrom [] ([' '].intercalate (ws.map String.toList))).map String.ofList = ws
  rw [told, List.map_map]
  simp [Function.comp_def]

end Blank
end ZoneSync
