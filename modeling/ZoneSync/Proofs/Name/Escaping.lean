import ZoneSync.Proofs.Name.Presentation

/-!
Names told from their texts. An octet is printed as it stands, or behind a backslash, as itself or
in three digits; what is printed tells where it ends, and it never begins with a dot. So no two
names are printed alike, though only those without escapes are read back from what is printed.
-/

namespace ZoneSync

namespace Name

/-- The three decimal digits of an octet. -/
def digitsOf (b : UInt8) : Octets :=
  [b.toNat / 100, b.toNat / 10, b.toNat].map fun d => UInt8.ofNat (0x30 + d % 10)

/-- The ways an octet can be printed. -/
inductive Printing (b : UInt8) : Octets → Prop
  | plain (h : PlainOctet b) : Printing b [b]
  | marked (h : b = 0x2e ∨ b = 0x5c) : Printing b [0x5c, b]
  | numbered : Printing b (0x5c :: digitsOf b)

theorem printed_of_numbered {b : UInt8} (h : octetText b = "\\" ++ Decimal.padded3 b.toNat) :
    printed b = 0x5c :: digitsOf b := by
  have digit (d : Nat) : UInt8.ofNat (d % 10).digitChar.toNat = UInt8.ofNat (0x30 + d % 10) := by
    rw [Nat.toNat_digitChar_of_lt_ten (Nat.mod_lt d (by decide)), Nat.add_comm]
  rw [printed_eq, h]
  simp [Decimal.padded3, digitsOf, digit]

theorem printing (b : UInt8) : Printing b (printed b) := by
  by_cases marked : b = 0x2e ∨ b = 0x5c
  · have shown : printed b = [0x5c, b] := by rcases marked with rfl | rfl <;> decide
    rw [shown]
    exact .marked marked
  · by_cases visible : 0x21 ≤ b ∧ b ≤ 0x7e
    · have plain : PlainOctet b :=
        ⟨visible.1, visible.2, (not_or.mp marked).1, (not_or.mp marked).2⟩
      rw [printed_of_plain plain]
      exact .plain plain
    · rw [printed_of_numbered (by rw [octetText, if_neg marked, if_neg visible])]
      exact .numbered

theorem toNat_digit (d : Nat) : (UInt8.ofNat (0x30 + d % 10)).toNat = 0x30 + d % 10 := by
  rw [UInt8.toNat_ofNat']
  omega

theorem eq_of_digits {n m : Nat} (hn : n < 1000) (hm : m < 1000)
    (hundreds : n / 100 % 10 = m / 100 % 10) (tens : n / 10 % 10 = m / 10 % 10)
    (ones : n % 10 = m % 10) : n = m := by
  have first : n = 100 * (n / 100 % 10) + 10 * (n / 10 % 10) + n % 10 := by omega
  have second : m = 100 * (m / 100 % 10) + 10 * (m / 10 % 10) + m % 10 := by omega
  rw [first, second, hundreds, tens, ones]

theorem digitsOf_injective {b c : UInt8} (h : digitsOf b = digitsOf c) : b = c := by
  have each := congrArg (List.map UInt8.toNat) h
  simp only [digitsOf, List.map_cons, List.map_nil, toNat_digit, List.cons.injEq,
    Nat.add_left_cancel_iff, and_true] at each
  obtain ⟨hundreds, tens, ones⟩ := each
  have first := b.toNat_lt
  have second := c.toNat_lt
  exact UInt8.toNat_inj.mp (eq_of_digits (by omega) (by omega) hundreds tens ones)

/-- The first digit is neither of the two octets that stand behind a backslash as themselves. -/
theorem digitsOf_ne_marked {b c : UInt8} (marked : c = 0x2e ∨ c = 0x5c) {o p : Octets} :
    digitsOf b ++ o ≠ c :: p := by
  intro h
  have first := congrArg UInt8.toNat (List.cons.inj h).1
  rw [toNat_digit] at first
  rcases marked with rfl | rfl <;> simp at first <;> omega

/-- What an octet is printed as tells where it ends. -/
theorem Printing.append_inj {b c : UInt8} {shown other o p : Octets} (hb : Printing b shown)
    (hc : Printing c other) (h : shown ++ o = other ++ p) : b = c ∧ o = p := by
  cases hb with
  | plain first =>
      cases hc with
      | plain => exact List.cons.inj h
      | marked | numbered => exact absurd (List.cons.inj h).1 first.2.2.2
  | marked first =>
      cases hc with
      | plain second => exact absurd (List.cons.inj h).1.symm second.2.2.2
      | marked => exact List.cons.inj (List.cons.inj h).2
      | numbered => exact absurd (List.cons.inj h).2.symm (digitsOf_ne_marked first)
  | numbered =>
      cases hc with
      | plain second => exact absurd (List.cons.inj h).1.symm second.2.2.2
      | marked second => exact absurd (List.cons.inj h).2 (digitsOf_ne_marked second)
      | numbered =>
          obtain ⟨same, rest⟩ := List.append_inj (List.cons.inj h).2 rfl
          exact ⟨digitsOf_injective same, rest⟩

theorem Printing.ne_dot {b : UInt8} {shown o p : Octets} (hb : Printing b shown) :
    shown ++ o ≠ 0x2e :: p := by
  intro h
  cases hb with
  | plain first => exact first.2.2.1 (List.cons.inj h).1
  | marked | numbered => exact absurd (List.cons.inj h).1 (by decide)

/-- The octets of a label are told from what is printed up to the dot behind it. -/
theorem flatMap_printed_inj {o p rest more : Octets}
    (h : o.flatMap printed ++ 0x2e :: rest = p.flatMap printed ++ 0x2e :: more) :
    o = p ∧ rest = more := by
  induction o generalizing p with
  | nil =>
      cases p with
      | nil => exact ⟨rfl, (List.cons.inj h).2⟩
      | cons c p =>
          rw [List.flatMap_cons, List.append_assoc] at h
          exact absurd h.symm (printing c).ne_dot
  | cons b o ih =>
      rw [List.flatMap_cons, List.append_assoc] at h
      cases p with
      | nil => exact absurd h (printing b).ne_dot
      | cons c p =>
          rw [List.flatMap_cons, List.append_assoc] at h
          obtain ⟨rfl, later⟩ := (printing b).append_inj (printing c) h
          obtain ⟨rfl, same⟩ := ih later
          exact ⟨rfl, same⟩

theorem labels_of_printed {labels others : List Label}
    (h : (labels.flatMap fun l => l.octets.flatMap printed ++ [0x2e]) =
      others.flatMap fun l => l.octets.flatMap printed ++ [0x2e]) : labels = others := by
  induction labels generalizing others with
  | nil =>
      cases others with
      | nil => rfl
      | cons k others => simp at h
  | cons l labels ih =>
      cases others with
      | nil => simp at h
      | cons k others =>
          rw [List.flatMap_cons, List.flatMap_cons, List.append_assoc, List.append_assoc] at h
          obtain ⟨octets, later⟩ := flatMap_printed_inj h
          have same : l = k := Label.wire_injective (by rw [Label.wire, Label.wire, octets])
          rw [same, ih later]

theorem text_injective {a b : Name} (h : a.text = b.text) : a = b := by
  have octets := congrArg Octets.ofText h
  by_cases first : a.isRoot
  · by_cases second : b.isRoot
    · exact ext_labels ((List.isEmpty_iff.mp first).trans (List.isEmpty_iff.mp second).symm)
    · have long := two_le_length_text second
      rw [← h, text_root first] at long
      exact absurd long (by decide)
  · by_cases second : b.isRoot
    · have long := two_le_length_text first
      rw [h, text_root second] at long
      exact absurd long (by decide)
    · rw [ofText_text first, ofText_text second] at octets
      exact ext_labels (labels_of_printed octets)

/-- No two names have one text. A name is read back from its text exactly if its octets are visible
ASCII characters, and none of them a dot or a backslash. -/
theorem text_identifies :
    (∀ a b : Name, a.text = b.text → a.wire = b.wire) ∧
    ∀ n : Name, (∃ m, ofText n.text = .ok m ∧ m.wire = n.wire) ↔
      ∀ l ∈ n.labels, ∀ b ∈ l.octets, 0x21 ≤ b ∧ b ≤ 0x7e ∧ b ≠ 0x2e ∧ b ≠ 0x5c := by
  constructor
  · intro a b h
    rw [text_injective h]
  · intro n
    change _ ↔ n.IsPlain
    rw [← ofText_text_eq_iff]
    constructor
    · rintro ⟨m, read, same⟩
      rwa [ext_labels (wireOf_injective same)] at read
    · intro read
      exact ⟨n, read, rfl⟩

end Name
end ZoneSync
