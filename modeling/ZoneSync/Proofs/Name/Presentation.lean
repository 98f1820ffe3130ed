import ZoneSync.Name.Text
import ZoneSync.Proofs.Name.Inline
import ZoneSync.Proofs.Text.Printing

/-!
Names as texts. The text of a name is made of visible ASCII characters. A name whose octets are
printed as they stand is read back from its text; one of which an octet is escaped is not, since
what is read is longer than the name.
-/

namespace ZoneSync

namespace Name

/-- An octet that is printed as it stands: a visible ASCII character, but neither the dot between
labels nor the backslash in front of escapes. -/
def PlainOctet (b : UInt8) : Prop := 0x21 ≤ b ∧ b ≤ 0x7e ∧ b ≠ 0x2e ∧ b ≠ 0x5c

instance : DecidablePred PlainOctet := fun b =>
  inferInstanceAs (Decidable (0x21 ≤ b ∧ b ≤ 0x7e ∧ b ≠ 0x2e ∧ b ≠ 0x5c))

def IsPlain (n : Name) : Prop := ∀ l ∈ n.labels, ∀ b ∈ l.octets, PlainOctet b

instance (n : Name) : Decidable n.IsPlain :=
  decidable_of_iff (n.labels.all fun l => l.octets.all fun b => decide (PlainOctet b))
    (by simp [IsPlain])

theorem isPlain_iff {n : Name} :
    n.IsPlain ↔ ∀ b ∈ (n.labels.map Label.octets).flatten, PlainOctet b := by
  constructor
  · intro h b known
    obtain ⟨_, inside, octet⟩ := List.mem_flatten.mp known
    obtain ⟨l, label, rfl⟩ := List.mem_map.mp inside
    exact h l label b octet
  · intro h l label b octet
    exact h b (List.mem_flatten.mpr ⟨l.octets, List.mem_map_of_mem label, octet⟩)

/-- The octets that an octet is printed as. -/
def printed (b : UInt8) : Octets := Octets.ofText (octetText b)

theorem toNat_char (b : UInt8) : (Char.ofNat b.toNat).toNat = b.toNat := by
  have valid : b.toNat.isValidChar := .inl (Nat.lt_trans b.toNat_lt (by decide))
  rw [Char.ofNat, dif_pos valid]
  rfl

theorem isGraphic_char {b : UInt8} (h : 0x21 ≤ b ∧ b ≤ 0x7e) : IsGraphic (Char.ofNat b.toNat) := by
  rw [IsGraphic, toNat_char]
  exact h

theorem octetText_of_plain {b : UInt8} (h : PlainOctet b) :
    octetText b = String.singleton (Char.ofNat b.toNat) := by
  obtain ⟨low, high, no_dot, no_backslash⟩ := h
  rw [octetText, if_neg (by simp [no_dot, no_backslash]), if_pos ⟨low, high⟩]

/-- All other octets are printed as escapes. -/
theorem octetText_of_not_plain {b : UInt8} (h : ¬ PlainOctet b) :
    ∃ c more, (octetText b).toList = '\\' :: c :: more ∧ ∀ d ∈ c :: more, IsGraphic d := by
  rw [octetText]
  split
  · rename_i marked
    refine ⟨Char.ofNat b.toNat, [], by simp, ?_⟩
    rcases marked with rfl | rfl <;> simp [IsGraphic]
  · rename_i unmarked
    rw [not_or] at unmarked
    rw [if_neg fun visible => h ⟨visible.1, visible.2, unmarked.1, unmarked.2⟩]
    refine ⟨(b.toNat / 100 % 10).digitChar, [b.toNat / 10 % 10, b.toNat % 10].map Nat.digitChar,
      by simp [Decimal.padded3], ?_⟩
    have digit d : IsGraphic (d % 10).digitChar := Decimal.isGraphic_of_isDigit (by
      rw [Nat.isDigit_digitChar, decide_eq_true_eq]
      omega)
    simp [digit]

theorem isGraphic_of_mem_octetText {b : UInt8} {c : Char} (h : c ∈ (octetText b).toList) :
    IsGraphic c := by
  by_cases plain : PlainOctet b
  · rw [octetText_of_plain plain, String.toList_singleton, List.mem_singleton] at h
    rw [h]
    exact isGraphic_char ⟨plain.1, plain.2.1⟩
  · obtain ⟨first, more, shown, graphic⟩ := octetText_of_not_plain plain
    rw [shown, List.mem_cons] at h
    rcases h with rfl | h
    · exact ⟨by decide, by decide⟩
    · exact graphic c h

/-- The octets that an octet is printed as are the codes of its characters. -/
theorem printed_eq (b : UInt8) :
    printed b = (octetText b).toList.map fun c => UInt8.ofNat c.toNat := by
  refine Octets.ofText_eq fun c known => ?_
  exact Nat.lt_of_le_of_lt (isGraphic_of_mem_octetText known).2 (by decide)

theorem printed_of_plain {b : UInt8} (h : PlainOctet b) : printed b = [b] := by
  rw [printed_eq, octetText_of_plain h, String.toList_singleton, List.map_singleton, toNat_char,
    UInt8.ofNat_toNat]

theorem length_printed_pos (b : UInt8) : 1 ≤ (printed b).length := by
  by_cases plain : PlainOctet b
  · rw [printed_of_plain plain, List.length_singleton]
  · obtain ⟨c, more, shown, -⟩ := octetText_of_not_plain plain
    simp [printed_eq, shown]

/-- An escape is longer than the octet it stands for. -/
theorem plain_of_length {b : UInt8} (h : (printed b).length ≤ 1) : PlainOctet b := by
  by_contra other
  obtain ⟨c, more, shown, -⟩ := octetText_of_not_plain other
  simp [printed_eq, shown] at h

theorem length_le_printed (o : Octets) : o.length ≤ (o.flatMap printed).length := by
  induction o with
  | nil => exact Nat.le_refl _
  | cons b o ih =>
      have first := length_printed_pos b
      rw [List.flatMap_cons, List.length_append, List.length_cons]
      omega

/-- Octets that are not longer when printed are all printed as they stand. -/
theorem plain_of_length_printed {o : Octets} (h : (o.flatMap printed).length ≤ o.length) :
    ∀ b ∈ o, PlainOctet b := by
  induction o with
  | nil => simp
  | cons b o ih =>
      have first := length_printed_pos b
      have rest := length_le_printed o
      rw [List.flatMap_cons, List.length_append, List.length_cons] at h
      exact List.forall_mem_cons.mpr ⟨plain_of_length (by omega), ih (by omega)⟩

theorem printed_eq_self {o : Octets} (h : ∀ b ∈ o, PlainOctet b) : o.flatMap printed = o := by
  rw [List.flatMap_def, List.map_congr_left fun b known => printed_of_plain (h b known),
    ← List.flatMap_def, List.flatMap_singleton']

section Text

variable {n : Name}

theorem ofText_labelText (l : Label) :
    Octets.ofText (labelText l) = l.octets.flatMap printed := by
  rw [labelText, Octets.ofText_join, List.flatMap_map]
  rfl

theorem text_root (h : n.isRoot) : n.text = "." := by
  rw [text, if_pos h]

/-- The text of a name other than the root: each label and a dot behind it. -/
theorem ofText_text (h : ¬ n.isRoot) : Octets.ofText n.text =
    n.labels.flatMap fun l => l.octets.flatMap printed ++ [0x2e] := by
  have dot : Octets.ofText "." = [0x2e] := by decide
  rw [text, if_neg h, Octets.ofText_join, List.flatMap_map]
  simp only [Octets.ofText_append, ofText_labelText, dot]

theorem isGraphic_of_mem_text {c : Char} (h : c ∈ n.text.toList) : IsGraphic c := by
  have dot : ".".toList = ['.'] := by decide
  rw [text] at h
  split at h
  · rw [dot, List.mem_singleton] at h
    rw [h]
    exact ⟨by decide, by decide⟩
  · simp only [String.toList_join, List.mem_flatMap, List.mem_map] at h
    obtain ⟨_, ⟨l, -, rfl⟩, h⟩ := h
    rw [String.toList_append, List.mem_append, dot, List.mem_singleton] at h
    rcases h with h | rfl
    · simp only [labelText, String.toList_join, List.mem_flatMap, List.mem_map] at h
      obtain ⟨_, ⟨b, -, rfl⟩, h⟩ := h
      exact isGraphic_of_mem_octetText h
    · exact ⟨by decide, by decide⟩

end Text

theorem splitDots_ne_nil (o : Octets) : splitDots o ≠ [] := by
  cases o with
  | nil => simp [splitDots]
  | cons b o =>
      rw [splitDots]
      split
      · simp
      · split <;> simp

theorem splitDots_cons {b : UInt8} (h : b ≠ 0x2e) {o part : Octets} {parts : List Octets}
    (rest : splitDots o = part :: parts) : splitDots (b :: o) = (b :: part) :: parts := by
  rw [splitDots, if_neg h, rest]

/-- Dots are lost, and nothing else. -/
theorem length_splitDots (o : Octets) :
    (splitDots o).flatten.length + (splitDots o).length = o.length + 1 := by
  induction o with
  | nil => rfl
  | cons b o ih =>
      by_cases dot : b = 0x2e
      · simp only [splitDots, dot, if_true, List.flatten_cons, List.length_append, List.length_cons,
          List.length_nil] at ih ⊢
        omega
      · obtain ⟨part, parts, split⟩ := List.exists_cons_of_ne_nil (splitDots_ne_nil o)
        rw [split] at ih
        rw [splitDots_cons dot split]
        simp only [List.flatten_cons, List.length_append, List.length_cons] at ih ⊢
        omega

theorem splitDots_of_no_dot {o : Octets} (h : 0x2e ∉ o) : splitDots o = [o] := by
  induction o with
  | nil => rfl
  | cons b o ih =>
      obtain ⟨first, later⟩ := not_or.mp (mt List.mem_cons.mpr h)
      exact splitDots_cons (Ne.symm first) (ih later)

theorem splitDots_dot {o : Octets} (h : 0x2e ∉ o) (rest : Octets) :
    splitDots (o ++ 0x2e :: rest) = o :: splitDots rest := by
  induction o with
  | nil => rfl
  | cons b o ih =>
      obtain ⟨first, later⟩ := not_or.mp (mt List.mem_cons.mpr h)
      exact splitDots_cons (Ne.symm first) (ih later)

/-- Parts with a dot behind each. -/
def dotted (parts : List Octets) : Octets := parts.flatMap fun o => o ++ [0x2e]

/-- Parts with a dot behind each are told from each other once the last dot is gone. -/
theorem splitDots_dotted {parts : List Octets} (some_part : parts ≠ [])
    (h : ∀ o ∈ parts, 0x2e ∉ o) : splitDots (dotted parts).dropLast = parts := by
  induction parts with
  | nil => contradiction
  | cons o parts ih =>
      obtain ⟨first, later⟩ := List.forall_mem_cons.mp h
      cases parts with
      | nil => simp [dotted, splitDots_of_no_dot first]
      | cons next parts =>
          have more : dotted (next :: parts) ≠ [] := by simp [dotted]
          rw [dotted, List.flatMap_cons, ← dotted, List.append_assoc, List.singleton_append,
            List.dropLast_append_of_ne_nil (List.cons_ne_nil _ _),
            List.dropLast_cons_of_ne_nil more, splitDots_dot first, ih (by simp) later]

theorem no_dot_of_plain {o : Octets} (h : ∀ b ∈ o, PlainOctet b) : 0x2e ∉ o := fun dot =>
  (h _ dot).2.2.1 rfl

theorem foldlM_push {n whole : Name} {labels : List Label}
    (h : whole.labels = n.labels ++ labels) :
    (labels.map Label.octets).foldlM push n = .ok whole := by
  induction labels generalizing n with
  | nil => exact congrArg Except.ok (ext_labels (by simpa using h.symm))
  | cons l labels ih =>
      obtain ⟨longer, pushed, h⟩ := push_front h
      rw [List.map_cons, List.foldlM_cons, pushed]
      exact ih h

theorem labels_of_foldlM {n whole : Name} {parts : List Octets}
    (h : parts.foldlM push n = .ok whole) :
    ∃ labels : List Label, labels.map Label.octets = parts ∧ whole.labels = n.labels ++ labels := by
  induction parts generalizing n with
  | nil =>
      obtain rfl := Except.ok.inj h
      exact ⟨[], rfl, (List.append_nil _).symm⟩
  | cons o parts ih =>
      rw [List.foldlM_cons] at h
      cases pushed : n.push o with
      | error e => simp [pushed, bind, Except.bind] at h
      | ok longer =>
          rw [pushed] at h
          obtain ⟨labels, rfl, split⟩ := ih h
          obtain ⟨l, rfl, extended⟩ := labels_of_push pushed
          exact ⟨l :: labels, rfl, by rw [split, extended, List.append_assoc]; rfl⟩

theorem length_wireOf (labels : List Label) :
    (wireOf labels).length = (labels.map Label.octets).flatten.length + labels.length + 1 := by
  induction labels with
  | nil => rfl
  | cons l labels ih =>
      rw [wireOf_cons, List.length_append, ih]
      simp only [Label.length_wire, List.map_cons, List.flatten_cons, List.length_append,
        List.length_cons]
      omega

theorem length_flatMap_printed (labels : List Label) :
    (labels.flatMap fun l => l.octets.flatMap printed ++ [0x2e]).length =
      ((labels.map Label.octets).flatten.flatMap printed).length + labels.length := by
  induction labels with
  | nil => rfl
  | cons l labels ih =>
      simp only [List.flatMap_cons, List.map_cons, List.flatten_cons, List.flatMap_append,
        List.length_append, List.length_cons, List.length_nil] at ih ⊢
      omega

section Reading

variable {n : Name}

theorem labels_ne_nil (h : ¬ n.isRoot) : n.labels ≠ [] := fun none =>
  h (List.isEmpty_iff.mpr none)

theorem two_le_length_text (h : ¬ n.isRoot) : 2 ≤ (Octets.ofText n.text).length := by
  obtain ⟨l, labels, split⟩ := List.exists_cons_of_ne_nil (labels_ne_nil h)
  have some_octet := length_le_printed l.octets
  have pos := List.length_pos_iff.mpr l.ne_nil
  rw [ofText_text h, split, List.flatMap_cons, List.length_append, List.length_append,
    List.length_singleton]
  omega

theorem text_ne_empty : n.text ≠ "" := by
  by_cases rooted : n.isRoot
  · rw [text_root rooted]
    decide
  · have long := two_le_length_text rooted
    intro empty
    rw [empty] at long
    exact absurd long (by decide)

/-- A text that is not that of the root is taken apart at its dots, but for the last one. -/
theorem ofText_text_of_not_root (h : ¬ n.isRoot) :
    ofText n.text = (splitDots (Octets.ofText n.text).dropLast).foldlM push root := by
  have octets := ofText_text h
  obtain ⟨front, last, split⟩ : ∃ front last, n.labels = front ++ [last] :=
    ⟨_, _, (List.dropLast_concat_getLast (labels_ne_nil h)).symm⟩
  have long := two_le_length_text h
  have other (s : String) (short : (Octets.ofText s).length < 2) : n.text ≠ s := by
    rintro rfl
    omega
  have dotted : (Octets.ofText n.text).getLast? = some 0x2e := by
    rw [octets, split, List.flatMap_append, List.flatMap_singleton, ← List.append_assoc,
      List.getLast?_concat]
  rw [ofText, if_neg (not_or.mpr ⟨other "." (by decide), other "" (by decide)⟩), dropFinalDot,
    if_pos dotted]

/-- The text of a name without escapes is read as that name. -/
theorem ofText_text_of_plain (h : n.IsPlain) : ofText n.text = .ok n := by
  by_cases rooted : n.isRoot
  · have bare : n = root := ext_labels (List.isEmpty_iff.mp rooted)
    rw [text_root rooted, bare]
    rfl
  · have unescaped : Octets.ofText n.text = dotted (n.labels.map Label.octets) := by
      rw [ofText_text rooted, dotted, List.flatMap_map, List.flatMap_def, List.flatMap_def,
        List.map_congr_left fun l known => by rw [printed_eq_self (h l known)]]
    have some_label : n.labels.map Label.octets ≠ [] := by simpa using labels_ne_nil rooted
    have free : ∀ o ∈ n.labels.map Label.octets, 0x2e ∉ o :=
      List.forall_mem_map.mpr fun l known => no_dot_of_plain (h l known)
    rw [ofText_text_of_not_root rooted, unescaped, splitDots_dotted some_label free]
    exact foldlM_push (n := root) rfl

theorem length_text_of_plain (h : n.IsPlain) : (Octets.ofText n.text).length ≤ 254 := by
  by_cases rooted : n.isRoot
  · rw [text_root rooted]
    decide
  · have long := n.length_le
    rw [length_wireOf] at long
    rw [ofText_text rooted, length_flatMap_printed, printed_eq_self (isPlain_iff.mp h)]
    omega

/-- A name that is read from the text of another is longer, unless there is no escape in it. -/
theorem isPlain_of_ofText {found : Name} (h : ofText n.text = .ok found)
    (short : found.length ≤ n.length) : n.IsPlain := by
  by_cases rooted : n.isRoot
  · rw [IsPlain, List.isEmpty_iff.mp rooted]
    simp
  · rw [ofText_text_of_not_root rooted] at h
    obtain ⟨labels, parts, same⟩ := labels_of_foldlM h
    have whole := length_splitDots (Octets.ofText n.text).dropLast
    have count := congrArg List.length parts
    have printed := length_flatMap_printed n.labels
    rw [← ofText_text rooted] at printed
    rw [Name.length, wire, length_wireOf, same, root, List.nil_append, Name.length, wire,
      length_wireOf, parts] at short
    rw [List.length_map] at count
    rw [List.length_dropLast] at whole
    exact isPlain_iff.mpr (plain_of_length_printed (by omega))

end Reading

/-- A name is read back from its text exactly if no octet of it is escaped. -/
theorem ofText_text_eq_iff {n : Name} : ofText n.text = .ok n ↔ n.IsPlain :=
  ⟨fun h => isPlain_of_ofText h (Nat.le_refl _), ofText_text_of_plain⟩

end Name
end ZoneSync
