import ZoneSync.Proofs.Name.Decompression
import ZoneSync.Proofs.Name.Presentation

/-!
Every name is valid. Octets that are read as a name, labels that are pushed one by one and texts
that are taken apart at their dots come to the same: labels of 1 to 63 octets, and at most 255
octets with the length in front of each label and the zero octet behind the last one. Whatever a
name was made from, its wire form is read as that name, and each of its suffixes is a name too.
-/

namespace ZoneSync.Name

/-- A label behind its length octet. -/
def labelled (o : Octets) : Octets := UInt8.ofNat o.length :: o

/-- Labels behind their length octets, and a zero octet at the end. -/
def wireForm (parts : List Octets) : Octets := parts.flatMap labelled ++ [0]

/-- What can be the labels of a name. -/
structure Fits (parts : List Octets) : Prop where
  labels : ∀ o ∈ parts, 1 ≤ o.length ∧ o.length ≤ 63
  whole : (wireForm parts).length ≤ 255

instance : DecidablePred Fits := fun parts =>
  decidable_of_iff
    ((∀ o ∈ parts, 1 ≤ o.length ∧ o.length ≤ 63) ∧ (wireForm parts).length ≤ 255)
    ⟨fun h => ⟨h.1, h.2⟩, fun h => ⟨h.labels, h.whole⟩⟩

/-- The place of a label's length octet. -/
def offsetOf (parts : List Octets) (i : Nat) : Nat := ((parts.take i).flatMap labelled).length

/-- The labels on the way through a wire form, up to a zero octet in place of a length. -/
def walk : Octets → List Octets
  | [] => []
  | len :: rest =>
    if len = 0 then [] else rest.take len.toNat :: walk (rest.drop len.toNat)
termination_by o => o.length
decreasing_by simp only [List.length_drop, List.length_cons]; omega

/-- A valid name with given labels. -/
structure MadeOf (n : Name) (parts : List Octets) : Prop where
  fits : Fits parts
  labels : n.labels.map Label.octets = parts
  wire : n.wire = wireForm parts
  walked : walk n.wire = parts
  accepted : ofWire n.wire = .ok n
  suffixes : n.suffixes = (List.range parts.length).map fun i =>
    (offsetOf parts i, n.wire.drop (offsetOf parts i))
  rest : ∀ i < parts.length, n.wire.drop (offsetOf parts i) = wireForm (parts.drop i) ∧
    ∃ m, ofWire (n.wire.drop (offsetOf parts i)) = .ok m

theorem flatMap_labelled (labels : List Label) :
    (labels.map Label.octets).flatMap labelled = labelOctets labels := List.flatMap_map _ _ labels

theorem wireForm_labels (labels : List Label) :
    wireForm (labels.map Label.octets) = wireOf labels := by
  rw [wireForm, flatMap_labelled, wireOf_eq]

theorem offsetOf_labels (labels : List Label) (i : Nat) :
    offsetOf (labels.map Label.octets) i = (labelOctets (labels.take i)).length := by
  rw [offsetOf, ← List.map_take, flatMap_labelled]

theorem fits_labels (n : Name) : Fits (n.labels.map Label.octets) where
  labels := List.forall_mem_map.mpr fun l _ => ⟨l.length_pos, l.length_le⟩
  whole := by
    rw [wireForm_labels]
    exact n.length_le

theorem exists_labels {parts : List Octets} (h : ∀ o ∈ parts, 1 ≤ o.length ∧ o.length ≤ 63) :
    ∃ labels : List Label, labels.map Label.octets = parts := by
  induction parts with
  | nil => exact ⟨[], rfl⟩
  | cons o parts ih =>
      obtain ⟨⟨pos, short⟩, later⟩ := List.forall_mem_cons.mp h
      obtain ⟨labels, rfl⟩ := ih later
      exact ⟨⟨o, List.length_pos_iff.mp pos, short⟩ :: labels, rfl⟩

theorem Fits.exists_name {parts : List Octets} (h : Fits parts) :
    ∃ n : Name, n.labels.map Label.octets = parts := by
  obtain ⟨labels, rfl⟩ := exists_labels h.labels
  have short := h.whole
  rw [wireForm_labels] at short
  exact ⟨⟨labels, short⟩, rfl⟩

theorem walk_wireOf (labels : List Label) : walk (wireOf labels) = labels.map Label.octets := by
  induction labels with
  | nil => simp [wireOf, walk]
  | cons l labels ih =>
      rw [wireOf_cons, Label.wire, List.cons_append, walk, if_neg l.length_ne_zero,
        l.toNat_length, List.take_left, List.drop_left, ih, List.map_cons]

theorem suffixesFrom_eq (offset : Nat) (labels : List Label) :
    suffixesFrom offset labels = (List.range labels.length).map fun i =>
      (offset + (labelOctets (labels.take i)).length, wireOf (labels.drop i)) := by
  induction labels generalizing offset with
  | nil => rfl
  | cons l labels ih =>
      rw [suffixesFrom, ih, List.length_cons, List.range_succ_eq_map, List.map_cons, List.map_map]
      congr 1
      refine List.map_congr_left fun i _ => ?_
      simp only [Function.comp_apply, List.take_succ_cons, List.drop_succ_cons, labelOctets_cons,
        List.length_append, Nat.add_assoc]

theorem drop_wireOf (labels : List Label) (i : Nat) :
    (wireOf labels).drop (labelOctets (labels.take i)).length = wireOf (labels.drop i) := by
  have split := wireOf_append (labels.take i) (labels.drop i)
  rw [List.take_append_drop] at split
  rw [split, List.drop_left]

/-- The labels behind others make a name of their own. -/
theorem exists_behind (n : Name) (i : Nat) : ∃ m : Name, m.labels = n.labels.drop i := by
  refine ⟨⟨n.labels.drop i, ?_⟩, rfl⟩
  rw [← drop_wireOf, List.length_drop]
  exact Nat.le_trans (Nat.sub_le _ _) n.length_le

theorem madeOf_labels (n : Name) : MadeOf n (n.labels.map Label.octets) where
  fits := fits_labels n
  labels := rfl
  wire := (wireForm_labels n.labels).symm
  walked := walk_wireOf n.labels
  accepted := ofWire_wire n
  suffixes := by
    rw [Name.suffixes, suffixesFrom_eq, List.length_map]
    refine List.map_congr_left fun i _ => ?_
    rw [Nat.zero_add, offsetOf_labels, wire, drop_wireOf]
  rest := by
    intro i _
    obtain ⟨m, behind⟩ := n.exists_behind i
    rw [offsetOf_labels, wire, drop_wireOf, ← List.map_drop, wireForm_labels, ← behind]
    exact ⟨rfl, m, ofWire_wire m⟩

/-- The octets read are the wire form of the labels added. -/
theorem labels_of_readLabels {n whole : Name} {o : Octets} (h : readLabels n o = .ok whole) :
    ∃ labels, whole.labels = n.labels ++ labels ∧ o = wireOf labels := by
  fun_induction readLabels n o with
  | case1 | case2 | case4 | case5 => cases h
  | case3 n =>
      obtain rfl := Except.ok.inj h
      exact ⟨[], (List.append_nil _).symm, rfl⟩
  | case6 n len rest _ _ long ih =>
      cases pushed : n.push (rest.take len.toNat) with
      | error e =>
          rw [pushed] at h
          cases h
      | ok longer =>
          rw [pushed] at h
          obtain ⟨labels, named, behind⟩ := ih longer h
          have length : (rest.take len.toNat).length = len.toNat := by
            rw [List.length_take]
            omega
          obtain ⟨l, first, extended⟩ := wire_of_push length pushed
          refine ⟨l :: labels, by rw [named, extended, List.append_assoc]; rfl, ?_⟩
          rw [wireOf_cons, first, List.cons_append, ← behind, List.take_append_drop]

theorem wire_of_ofWire {n : Name} {o : Octets} (h : ofWire o = .ok n) : n.wire = o := by
  rw [ofWire] at h
  split at h
  · cases h
  · obtain ⟨labels, named, rfl⟩ := labels_of_readLabels h
    rw [wire, named]
    rfl

/-- Octets are read as a name if and only if they are the wire form of labels that fit. -/
theorem ofWire_accepts_iff (o : Octets) :
    (∃ n, ofWire o = .ok n) ↔ ∃ parts, Fits parts ∧ o = wireForm parts := by
  constructor
  · rintro ⟨n, h⟩
    exact ⟨_, fits_labels n, by rw [wireForm_labels, ← wire_of_ofWire h]; rfl⟩
  · rintro ⟨parts, fits, rfl⟩
    obtain ⟨n, rfl⟩ := fits.exists_name
    exact ⟨n, by rw [wireForm_labels]; exact ofWire_wire n⟩

section Push

variable {n : Name} {parts : List Octets} {o : Octets}

theorem MadeOf.length_push (made : MadeOf n parts) (o : Octets) :
    (wireForm (parts ++ [o])).length = n.length + o.length + 1 := by
  rw [Name.length, made.wire, wireForm, wireForm, List.flatMap_append]
  simp only [List.flatMap_singleton, labelled, List.length_append, List.length_cons,
    List.length_nil]
  omega

/-- Why a label is refused. -/
theorem MadeOf.push_refuses_iff (made : MadeOf n parts) (o : Octets) :
    (∃ e, n.push o = .error e) ↔
      o.length = 0 ∨ 63 < o.length ∨ 255 < (wireForm (parts ++ [o])).length := by
  rw [made.length_push, push]
  split
  · simp [*]
  · rename_i some_octet
    have pos : o.length ≠ 0 := fun none => some_octet (List.eq_nil_of_length_eq_zero none)
    split
    · simp [*]
    · rename_i short
      split
      · simp [*]
      · rename_i room
        simp only [reduceCtorEq, exists_false, false_iff]
        omega

/-- The labels with one more, if they fit with it. -/
def collect (parts : List Octets) (o : Octets) : List Octets :=
  if Fits (parts ++ [o]) then parts ++ [o] else parts

/-- The name behind a call to push a label, which may be refused. -/
def pushed (n : Name) (o : Octets) : Name :=
  match n.push o with
  | .ok longer => longer
  | .error _ => n

theorem MadeOf.pushed (made : MadeOf n parts) (o : Octets) :
    MadeOf (n.pushed o) (collect parts o) := by
  rw [Name.pushed, collect]
  cases result : n.push o with
  | ok longer =>
      obtain ⟨l, rfl, extended⟩ := labels_of_push result
      have named : longer.labels.map Label.octets = parts ++ [l.octets] := by
        rw [extended, List.map_append, made.labels, List.map_singleton]
      rw [if_pos (named ▸ fits_labels longer), ← named]
      exact madeOf_labels longer
  | error e =>
      have refused := (made.push_refuses_iff o).mp ⟨e, result⟩
      have unfit : ¬ Fits (parts ++ [o]) := by
        intro fits
        obtain ⟨pos, short⟩ := fits.labels o (by simp)
        have whole := fits.whole
        omega
      rw [if_neg unfit]
      exact made

theorem MadeOf.foldl (made : MadeOf n parts) (calls : List Octets) :
    MadeOf (calls.foldl Name.pushed n) (calls.foldl collect parts) := by
  induction calls generalizing n parts with
  | nil => exact made
  | cons o calls ih => exact ih (made.pushed o)

end Push

section Text

/-- Labels in a text: dots stand between them and perhaps one behind them. The root has none. -/
inductive Dotted (s : String) : List Octets → Prop
  | root (h : s = "." ∨ s = "") : Dotted s []
  | closed {parts : List Octets} (some_part : parts ≠ []) (free : ∀ o ∈ parts, 0x2e ∉ o)
      (h : Octets.ofText s = dotted parts) : Dotted s parts
  | bare {parts : List Octets} (some_part : parts ≠ []) (free : ∀ o ∈ parts, 0x2e ∉ o)
      (h : Octets.ofText s ++ [0x2e] = dotted parts) : Dotted s parts

theorem dotted_splitDots (o : Octets) : dotted (splitDots o) = o ++ [0x2e] := by
  induction o with
  | nil => rfl
  | cons b o ih =>
      by_cases dot : b = 0x2e
      · rw [splitDots, if_pos dot, dotted, List.flatMap_cons, ← dotted, ih, dot]
        rfl
      · obtain ⟨part, parts, split⟩ := List.exists_cons_of_ne_nil (splitDots_ne_nil o)
        rw [split, dotted, List.flatMap_cons] at ih
        rw [splitDots_cons dot split, dotted, List.flatMap_cons, List.cons_append, List.cons_append,
          ih, List.cons_append]

theorem no_dot_in_splitDots (o : Octets) : ∀ p ∈ splitDots o, 0x2e ∉ p := by
  induction o with
  | nil => simp [splitDots]
  | cons b o ih =>
      by_cases dot : b = 0x2e
      · rw [splitDots, if_pos dot]
        exact List.forall_mem_cons.mpr ⟨List.not_mem_nil, ih⟩
      · obtain ⟨part, parts, split⟩ := List.exists_cons_of_ne_nil (splitDots_ne_nil o)
        rw [split] at ih
        obtain ⟨first, later⟩ := List.forall_mem_cons.mp ih
        rw [splitDots_cons dot split]
        refine List.forall_mem_cons.mpr ⟨?_, later⟩
        simpa [Ne.symm dot] using first

/-- Behind a dot at the end there is one more part, and it is empty. -/
theorem splitDots_concat_dot (o : Octets) : splitDots (o ++ [0x2e]) = splitDots o ++ [[]] := by
  induction o with
  | nil => rfl
  | cons b o ih =>
      by_cases dot : b = 0x2e
      · rw [List.cons_append, splitDots, if_pos dot, ih, splitDots, if_pos dot, List.cons_append]
      · obtain ⟨part, parts, split⟩ := List.exists_cons_of_ne_nil (splitDots_ne_nil o)
        rw [split, List.cons_append] at ih
        rw [List.cons_append, splitDots_cons dot ih, splitDots_cons dot split, List.cons_append]

theorem getLast?_dotted {parts : List Octets} (some_part : parts ≠ []) :
    (dotted parts).getLast? = some 0x2e := by
  obtain ⟨front, last, rfl⟩ : ∃ front last, parts = front ++ [last] :=
    ⟨_, _, (List.dropLast_concat_getLast some_part).symm⟩
  rw [dotted, List.flatMap_append, List.flatMap_singleton, ← List.append_assoc,
    List.getLast?_concat]

/-- What is read from a text other than the root's is told by its parts. -/
theorem splitDots_of_dotted {s : String} {parts : List Octets} (h : Dotted s parts)
    (fits : Fits parts) (some_part : parts ≠ []) :
    ¬ (s = "." ∨ s = "") ∧ splitDots (dropFinalDot (Octets.ofText s)) = parts := by
  have no_empty : [] ∉ parts := fun empty => absurd (fits.labels [] empty).1 (by decide)
  cases h with
  | root => contradiction
  | closed _ free h =>
      have split := splitDots_dotted some_part free
      rw [← h] at split
      have final : (Octets.ofText s).getLast? = some 0x2e := by rw [h, getLast?_dotted some_part]
      constructor
      · rintro (rfl | rfl) <;> exact no_empty (by rw [← split]; decide)
      · rw [dropFinalDot, if_pos final, split]
  | bare _ free h =>
      have split := splitDots_dotted some_part free
      rw [← h, List.dropLast_concat] at split
      constructor
      · rintro (rfl | rfl) <;> exact no_empty (by rw [← split]; decide)
      · have final : (Octets.ofText s).getLast? ≠ some 0x2e := by
          intro final
          obtain ⟨front, whole⟩ := List.getLast?_eq_some_iff.mp final
          rw [whole, splitDots_concat_dot] at split
          exact no_empty (by simp [← split])
        rw [dropFinalDot, if_neg final, split]

theorem dotted_of_ofText {s : String} {n : Name} (h : ofText s = .ok n) :
    Dotted s (n.labels.map Label.octets) := by
  rw [ofText] at h
  split at h
  · rename_i rooted
    obtain rfl := Except.ok.inj h
    exact .root rooted
  · obtain ⟨labels, split, named⟩ := labels_of_foldlM h
    rw [named, root, List.nil_append, split]
    have whole := dotted_splitDots (dropFinalDot (Octets.ofText s))
    by_cases final : (Octets.ofText s).getLast? = some 0x2e
    · refine .closed (splitDots_ne_nil _) (no_dot_in_splitDots _) ?_
      obtain ⟨front, text⟩ := List.getLast?_eq_some_iff.mp final
      rw [whole, dropFinalDot, if_pos final, text, List.dropLast_concat]
    · refine .bare (splitDots_ne_nil _) (no_dot_in_splitDots _) ?_
      rw [whole, dropFinalDot, if_neg final]

/-- A text is read as a name if and only if its labels fit. -/
theorem ofText_accepts_iff (s : String) :
    (∃ n, ofText s = .ok n) ↔ ∃ parts, Dotted s parts ∧ Fits parts := by
  constructor
  · rintro ⟨n, h⟩
    exact ⟨_, dotted_of_ofText h, fits_labels n⟩
  · rintro ⟨parts, shown, fits⟩
    by_cases none : parts = []
    · subst none
      cases shown with
      | root rooted => exact ⟨root, by rw [ofText, if_pos rooted]⟩
      | closed some_part | bare some_part => contradiction
    · obtain ⟨other, split⟩ := splitDots_of_dotted shown fits none
      obtain ⟨n, rfl⟩ := fits.exists_name
      refine ⟨n, ?_⟩
      rw [ofText, if_neg other, split]
      exact foldlM_push rfl

end Text

/-- Octets are a name exactly if they are the wire form of labels that fit, and then they are its
wire form. A name that was built by pushing labels has those that fitted, in order; one is refused
exactly if it is empty, too long, or too much for the whole name, and then nothing has changed. A
text is a name exactly if the parts between its dots fit. However it was made, a name is valid, and
its labels and suffixes are those found in its wire form. -/
theorem always_valid :
    (∀ o, ((∃ n, ofWire o = .ok n) ↔ ∃ parts, Fits parts ∧ o = wireForm parts) ∧
      ∀ n, ofWire o = .ok n → n.wire = o ∧ MadeOf n (walk o)) ∧
    (∀ calls : List Octets, MadeOf (calls.foldl pushed root) (calls.foldl collect [])) ∧
    (∀ n parts o, MadeOf n parts → ((∃ e, n.push o = .error e) ↔
      o.length = 0 ∨ 63 < o.length ∨ 255 < (wireForm (parts ++ [o])).length)) ∧
    ∀ s, ((∃ n, ofText s = .ok n) ↔ ∃ parts, Dotted s parts ∧ Fits parts) ∧
      ∀ n, ofText s = .ok n → ∃ parts, Dotted s parts ∧ MadeOf n parts := by
  refine ⟨fun o => ⟨ofWire_accepts_iff o, fun n h => ?_⟩, (madeOf_labels root).foldl,
    fun n parts o made => made.push_refuses_iff o, fun s => ⟨ofText_accepts_iff s, fun n h => ?_⟩⟩
  · obtain rfl := wire_of_ofWire h
    refine ⟨rfl, ?_⟩
    rw [(madeOf_labels n).walked]
    exact madeOf_labels n
  · exact ⟨_, dotted_of_ofText h, madeOf_labels n⟩

/-- With the shortest labels a name has room for 127 of them. -/
example : Fits (List.replicate 127 [0x61]) ∧ ¬ Fits (List.replicate 128 [0x61]) := by
  decide +kernel

end ZoneSync.Name
