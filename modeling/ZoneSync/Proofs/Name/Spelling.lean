import ZoneSync.Message.Compression
import ZoneSync.Name.Compressed
import ZoneSync.Proofs.Stream.Source

/-!
Names in the octets of a message. `Spelled` says that a place in a message holds given labels,
possibly by way of pointers to earlier places. `Resolved` says the same of octets that stand behind
others, as a reader takes them, and `Written` of the forms in which a name is put there. Reading
yields the name with exactly those labels.
-/

namespace ZoneSync

theorem Label.wire_injective {l k : Label} (h : l.wire = k.wire) : l = k := by
  cases l
  cases k
  simpa [Label.wire] using (List.cons.inj h).2

theorem Label.toNat_length (l : Label) : (UInt8.ofNat l.octets.length).toNat = l.octets.length := by
  have := l.length_le
  simp only [UInt8.toNat_ofNat']
  omega

theorem Label.length_pos (l : Label) : 0 < l.octets.length := List.length_pos_iff.mpr l.ne_nil

theorem Label.length_ne_zero (l : Label) : UInt8.ofNat l.octets.length ≠ 0 := fun zero => by
  have value := l.toNat_length
  have pos := l.length_pos
  rw [zero] at value
  simp at value
  omega

/-- The length in front of a label tells where it ends. -/
theorem Label.wire_append_inj {l k : Label} {o p : Octets} (h : l.wire ++ o = k.wire ++ p) :
    l = k ∧ o = p := by
  have lengths : l.wire.length = k.wire.length := by
    have first := congrArg UInt8.toNat (List.cons.inj h).1
    rw [l.toNat_length, k.toNat_length] at first
    rw [Label.length_wire, Label.length_wire, first]
  obtain ⟨same, rest⟩ := List.append_inj h lengths
  exact ⟨Label.wire_injective same, rest⟩

theorem Label.length_lt (l : Label) : l.octets.length < 64 := Nat.lt_succ_of_le l.length_le

namespace Name

theorem ext_labels {n m : Name} (h : n.labels = m.labels) : n = m := by
  cases n
  cases m
  congr

theorem wireOf_cons (l : Label) (labels : List Label) :
    wireOf (l :: labels) = l.wire ++ wireOf labels := by
  simp [wireOf]

/-- What ends a name tells where it ends. -/
theorem wireOf_append_inj {labels others : List Label} {o p : Octets}
    (h : wireOf labels ++ o = wireOf others ++ p) : labels = others ∧ o = p := by
  induction labels generalizing others with
  | nil =>
      cases others with
      | nil => exact ⟨rfl, (List.cons.inj h).2⟩
      | cons k others => exact absurd (List.cons.inj h).1.symm k.length_ne_zero
  | cons l labels ih =>
      cases others with
      | nil => exact absurd (List.cons.inj h).1 l.length_ne_zero
      | cons k others =>
          rw [wireOf_cons, wireOf_cons, List.append_assoc, List.append_assoc] at h
          obtain ⟨rfl, rest⟩ := Label.wire_append_inj h
          obtain ⟨rfl, same⟩ := ih rest
          exact ⟨rfl, same⟩

theorem wireOf_injective {labels others : List Label} (h : wireOf labels = wireOf others) :
    labels = others := by
  refine (wireOf_append_inj (o := []) (p := []) ?_).1
  rw [h]

/-- The octets of labels, without what ends a name. -/
def labelOctets (labels : List Label) : Octets := labels.flatMap Label.wire

@[simp] theorem labelOctets_nil : labelOctets [] = [] := rfl

theorem labelOctets_cons (l : Label) (labels : List Label) :
    labelOctets (l :: labels) = l.wire ++ labelOctets labels := by
  simp [labelOctets]

theorem labelOctets_append (labels more : List Label) :
    labelOctets (labels ++ more) = labelOctets labels ++ labelOctets more := by
  simp [labelOctets]

theorem wireOf_eq (labels : List Label) : wireOf labels = labelOctets labels ++ [0] := rfl

theorem wireOf_append (labels more : List Label) :
    wireOf (labels ++ more) = labelOctets labels ++ wireOf more := by
  simp [wireOf_eq, labelOctets_append]

/-- Two octets for a label and its length, at least. -/
theorem length_labels_le (labels : List Label) :
    2 * labels.length ≤ (labelOctets labels).length := by
  induction labels with
  | nil => simp
  | cons l labels ih =>
      have pos := l.length_pos
      rw [labelOctets_cons, List.length_append, Label.length_wire, List.length_cons]
      omega

theorem length_labels_lt (n : Name) : n.labels.length < 128 := by
  have long := n.length_le
  have pairs := length_labels_le n.labels
  rw [wireOf_eq, List.length_append, List.length_singleton] at long
  omega

/-- Each run of labels at the front of a name is a name itself. -/
def front (whole : Name) (labels : List Label) (more : List Label)
    (h : whole.labels = labels ++ more) : Name where
  labels
  length_le := by
    have long := whole.length_le
    rw [h, wireOf_append] at long
    rw [wireOf_eq]
    have pos : 0 < (wireOf more).length := by simp [wireOf_eq]
    simp only [List.length_append, List.length_singleton] at long ⊢
    omega

theorem push_eq_ok {n longer : Name} {l : Label} (h : longer.labels = n.labels ++ [l]) :
    n.push l.octets = .ok longer := by
  have fits : ¬ n.length + l.octets.length + 1 > 255 := by
    have long := longer.length_le
    rw [h, length_wireOf_append] at long
    simp only [Name.length, Name.wire]
    omega
  have short : ¬ l.octets.length > 63 := Nat.not_lt.mpr l.length_le
  rw [push]
  simp only [l.ne_nil, short, fits, dif_neg, not_false_eq_true]
  exact congrArg Except.ok (ext_labels h.symm)

theorem push_front {n whole : Name} {l : Label} {labels : List Label}
    (h : whole.labels = n.labels ++ (l :: labels)) :
    ∃ longer : Name, n.push l.octets = .ok longer ∧ whole.labels = longer.labels ++ labels := by
  have split : whole.labels = (n.labels ++ [l]) ++ labels := by simpa using h
  exact ⟨whole.front (n.labels ++ [l]) labels split, push_eq_ok rfl, split⟩

end Name

namespace SuffixTable

/-- The first octet of a pointer is marked by its two highest bits. -/
theorem pointer_eq {place : Nat} (h : place < reach) :
    ∃ high low : UInt8, pointer place = [high, low] ∧ 192 ≤ high.toNat ∧
      (Name.pointerTarget high low).toNat = place := by
  simp only [reach] at h
  refine ⟨UInt8.ofNat ((0xc000 + place) / 256), UInt8.ofNat (0xc000 + place), ?_, ?_, ?_⟩
  · simp [pointer, Octets.ofNat]
  · simp only [UInt8.toNat_ofNat']
    omega
  · simp only [Name.pointerTarget, UInt8.toNat_ofNat', UInt16.toNat_ofNat']
    omega

@[simp] theorem length_pointer (place : Nat) : (pointer place).length = 2 :=
  Octets.length_ofNat 2 _

end SuffixTable

namespace Name

/-- A place in a message holds the labels of a name: up to the root, or up to a pointer to a
place before it that holds the others. -/
inductive Spelled (message : Octets) : (place : Nat) → List Label → Prop
  | whole {before after : Octets} {labels : List Label}
      (here : message = before ++ wireOf labels ++ after) :
      Spelled message before.length labels
  | pointed {before after : Octets} {labels more : List Label} {target : Nat}
      (here : message = before ++ (labelOctets labels ++ SuffixTable.pointer target) ++ after)
      (earlier : target < before.length) (reached : target < SuffixTable.reach)
      (there : Spelled message target more) :
      Spelled message before.length (labels ++ more)

theorem Spelled.append {message : Octets} {place : Nat} {labels : List Label}
    (h : Spelled message place labels) (later : Octets) :
    Spelled (message ++ later) place labels := by
  induction h with
  | @whole before after labels here =>
      have longer : message ++ later = before ++ wireOf labels ++ (after ++ later) := by
        rw [here, List.append_assoc]
      exact .whole longer
  | @pointed before after labels more target here earlier reached there ih =>
      have longer : message ++ later =
          before ++ (labelOctets labels ++ SuffixTable.pointer target) ++ (after ++ later) := by
        rw [here, List.append_assoc]
      exact .pointed longer earlier reached ih

theorem labelsAt_label {pointer : UInt16} {n longer : Name} {l : Label} {rest : Octets}
    (h : n.push l.octets = .ok longer) :
    labelsAt pointer n (l.wire ++ rest) = labelsAt pointer longer rest := by
  have short : ¬ l.octets.length + rest.length < l.octets.length := by omega
  rw [Label.wire, List.cons_append, labelsAt.eq_def]
  simp [l.length_ne_zero, l.length_lt, l.toNat_length, short, h]

theorem labelsAt_labels {pointer : UInt16} {n whole : Name} {labels : List Label}
    (h : whole.labels = n.labels ++ labels) (rest : Octets) :
    labelsAt pointer n (labelOctets labels ++ rest) = labelsAt pointer whole rest := by
  induction labels generalizing n with
  | nil =>
      obtain rfl : whole = n := ext_labels (by simpa using h)
      simp
  | cons l labels ih =>
      obtain ⟨longer, pushed, h⟩ := push_front h
      rw [labelOctets_cons, List.append_assoc, labelsAt_label pushed, ih h]

theorem labelsAt_root (pointer : UInt16) (n : Name) (rest : Octets) :
    labelsAt pointer n (0 :: rest) = .ok (n, none) := by
  rw [labelsAt.eq_def]
  simp

theorem labelsAt_pointer (pointer : UInt16) (n : Name) {target : Nat} (rest : Octets)
    (h : target < SuffixTable.reach) :
    ∃ next, labelsAt pointer n (SuffixTable.pointer target ++ rest) = .ok (n, some next) ∧
      next.toNat = target := by
  obtain ⟨high, low, octets, marked, value⟩ := SuffixTable.pointer_eq h
  have not_root : high ≠ 0 := by
    rintro rfl
    simp at marked
  have not_label : ¬ high.toNat < 64 := by omega
  have not_reserved : ¬ high.toNat < 192 := by omega
  refine ⟨pointerTarget high low, ?_, value⟩
  rw [octets, List.cons_append, labelsAt.eq_def]
  simp [not_root, not_label, not_reserved]

theorem follow_eq_ok {message : Octets} {place : Nat} {labels : List Label}
    (spelled : Spelled message place labels) {n whole : Name} {pointer : UInt16} {limit : Nat}
    (target : pointer.toNat = place) (earlier : place < limit)
    (h : whole.labels = n.labels ++ labels) :
    follow message n pointer limit = .ok whole := by
  induction spelled generalizing n pointer limit with
  | @whole before after labels here =>
      rw [follow, dif_pos (by omega), target, here, List.append_assoc, List.drop_left, wireOf_eq,
        List.append_assoc, labelsAt_labels h]
      simp [labelsAt_root]
  | @pointed before after labels more next here before_lt reached there ih =>
      have split : whole.labels = (n.labels ++ labels) ++ more := by simpa using h
      obtain ⟨read, there_read, value⟩ :=
        labelsAt_pointer pointer (whole.front (n.labels ++ labels) more split) after reached
      have taken : labelsAt pointer n (message.drop before.length) =
          .ok (whole.front (n.labels ++ labels) more split, some read) := by
        rw [here, List.append_assoc, List.drop_left, List.append_assoc, ← there_read]
        exact labelsAt_labels rfl _
      rw [follow, dif_pos (by omega), target, taken]
      exact ih value (by omega) split

/-- The octets of a name as they continue the octets of a message. -/
inductive Written (before : Octets) (name : Name) : Octets → Prop
  | whole : Written before name name.wire
  | pointed {labels more : List Label} {target : Nat} (split : name.labels = labels ++ more)
      (earlier : target < before.length) (reached : target < SuffixTable.reach)
      (there : Spelled before target more) :
      Written before name (labelOctets labels ++ SuffixTable.pointer target)

theorem Written.length_pos {before o : Octets} {name : Name} (h : Written before name o) :
    0 < o.length := by
  cases h with
  | whole => simp [wire, wireOf_eq]
  | pointed => simp

/-- The octets behind others that lead to given labels: up to the root, or up to a pointer to a
place before itself. No octets behind that pointer count. -/
inductive Resolved (before : Octets) : List Label → Octets → Prop
  | whole {labels : List Label} : Resolved before labels (wireOf labels)
  | pointed {labels more : List Label} {target : Nat}
      (earlier : target < (before ++ labelOctets labels).length)
      (reached : target < SuffixTable.reach)
      (there : Spelled (before ++ labelOctets labels ++ SuffixTable.pointer target) target more) :
      Resolved before (labels ++ more) (labelOctets labels ++ SuffixTable.pointer target)

/-- What is written for a name points to a place before the name itself. -/
theorem Written.resolved {before o : Octets} {name : Name} (h : Written before name o) :
    Resolved before name.labels o := by
  cases h with
  | whole => exact .whole
  | pointed split earlier reached there =>
      rw [split]
      refine .pointed ?_ reached ((there.append _).append _)
      rw [List.length_append]
      omega

section Read

variable {σ : Type} [ReadStream σ] {At : σ → Octets → Octets → Prop} {before : Octets}

/-- The first octet of a name is not charged to the limit on its length. -/
theorem yields_octet (source : Source At) (read : Nat) (b : UInt8) {α : Type}
    {f : UInt8 → StreamM σ α} {o : Octets} {a : α} (rest : Yields At (before ++ [b]) (f b) o a) :
    Yields At before
      (if read = 0 then readUInt8 >>= f else within (read + 1) read readUInt8 >>= f)
      (b :: o) a := by
  split
  · exact (yields_readUInt8 source b).bind rest
  · exact ((yields_readUInt8 source b).within _ _).bind rest

theorem yields_label (source : Source At) {rounds read : Nat} {n longer name : Name} {l : Label}
    {o : Octets} (h : n.push l.octets = .ok longer)
    (rest : Yields At (before ++ l.wire) (readFrom rounds (read + 1 + l.octets.length) longer) o
      name) :
    Yields At before (readFrom (rounds + 1) read n) (l.wire ++ o) name := by
  rw [readFrom]
  refine yields_octet source read _ ?_
  have label : Yields At (before ++ [UInt8.ofNat l.octets.length])
      (within (read + 1 + l.octets.length) (read + 1) (readOctets l.octets.length)) _ _ :=
    (yields_readOctets source rfl).within _ _
  simp only [l.length_ne_zero, l.length_lt, l.toNat_length, if_true, if_false]
  refine label.bind ?_
  simpa [h, Label.wire] using rest

theorem yields_labels (source : Source At) {rounds read : Nat} {n whole name : Name}
    {labels : List Label} {o : Octets} (h : whole.labels = n.labels ++ labels)
    (rest : ∀ read, Yields At (before ++ labelOctets labels) (readFrom rounds read whole) o name) :
    Yields At before (readFrom (rounds + labels.length) read n) (labelOctets labels ++ o) name := by
  induction labels generalizing n read before with
  | nil =>
      obtain rfl : whole = n := ext_labels (by simpa using h)
      simpa using rest read
  | cons l labels ih =>
      obtain ⟨longer, pushed, h⟩ := push_front h
      rw [labelOctets_cons, List.append_assoc]
      refine yields_label source pushed (ih h fun read => ?_)
      simpa [labelOctets_cons] using rest read

theorem yields_root (source : Source At) (rounds read : Nat) (n : Name) :
    Yields At before (readFrom (rounds + 1) read n) [0] n := by
  rw [readFrom]
  exact yields_octet source read 0 (yields_pure n)

theorem yields_pointer (source : Source At) (remembers : Remembers At) {rounds read : Nat}
    {n whole : Name} {labels : List Label} {target : Nat} (earlier : target < before.length)
    (reached : target < SuffixTable.reach)
    (there : Spelled (before ++ SuffixTable.pointer target) target labels)
    (h : whole.labels = n.labels ++ labels) :
    Yields At before (readFrom (rounds + 1) read n) (SuffixTable.pointer target) whole := by
  obtain ⟨high, low, octets, marked, value⟩ := SuffixTable.pointer_eq reached
  have not_root : high ≠ 0 := by
    rintro rfl
    simp at marked
  have not_label : ¬ high.toNat < 64 := by omega
  have not_reserved : ¬ high.toNat < 192 := by omega
  rw [octets, readFrom]
  refine yields_octet source read high ?_
  simp only [not_root, not_label, not_reserved, if_false]
  refine Yields.bind (o := [low]) (p := []) ((yields_readUInt8 source low).within _ _) ?_
  -- The pointer is followed in all octets taken so far, of which it is the last two.
  intro s rest hs
  have message := remembers.consumed hs
  have followed : followFirst (some (before ++ [high] ++ [low])) n (pointerTarget high low) =
      .ok whole := by
    have long : ¬ (before ++ [high] ++ [low]).length < 2 := by simp
    simp only [followFirst, long, if_false]
    rw [octets] at there
    refine follow_eq_ok (by simpa using there) value ?_ h
    simpa using earlier
  refine ⟨s, ?_, by simpa using hs⟩
  rw [bind_of_ok (rfl : (get : StreamM σ σ) s = .ok s s), message, followed]
  rfl

/-- Reading takes exactly the octets that lead to the labels of a name, and yields that name. -/
theorem yields_read (source : Source At) (remembers : Remembers At) {name : Name} {o : Octets}
    (h : Resolved before name.labels o) : Yields At before Name.read o name := by
  have few := name.length_labels_lt
  generalize named : name.labels = all at h few
  cases h with
  | whole =>
      have rounds : 128 = (127 - all.length + 1) + all.length := by omega
      rw [Name.read, rounds]
      exact yields_labels source named fun read => yields_root source _ read name
  | @pointed labels more target earlier reached there =>
      have short : labels.length ≤ (labels ++ more).length := by simp
      have rounds : 128 = (127 - labels.length + 1) + labels.length := by omega
      rw [Name.read, rounds]
      have front : (name.front labels more named).labels = root.labels ++ labels := rfl
      refine yields_labels source front fun read => ?_
      exact yields_pointer source remembers earlier reached there named

/-- Reading takes exactly the octets that were written for a name, and yields that name. -/
theorem yields_read_written (source : Source At) (remembers : Remembers At) {name : Name}
    {o : Octets} (h : Written before name o) : Yields At before Name.read o name :=
  yields_read source remembers h.resolved

end Read
end Name
end ZoneSync
