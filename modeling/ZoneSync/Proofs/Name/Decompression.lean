import ZoneSync.Name.Wire
import ZoneSync.Proofs.Name.Inline

/-!
Reading names from memory. A name is read exactly where the octets lead to it: labels in place up to
the root or to a pointer before itself, and each further stretch of labels before the one that
points to it. The bound on the rounds of the reader decides nothing.
-/

namespace ZoneSync

/-- The reader that has handed out some octets and has others left. -/
def MemoryReader.between (before after : Octets) : MemoryReader :=
  { data := (before ++ after).toArray, position := before.length }

theorem MemoryReader.stands_between (before after : Octets) :
    (between before after).Stands before after := ⟨rfl, rfl, rfl⟩

theorem MemoryReader.Stands.eq_between {r : MemoryReader} {before after : Octets}
    (h : r.Stands before after) : r = between before after := by
  obtain ⟨data, position, isOpen⟩ := r
  obtain ⟨rfl, octets, rfl⟩ := h
  rw [between, ← octets]

namespace Name

/-- Where the stream keeps all octets before its position, a name read is one they lead to. -/
theorem ReadOff.resolved {before o : Octets} {name : Name}
    (h : ReadOff (fun before consumed => consumed = some before) before root name o) :
    Resolved before name.labels o := by
  cases h with
  | whole named =>
      rw [named]
      exact .whole
  | @pointed labels longer high low _ extended marked kept followed =>
      obtain ⟨octets, reached⟩ := pointer_pointerTarget marked low
      obtain ⟨message, more, found, named, earlier, there⟩ := spelled_of_followFirst followed
      obtain rfl := Option.some.inj (found.symm.trans kept)
      have extended : longer.labels = labels := extended
      rw [named, extended, ← octets]
      refine .pointed ?_ reached ?_
      · simp only [List.length_append, List.length_cons, List.length_nil] at earlier ⊢
        omega
      · rw [octets, List.append_assoc]
        exact there

theorem takes_read_resolved {σ : Type} [ReadStream σ] {At : σ → Octets → Octets → Prop}
    {before : Octets} (faithful : Faithful At) (remembers : Remembers At) :
    Takes At before Name.read fun o name => Resolved before name.labels o :=
  (takes_readFrom (fun _ _ _ hs => remembers.consumed hs) faithful 128 0 root).mono
    fun _ _ found => found.resolved

/-- There are fewer labels in a name than rounds, so further rounds are never used. -/
theorem readFrom_of_le {σ : Type} [ReadStream σ] {rounds read : Nat} {n : Name}
    (enough : 128 ≤ n.labels.length + rounds) (more : Nat) :
    (readFrom (rounds + more) read n : StreamM σ Name) = readFrom rounds read n := by
  induction rounds generalizing read n with
  | zero =>
      have few := n.length_labels_lt
      omega
  | succ rounds ih =>
      have longer_name {label : Octets} {longer : Name} (pushed : n.push label = .ok longer) :
          128 ≤ longer.labels.length + rounds := by
        obtain ⟨l, -, extended⟩ := labels_of_push pushed
        rw [extended, List.length_append, List.length_singleton]
        omega
      rw [Nat.add_right_comm, readFrom, readFrom]
      -- The first octet is read in one of two ways; what follows it is the same.
      split
      all_goals
        refine bind_congr fun octet => ?_
        dsimp only
        split
        · rfl
        · split
          · refine bind_congr fun label => ?_
            cases pushed : n.push label with
            | error e => rfl
            | ok longer => exact ih (longer_name pushed)
          · rfl

theorem readLabels_wireOf {n whole : Name} {labels : List Label}
    (h : whole.labels = n.labels ++ labels) : readLabels n (wireOf labels) = .ok whole := by
  induction labels generalizing n with
  | nil =>
      obtain rfl : whole = n := ext_labels (by simpa using h)
      rw [wireOf_eq, labelOctets_nil, List.nil_append, readLabels.eq_def]
      simp
  | cons l labels ih =>
      obtain ⟨longer, pushed, h⟩ := push_front h
      have short : ¬ l.octets.length > 63 := Nat.not_lt.mpr l.length_le
      have behind : 0 < (wireOf labels).length := by simp [wireOf_eq]
      rw [wireOf_cons, Label.wire, List.cons_append, readLabels.eq_def]
      simp only [l.toNat_length, short, l.length_ne_zero, if_false]
      rw [if_neg (by rw [List.length_append]; omega), List.take_left, List.drop_left, pushed]
      exact ih h

/-- The wire form of a name is read as that name. -/
theorem ofWire_wire (n : Name) : ofWire n.wire = .ok n := by
  have fits : ¬ n.wire.length > 255 := Nat.not_lt.mpr n.length_le
  rw [ofWire, if_neg fits]
  exact readLabels_wireOf rfl

/-- At every place of every message, reading a name ends before its rounds run out. It yields the
labels that the octets from there lead to, if these fit into a name, and takes the octets in place;
where the octets lead to no labels, or to too many, it yields no name. A name read is valid. -/
theorem read_iff_resolved (before after : Octets) :
    (∀ rounds, 128 ≤ rounds →
      readFrom rounds 0 root (MemoryReader.between before after) = read (.between before after)) ∧
    (∀ labels r',
      (∃ name, read (MemoryReader.between before after) = .ok name r' ∧ name.labels = labels) ↔
        (wireOf labels).length ≤ 255 ∧ ∃ o rest, after = o ++ rest ∧ Resolved before labels o ∧
          r' = .between (before ++ o) rest) ∧
    ∀ name r', read (MemoryReader.between before after) = .ok name r' →
      ofWire name.wire = .ok name := by
  have stands := MemoryReader.stands_between before after
  refine ⟨fun rounds enough => ?_, fun labels r' => ⟨?_, ?_⟩, fun name _ _ => ofWire_wire name⟩
  · obtain ⟨more, rfl⟩ := Nat.exists_eq_add_of_le enough
    rw [read, readFrom_of_le (by simp)]
  · rintro ⟨name, done, rfl⟩
    obtain ⟨o, rest, split, resolved, moved⟩ :=
      takes_read_resolved MemoryReader.faithful MemoryReader.remembers _ _ _ _ stands done
    exact ⟨name.length_le, o, rest, split, resolved, moved.eq_between⟩
  · rintro ⟨fits, o, rest, rfl, resolved, rfl⟩
    have named : Resolved before (Name.mk labels fits).labels o := resolved
    obtain ⟨r', done, moved⟩ :=
      yields_read MemoryReader.source MemoryReader.remembers named _ rest stands
    exact ⟨⟨labels, fits⟩, moved.eq_between ▸ done, rfl⟩

/-- The label in place and the label that the pointer behind it leads back to. -/
example :
    let label (b : UInt8) : Label := ⟨[b], by simp, by simp⟩
    read (MemoryReader.between [1, 0x61, 0] [1, 0x62, 0xc0, 0, 7]) =
      .ok ⟨[label 0x62, label 0x61], by decide⟩ (.between [1, 0x61, 0, 1, 0x62, 0xc0, 0] [7]) := by
  cbv

end Name
end ZoneSync
