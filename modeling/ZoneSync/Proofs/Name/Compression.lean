import ZoneSync.Proofs.Name.Spelling

/-!
Compression of names. Every entry of a table of suffixes leads to a place where the message
spells that suffix, and this stays so when a name is written and what it teaches is added.
-/

namespace ZoneSync

theorem Name.Spelled.place_lt {message : Octets} {place : Nat} {labels : List Label}
    (h : Name.Spelled message place labels) : place < message.length := by
  cases h with
  | whole here =>
      rw [here, Name.wireOf_eq]
      simp only [List.length_append, List.length_singleton]
      omega
  | pointed here =>
      rw [here]
      simp only [List.length_append, SuffixTable.length_pointer]
      omega

namespace SuffixTable

open Name

/-- The place holds the suffix, and pointers reach it. -/
structure Leads (message suffix : Octets) (place : Nat) : Prop where
  reached : place < reach
  spelled : ∃ labels, suffix = wireOf labels ∧ Spelled message place labels

/-- Every entry leads to its suffix. -/
def Sound (table : SuffixTable) (message : Octets) : Prop :=
  ∀ entry ∈ table, Leads message entry.1 entry.2

theorem sound_nil (message : Octets) : Sound [] message := fun _ h => nomatch h

theorem Leads.append {message suffix : Octets} {place : Nat} (h : Leads message suffix place)
    (later : Octets) : Leads (message ++ later) suffix place := by
  obtain ⟨labels, same, spelled⟩ := h.spelled
  exact ⟨h.reached, labels, same, spelled.append later⟩

theorem Sound.append {table : SuffixTable} {message : Octets} (h : Sound table message)
    (later : Octets) : Sound table (message ++ later) := fun entry known =>
  (h entry known).append later

theorem sound_append {learnt table : SuffixTable} {message : Octets} :
    Sound (learnt ++ table) message ↔ Sound learnt message ∧ Sound table message :=
  List.forall_mem_append

theorem Sound.spelled {table : SuffixTable} {message : Octets} {labels : List Label} {place : Nat}
    (h : Sound table message) (known : table.lookup (wireOf labels) = some place) :
    place < reach ∧ Spelled message place labels := by
  obtain ⟨front, back, rfl, -⟩ := List.lookup_eq_some_iff.mp known
  obtain ⟨reached, others, same, spelled⟩ := h (wireOf labels, place) (by simp)
  rw [wireOf_injective same]
  exact ⟨reached, spelled⟩

/-- What a search finds: the labels in front of a known suffix, or all of them. -/
inductive Finds (table : SuffixTable) (offset : Nat) (front back : List Label) :
    Option (Nat × Nat) → Prop
  | nothing (all : back = []) : Finds table offset front back none
  | known {place : Nat} (some_back : back ≠ [])
      (here : table.lookup (wireOf back) = some place) :
      Finds table offset front back (some (offset + (labelOctets front).length, place))

/-- What a search learns: suffixes that start in front of what it finds. -/
def Learns (place : Nat) (front back : List Label) (learnt : SuffixTable) : Prop :=
  ∀ entry ∈ learnt, ∃ skipped kept, front = skipped ++ kept ∧
    entry = (wireOf (kept ++ back), place + (labelOctets skipped).length) ∧ entry.2 < reach

theorem search_finds (table : SuffixTable) (start offset : Nat) (labels : List Label) :
    ∃ front back, labels = front ++ back ∧
      Finds table offset front back (table.search start (suffixesFrom offset labels)).1 ∧
      Learns (start + offset) front back (table.search start (suffixesFrom offset labels)).2 := by
  induction labels generalizing offset with
  | nil => exact ⟨[], [], rfl, .nothing rfl, fun _ h => nomatch h⟩
  | cons l labels ih =>
      rw [suffixesFrom, search]
      cases known : table.lookup (wireOf (l :: labels)) with
      | some place => exact ⟨[], l :: labels, rfl, .known (by simp) known, fun _ h => nomatch h⟩
      | none =>
          obtain ⟨front, back, rfl, found, learns⟩ := ih (offset + l.wire.length)
          generalize table.search start (suffixesFrom (offset + l.wire.length) (front ++ back)) =
            result at found learns
          obtain ⟨first, learnt⟩ := result
          refine ⟨l :: front, back, rfl, ?_, ?_⟩
          · cases found with
            | nothing all => exact .nothing all
            | known some_back here =>
                dsimp only
                rw [Nat.add_assoc, ← List.length_append, ← labelOctets_cons]
                exact .known some_back here
          · have later : Learns (start + offset) (l :: front) back learnt := by
              intro entry known
              obtain ⟨skipped, kept, rfl, same, reached⟩ := learns entry known
              refine ⟨l :: skipped, kept, rfl, ?_, reached⟩
              rw [same, labelOctets_cons, List.length_append]
              simp only [Nat.add_assoc]
            intro entry known
            dsimp only at known
            split at known
            · rcases List.mem_cons.mp known with rfl | known
              · exact ⟨[], l :: front, rfl, by simp, by assumption⟩
              · exact later entry known
            · exact later entry known

/-- A compressed name continues its message with its own labels, and what was learnt from it is
true of the longer message. -/
theorem compress_sound {table : SuffixTable} {message : Octets} (sound : Sound table message)
    (name : Name) :
    let (octets, learnt) := table.compress message.length name
    Written message name octets ∧ Sound (learnt ++ table) (message ++ octets) := by
  obtain ⟨front, back, split, found, learns⟩ :=
    search_finds table message.length 0 name.labels
  rw [compress, suffixes]
  generalize table.search message.length (suffixesFrom 0 name.labels) = result at found learns
  obtain ⟨first, learnt⟩ := result
  dsimp only at found learns ⊢
  cases found with
  | nothing all =>
      subst all
      refine ⟨.whole, sound_append.mpr ⟨?_, sound.append _⟩⟩
      intro entry known
      obtain ⟨skipped, kept, rfl, same, reached⟩ := learns entry known
      rw [same] at reached ⊢
      refine ⟨reached, kept, by simp, ?_⟩
      have here : message ++ name.wire =
          (message ++ labelOctets skipped) ++ wireOf kept ++ [] := by
        simp [Name.wire, split, wireOf_append]
      have spelled := Spelled.whole here
      rwa [List.length_append] at spelled
  | @known place some_back here =>
      -- The labels in front end in a pointer, and so does every suffix learnt from them.
      obtain ⟨reached, spelled⟩ := sound.spelled here
      have taken : name.wire.take (0 + (labelOctets front).length) = labelOctets front := by
        rw [Nat.zero_add, Name.wire, split, wireOf_append, List.take_left]
      dsimp only
      rw [taken]
      refine ⟨.pointed split spelled.place_lt reached spelled,
        sound_append.mpr ⟨?_, sound.append _⟩⟩
      intro entry known
      obtain ⟨skipped, kept, rfl, same, entry_reached⟩ := learns entry known
      rw [same] at entry_reached ⊢
      refine ⟨entry_reached, kept ++ back, rfl, ?_⟩
      have there : message ++ (labelOctets (skipped ++ kept) ++ pointer place) =
          (message ++ labelOctets skipped) ++ (labelOctets kept ++ pointer place) ++ [] := by
        simp [labelOctets_append]
      have earlier : place < (message ++ labelOctets skipped).length := by
        have before := spelled.place_lt
        rw [List.length_append]
        omega
      have whole := Spelled.pointed there earlier reached (spelled.append _)
      rwa [List.length_append] at whole

theorem Sound.place_lt {table : SuffixTable} {message : Octets} (h : Sound table message)
    {entry : Octets × Nat} (known : entry ∈ table) : entry.2 < message.length := by
  obtain ⟨-, labels, -, spelled⟩ := h entry known
  exact spelled.place_lt

/-- What is learnt from a name starts in that name. -/
theorem le_place_of_learnt {table : SuffixTable} {start : Nat} {name : Name}
    {entry : Octets × Nat} (learnt : entry ∈ (table.compress start name).2) : start ≤ entry.2 := by
  obtain ⟨front, back, -, -, learns⟩ := search_finds table start 0 name.labels
  have same : (table.compress start name).2 = (table.search start name.suffixes).2 := by
    rw [compress]
    split <;> rename_i found <;> rw [found]
  rw [same, suffixes] at learnt
  obtain ⟨skipped, kept, -, rfl, -⟩ := learns entry learnt
  exact Nat.le_add_right start _

theorem length_compress_le (table : SuffixTable) (start : Nat) (name : Name) :
    (table.compress start name).1.length ≤ name.length := by
  obtain ⟨front, back, split, found, -⟩ := search_finds table start 0 name.labels
  rw [compress, suffixes]
  generalize table.search start (suffixesFrom 0 name.labels) = result at found
  obtain ⟨first, learnt⟩ := result
  dsimp only at found ⊢
  cases found with
  | nothing all => exact Nat.le_refl _
  | @known place some_back here =>
      have pairs := length_labels_le back
      have pos := List.length_pos_iff.mpr some_back
      have length : name.length = (labelOctets front).length + (labelOctets back).length + 1 := by
        rw [Name.length, Name.wire, split, wireOf_eq, labelOctets_append]
        simp [Nat.add_assoc]
      simp only [List.length_append, List.length_take, length_pointer]
      omega

end SuffixTable
end ZoneSync
