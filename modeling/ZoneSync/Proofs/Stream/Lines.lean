import ZoneSync.Proofs.Stream.Ending
import ZoneSync.Proofs.Text.Printing
import ZoneSync.Stream.Line

/-!
Lines that are written and read. A text that fits into a line is read as it was written; a longer
one is refused.
-/

namespace ZoneSync.Line

/-- A text without the characters that end a line. -/
def Unbroken (text : String) : Prop := ∀ b ∈ Octets.ofText text, b ≠ 0x0a ∧ b ≠ 0x0d

/-- Words of visible characters with blanks between them stand in one line. -/
theorem unbroken_intercalate {ws : List String} (h : ∀ w ∈ ws, ∀ c ∈ w.toList, IsGraphic c) :
    Unbroken (" ".intercalate ws) := by
  have printed c (known : c ∈ (" ".intercalate ws).toList) : 0x20 ≤ c.toNat ∧ c.toNat ≤ 0x7e := by
    rcases Blank.mem_intercalate known with rfl | ⟨w, word, inside⟩
    · decide
    · exact ⟨Nat.le_of_succ_le (h w word c inside).1, (h w word c inside).2⟩
  intro b known
  rw [Octets.ofText_eq fun c known => Nat.lt_of_le_of_lt (printed c known).2 (by decide)] at known
  obtain ⟨c, inside, rfl⟩ := List.mem_map.mp known
  have visible : (0x20 : UInt8) ≤ UInt8.ofNat c.toNat := by
    have code := printed c inside
    rw [UInt8.le_iff_toNat_le, UInt8.toNat_ofNat', Nat.mod_eq_of_lt (by omega)]
    exact code.1
  exact ⟨fun ends => absurd (ends ▸ visible) (by decide),
    fun ends => absurd (ends ▸ visible) (by decide)⟩

theorem write_eq {σ : Type} [WriteStream σ] {Has : σ → Octets → Prop} {s : σ} {got : Octets}
    (sink : Sink Has) (text : String) (has : Has s got) :
    ∃ s', write text s = .ok () s' ∧ Has s' (got ++ (Octets.ofText text ++ [0x0a])) := by
  obtain ⟨middle, first, has⟩ := writeAll_eq sink (Octets.ofText text) has
  obtain ⟨s', second, has⟩ := writeAll_eq sink [0x0a] has
  exact ⟨s', (bind_of_ok first).trans second, by rwa [← List.append_assoc]⟩

variable {σ : Type} [ReadStream σ] {At : σ → Octets → Octets → Prop} {before : Octets}

theorem yields_gather (source : Source At) {room : Nat} {taken o : Octets}
    (unbroken : ∀ b ∈ o, b ≠ 0x0a) (fits : o.length ≤ room) :
    Yields At before (gather room taken) (o ++ [0x0a]) (taken.reverse ++ o) := by
  induction o generalizing before room taken with
  | nil =>
      intro s rest hs
      obtain ⟨s', got, hs⟩ := yields_readUInt8 source 0x0a s rest hs
      refine ⟨s', ?_, hs⟩
      rw [gather.eq_def, got]
      simp
  | cons b o ih =>
      intro s rest hs
      obtain ⟨first, later⟩ := List.forall_mem_cons.mp unbroken
      obtain ⟨room, rfl⟩ := Nat.exists_eq_succ_of_ne_zero (Nat.ne_of_gt (Nat.zero_lt_of_lt fits))
      obtain ⟨middle, got, hs⟩ := yields_readUInt8 source b s (o ++ [0x0a] ++ rest) hs
      have others : Yields At (before ++ [b]) (gather room (b :: taken)) (o ++ [0x0a])
          ((b :: taken).reverse ++ o) := ih later (Nat.le_of_succ_le_succ fits)
      obtain ⟨s', more, hs⟩ := others middle rest hs
      refine ⟨s', ?_, by simpa using hs⟩
      rw [gather.eq_def, got]
      simpa [first] using more

/-- A line is refused at the first octet for which there is no room. -/
theorem gather_long (source : Source At) {room : Nat} (before taken : Octets) {o rest : Octets}
    {s : σ} (unbroken : ∀ b ∈ o, b ≠ 0x0a) (long : room < o.length)
    (hs : At s before (o ++ rest)) :
    ∃ s', gather room taken s = .error .longLine s' ∧
      At s' (before ++ o.take (room + 1)) (o.drop (room + 1) ++ rest) := by
  induction o generalizing before room taken s with
  | nil => simp at long
  | cons b o ih =>
      obtain ⟨first, later⟩ := List.forall_mem_cons.mp unbroken
      obtain ⟨middle, got, hs⟩ := yields_readUInt8 source b s (o ++ rest) hs
      cases room with
      | zero =>
          refine ⟨middle, ?_, hs⟩
          rw [gather.eq_def, got]
          simp [first]
      | succ room =>
          obtain ⟨s', more, hs⟩ := ih _ (b :: taken) later (Nat.lt_of_succ_lt_succ long) hs
          refine ⟨s', ?_, by simpa using hs⟩
          rw [gather.eq_def, got]
          simpa [first] using more

theorem chomp_of_unbroken {text : String} (h : Unbroken text) :
    chomp (Octets.ofText text) = Octets.ofText text := by
  rw [chomp]
  split
  · rename_i ends
    exact absurd rfl (h 0x0d (List.mem_of_getLast? ends)).2
  · rfl

/-- The octets of a text that has room in a line are gathered up to the end of the line. -/
theorem yields_gather_text (source : Source At) {text : String} (unbroken : Unbroken text)
    {room : Nat} (fits : (Octets.ofText text).length ≤ room) :
    Yields At before (gather room []) (Octets.ofText text ++ [0x0a]) (Octets.ofText text) :=
  yields_gather source (fun b known => (unbroken b known).1) fits

theorem yields_read (source : Source At) {text : String} (unbroken : Unbroken text) {limit : Nat}
    (fits : (Octets.ofText text).length ≤ limit) :
    Yields At before (read limit) (Octets.ofText text ++ [0x0a]) text := by
  intro s rest hs
  obtain ⟨s', got, hs⟩ := yields_gather_text source unbroken (Nat.le_succ_of_le fits) s rest hs
  refine ⟨s', ?_, hs⟩
  rw [read, bind_of_ok got]
  rw [chomp_of_unbroken unbroken, if_neg (Nat.not_lt.mpr fits), Octets.toText?_ofText]
  rfl

/-- A text that is longer than the limit is not read as a line. -/
theorem read_long (source : Source At) {text : String} (unbroken : Unbroken text) {limit : Nat}
    (long : limit < (Octets.ofText text).length) {s : σ} {rest : Octets}
    (hs : At s before (Octets.ofText text ++ 0x0a :: rest)) :
    ∃ s', read limit s = .error .longLine s' := by
  by_cases room : (Octets.ofText text).length ≤ limit + 1
  · obtain ⟨s', got, -⟩ := yields_gather_text source unbroken room s rest (by simpa using hs)
    refine ⟨s', ?_⟩
    rw [read, bind_of_ok got]
    rw [chomp_of_unbroken unbroken, if_pos long]
    rfl
  · obtain ⟨s', got, -⟩ :=
      gather_long source before [] (fun b known => (unbroken b known).1) (Nat.not_le.mp room) hs
    exact ⟨s', by rw [read, bind_of_error got]⟩

/-- A line reaches as far as the first line feed. -/
theorem feed_append_inj {o p rest more : Octets} (ho : 0x0a ∉ o) (hp : 0x0a ∉ p)
    (h : o ++ 0x0a :: rest = p ++ 0x0a :: more) : o = p ∧ rest = more := by
  induction o generalizing p with
  | nil =>
      cases p with
      | nil => exact ⟨rfl, (List.cons.inj h).2⟩
      | cons c p => exact absurd ((List.cons.inj h).1 ▸ List.mem_cons_self) hp
  | cons b o ih =>
      cases p with
      | nil => exact absurd ((List.cons.inj h).1 ▸ List.mem_cons_self) ho
      | cons c p =>
          obtain ⟨rfl, later⟩ := List.cons.inj h
          rw [List.mem_cons, not_or] at ho hp
          obtain ⟨rfl, same⟩ := ih ho.2 hp.2 later
          exact ⟨rfl, same⟩

/-- The end of a line and what is behind it: anything behind a line feed, nothing where the stream
has ended. -/
inductive Ending : (ending rest : Octets) → Prop
  | feed (rest : Octets) : Ending [0x0a] rest
  | last : Ending [] []

/-- A line that was gathered stood in front of the first line feed, or of the end. -/
theorem gather_eq_ok (faithful : Faithful At) (settles : Settles At) {room : Nat}
    {taken line after : Octets} {s s' : σ} (stands : At s before after)
    (h : gather room taken s = .ok line s') :
    ∃ o ending rest, line = taken.reverse ++ o ∧ after = o ++ (ending ++ rest) ∧ 0x0a ∉ o ∧
      Ending ending rest ∧ At s' (before ++ (o ++ ending)) rest := by
  induction room using Nat.strongRecOn generalizing before taken s after with
  | ind room ih =>
      rw [gather.eq_def] at h
      cases first : readUInt8 s with
      | error e t =>
          rw [first] at h
          cases e with
          | endOfStream =>
              obtain ⟨rfl, ended⟩ := readUInt8_end faithful settles stands first
              dsimp only at h
              split at h
              · cases h
              · obtain ⟨rfl, rfl⟩ := EStateM.Result.ok.inj h
                exact ⟨[], [], [], by simp, rfl, by simp, .last, by simpa using ended⟩
          | _ => cases h
      | ok b middle =>
          rw [first] at h
          obtain ⟨_, rest, rfl, rfl, stands⟩ :=
            takes_readUInt8 faithful s middle after b stands first
          dsimp only at h
          split at h
          · rename_i feed
            obtain ⟨rfl, rfl⟩ := EStateM.Result.ok.inj h
            subst feed
            exact ⟨[], [0x0a], rest, by simp, rfl, by simp, .feed rest, stands⟩
          · rename_i other
            split at h
            · cases h
            · rename_i room
              obtain ⟨o, ending, rest, rfl, rfl, unbroken, ends, stands⟩ :=
                ih room (Nat.lt_succ_self room) stands h
              refine ⟨b :: o, ending, rest, by simp, rfl, ?_, ends, by simpa using stands⟩
              rw [List.mem_cons, not_or]
              exact ⟨Ne.symm other, unbroken⟩

/-- The text of a line is what stood in front of its end, less a carriage return. -/
theorem read_eq_ok (faithful : Faithful At) (settles : Settles At) {limit : Nat} {text : String}
    {after : Octets} {s s' : σ} (stands : At s before after) (h : read limit s = .ok text s') :
    ∃ o ending rest, after = o ++ (ending ++ rest) ∧ 0x0a ∉ o ∧ Ending ending rest ∧
      Octets.toText? (chomp o) = some text ∧ At s' (before ++ (o ++ ending)) rest := by
  obtain ⟨line, middle, gathered, h⟩ := bind_eq_ok.mp h
  obtain ⟨o, ending, rest, same, split, unbroken, ends, stands⟩ :=
    gather_eq_ok faithful settles stands gathered
  obtain rfl : line = o := by simpa using same
  by_cases long : (chomp line).length > limit
  · rw [if_pos long] at h
    cases h
  · rw [if_neg long] at h
    cases decoded : Octets.toText? (chomp line) with
    | none =>
        rw [decoded] at h
        cases h
    | some found =>
        rw [decoded] at h
        obtain ⟨rfl, rfl⟩ := EStateM.Result.ok.inj h
        exact ⟨line, ending, rest, split, unbroken, ends, decoded, stands⟩

end ZoneSync.Line
