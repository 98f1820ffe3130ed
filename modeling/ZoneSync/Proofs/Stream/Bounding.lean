import ZoneSync.Proofs.Stream.Framing
import ZoneSync.Proofs.Stream.Lines

/-!
Lines of a bounded length, off a stream that hands out octets in any portions and then ends. What is
read is told from the octets up to the first line feed. The carriage return in front of it does not
count, so one octet more than the limit is let through before a line is refused.
-/

namespace ZoneSync.Line

/-- The octets in front of the first line feed, or all of them if there is none. -/
def raw (o : Octets) : Octets := o.takeWhile (· ≠ 0x0a)

/-- What is in front of the first line feed, less one carriage return at its end. -/
def content (o : Octets) : Octets := chomp (raw o)

theorem raw_feed (o : Octets) : raw (0x0a :: o) = [] := rfl

theorem raw_cons {b : UInt8} (other : b ≠ 0x0a) (o : Octets) : raw (b :: o) = b :: raw o := by
  simp [raw, other]

theorem ne_feed_of_mem_raw {o : Octets} : ∀ b ∈ raw o, b ≠ 0x0a := by
  induction o with
  | nil => simp [raw]
  | cons b o ih =>
      by_cases feed : b = 0x0a
      · simp [feed, raw_feed]
      · rw [raw_cons feed]
        exact List.forall_mem_cons.mpr ⟨feed, ih⟩

/-- Behind a line its end comes, and then what is left once both are taken. -/
theorem raw_split (o : Octets) :
    ∃ ending, o = raw o ++ (ending ++ o.drop ((raw o).length + 1)) ∧
      Ending ending (o.drop ((raw o).length + 1)) := by
  induction o with
  | nil => exact ⟨[], rfl, .last⟩
  | cons b o ih =>
      by_cases feed : b = 0x0a
      · rw [feed, raw_feed]
        exact ⟨[0x0a], rfl, .feed o⟩
      · obtain ⟨ending, split, ends⟩ := ih
        rw [raw_cons feed, List.length_cons, List.drop_succ_cons]
        exact ⟨ending, congrArg (b :: ·) split, ends⟩

theorem raw_append_feed {o : Octets} (unbroken : ∀ b ∈ o, b ≠ 0x0a) (rest : Octets) :
    raw (o ++ 0x0a :: rest) = o := by
  rw [raw, List.takeWhile_append_of_pos (by simpa using unbroken)]
  simp

theorem length_le_chomp (o : Octets) : o.length ≤ (chomp o).length + 1 := by
  rw [chomp]
  split
  · rw [List.length_dropLast]
    omega
  · exact Nat.le_succ _

section Read

variable {σ : Type} [ReadStream σ] {Left : σ → List Item → Prop} {s : σ} {o taken : Octets}
  {room limit : Nat}

theorem readUInt8_ended (plays : Plays Left) (left : Left s []) :
    ∃ s', readUInt8 s = .error .endOfStream s' ∧ Left s' [] := by
  obtain ⟨s', failed, left⟩ := readOctets_short (n := 1) (o := []) plays Nat.one_pos left
  exact ⟨s', bind_of_error failed, left⟩

theorem gather_none (plays : Plays Left) (room : Nat) (left : Left s []) :
    ∃ s', gather room [] s = .error .endOfStream s' ∧ Left s' [] := by
  obtain ⟨s', failed, left⟩ := readUInt8_ended plays left
  refine ⟨s', ?_, left⟩
  rw [gather.eq_def, failed]
  rfl

/-- A last line without a line feed is gathered up to the end of the stream, once it has begun. -/
theorem gather_last (plays : Plays Left) (unbroken : ∀ b ∈ o, b ≠ 0x0a) (fits : o.length ≤ room)
    (begun : taken ++ o ≠ []) (left : Left s (o.map .ok)) :
    ∃ s', gather room taken s = .ok (taken.reverse ++ o) s' ∧ Left s' [] := by
  induction o generalizing room taken s with
  | nil =>
      obtain ⟨s', failed, left⟩ := readUInt8_ended plays left
      have some_taken : taken.isEmpty = false := by simpa using begun
      refine ⟨s', ?_, left⟩
      rw [gather.eq_def, failed]
      simp [some_taken]
  | cons b o ih =>
      obtain ⟨first, later⟩ := List.forall_mem_cons.mp unbroken
      obtain ⟨room, rfl⟩ := Nat.exists_eq_succ_of_ne_zero (Nat.ne_of_gt (Nat.zero_lt_of_lt fits))
      have octet : Yields _ [] readUInt8 [b] b := yields_readUInt8 plays.source b
      obtain ⟨middle, got, left⟩ := octet s o left
      obtain ⟨s', more, left⟩ : ∃ s', gather room (b :: taken) middle =
          .ok ((b :: taken).reverse ++ o) s' ∧ Left s' [] :=
        ih later (Nat.le_of_succ_le_succ fits) (List.cons_ne_nil _ _) left
      refine ⟨s', ?_, left⟩
      rw [gather.eq_def, got]
      simpa [first] using more

/-- A line that fits is gathered, and its line feed is taken. -/
theorem gather_raw (plays : Plays Left) (some_octet : o ≠ []) (fits : (raw o).length ≤ room)
    (left : Left s (o.map .ok)) :
    ∃ s', gather room [] s = .ok (raw o) s' ∧
      Left s' ((o.drop ((raw o).length + 1)).map .ok) := by
  have unbroken := ne_feed_of_mem_raw (o := o)
  obtain ⟨ending, split, ends⟩ := raw_split o
  generalize o.drop ((raw o).length + 1) = rest at split ends ⊢
  generalize raw o = line at fits unbroken split ⊢
  subst split
  cases ends with
  | feed =>
      have line_read : Yields _ [] (gather room []) (line ++ [0x0a]) ([].reverse ++ line) :=
        yields_gather plays.source unbroken fits
      exact line_read s rest (by simpa using left)
  | last =>
      rw [List.append_nil, List.append_nil] at left some_octet
      exact gather_last plays unbroken fits some_octet left

/-- A longer line is refused at the first octet for which there is no room. -/
theorem gather_over (plays : Plays Left) (long : room < (raw o).length)
    (left : Left s (o.map .ok)) :
    ∃ s', gather room [] s = .error .longLine s' ∧ Left s' ((o.drop (room + 1)).map .ok) := by
  have unbroken := ne_feed_of_mem_raw (o := o)
  obtain ⟨ending, split, -⟩ := raw_split o
  generalize o.drop ((raw o).length + 1) = rest at split
  generalize raw o = line at long unbroken split
  subst split
  rw [List.drop_append_of_le_length long]
  exact gather_long plays.source [] [] unbroken long left

/-- What is made of a line that was gathered. -/
theorem read_of_gather {line : Octets} {s' : σ} (h : gather (limit + 1) [] s = .ok line s') :
    (limit < (chomp line).length → read limit s = .error .longLine s') ∧
    ((chomp line).length ≤ limit →
      (∀ text, Octets.ofText text = chomp line → read limit s = .ok text s') ∧
      ((∀ text, Octets.ofText text ≠ chomp line) → read limit s = .error .badText s')) := by
  rw [read, bind_of_ok h]
  refine ⟨fun long => by rw [if_pos long]; rfl, fun fits => ?_⟩
  rw [if_neg (Nat.not_lt.mpr fits)]
  constructor
  · intro text octets
    rw [← octets, Octets.toText?_ofText]
    rfl
  · intro none_such
    cases decoded : Octets.toText? (chomp line) with
    | none => rfl
    | some text => exact absurd (Octets.ofText_of_toText? decoded) (none_such text)

theorem read_none_left (plays : Plays Left) (limit : Nat) (left : Left s []) :
    ∃ s', read limit s = .error .endOfStream s' ∧ Left s' [] := by
  obtain ⟨s', failed, left⟩ := gather_none plays (limit + 1) left
  exact ⟨s', bind_of_error failed, left⟩

/-- A line of which the content fits is taken as a whole. -/
theorem gather_content (plays : Plays Left) (some_octet : o ≠ [])
    (fits : (content o).length ≤ limit) (left : Left s (o.map .ok)) :
    ∃ s', gather (limit + 1) [] s = .ok (raw o) s' ∧
      Left s' ((o.drop ((raw o).length + 1)).map .ok) :=
  gather_raw plays some_octet
    (Nat.le_trans (length_le_chomp (raw o)) (Nat.succ_le_succ fits)) left

theorem read_content (plays : Plays Left) (some_octet : o ≠ []) {text : String}
    (fits : (content o).length ≤ limit) (octets : Octets.ofText text = content o)
    (left : Left s (o.map .ok)) :
    ∃ s', read limit s = .ok text s' ∧ Left s' ((o.drop ((raw o).length + 1)).map .ok) := by
  obtain ⟨s', gathered, left⟩ := gather_content plays some_octet fits left
  exact ⟨s', ((read_of_gather gathered).2 fits).1 text octets, left⟩

theorem read_no_text (plays : Plays Left) (some_octet : o ≠ [])
    (fits : (content o).length ≤ limit) (none_such : ∀ text, Octets.ofText text ≠ content o)
    (left : Left s (o.map .ok)) :
    ∃ s', read limit s = .error .badText s' ∧ Left s' ((o.drop ((raw o).length + 1)).map .ok) := by
  obtain ⟨s', gathered, left⟩ := gather_content plays some_octet fits left
  exact ⟨s', ((read_of_gather gathered).2 fits).2 none_such, left⟩

/-- A line of which the content is too long is refused, at its end or before. -/
theorem read_over (plays : Plays Left) (long : limit < (content o).length)
    (left : Left s (o.map .ok)) :
    ∃ s' n, read limit s = .error .longLine s' ∧ n ≤ limit + 2 ∧ Left s' ((o.drop n).map .ok) := by
  by_cases fits : (raw o).length ≤ limit + 1
  · have some_octet : o ≠ [] := by
      rintro rfl
      simp [content, raw, chomp] at long
    obtain ⟨s', gathered, left⟩ := gather_raw plays some_octet fits left
    exact ⟨s', _, (read_of_gather gathered).1 long, Nat.succ_le_succ fits, left⟩
  · obtain ⟨s', failed, left⟩ := gather_over plays (Nat.lt_of_not_le fits) left
    exact ⟨s', _, bind_of_error failed, Nat.le_refl _, left⟩

/-- Only such a line is refused for its length. -/
theorem long_of_read (plays : Plays Left) (left : Left s (o.map .ok)) {s' : σ}
    (h : read limit s = .error .longLine s') : limit < (content o).length := by
  by_contra short
  have fits := Nat.le_of_not_lt short
  by_cases none_left : o = []
  · subst none_left
    obtain ⟨_, other, -⟩ := read_none_left plays limit left
    cases h.symm.trans other
  · by_cases decodes : ∃ text, Octets.ofText text = content o
    · obtain ⟨text, octets⟩ := decodes
      obtain ⟨_, other, -⟩ := read_content plays none_left fits octets left
      cases h.symm.trans other
    · obtain ⟨_, other, -⟩ := read_no_text plays none_left fits (not_exists.mp decodes) left
      cases h.symm.trans other

end Read

section Text

variable {text : String}

theorem ne_feed_of_text (unbroken : '\n' ∉ text.toList) : ∀ b ∈ Octets.ofText text, b ≠ 0x0a := by
  rintro b known rfl
  exact unbroken (Octets.char_mem_of_ascii known (by decide))

theorem chomp_of_text (plain : text.toList.getLast? ≠ some '\r') :
    chomp (Octets.ofText text) = Octets.ofText text := by
  rw [chomp, if_neg]
  exact fun last => plain (Octets.getLast?_of_ascii last (by decide))

/-- A text in one line is the content of its line. -/
theorem content_of_text (unbroken : '\n' ∉ text.toList) (plain : text.toList.getLast? ≠ some '\r')
    (rest : Octets) : raw (Octets.ofText text ++ 0x0a :: rest) = Octets.ofText text ∧
      content (Octets.ofText text ++ 0x0a :: rest) = Octets.ofText text := by
  have line := raw_append_feed (ne_feed_of_text unbroken) rest
  exact ⟨line, by rw [content, line, chomp_of_text plain]⟩

end Text

/-- Off a stream that hands out any octets and then ends, a line is read as follows. If nothing is
left, that is the end of the stream. Otherwise the line is its content, if this is not longer than
the limit and is UTF-8; exactly the octets in front of the line feed, and the line feed if there is
one, have been taken then. It is refused as too long exactly if its content is longer than the
limit, with at most two octets more than the limit taken, and as no text in all other cases. So a
text without a line feed in it and without a carriage return at its end, if it is not longer than
the limit, is read as it was written. -/
theorem read_bounded :
    (∀ {σ : Type} [ReadStream σ] {Left : σ → List Item → Prop}, Plays Left →
      ∀ (limit : Nat) (o : Octets) (s : σ), Left s (o.map .ok) →
        (o = [] → ∃ s', read limit s = .error .endOfStream s' ∧ Left s' []) ∧
        (∀ text, o ≠ [] → (content o).length ≤ limit → Octets.ofText text = content o →
          ∃ s', read limit s = .ok text s' ∧ Left s' ((o.drop ((raw o).length + 1)).map .ok)) ∧
        ((∃ s', read limit s = .error .longLine s') ↔ limit < (content o).length) ∧
        (limit < (content o).length → ∃ s' n, read limit s = .error .longLine s' ∧
          n ≤ limit + 2 ∧ Left s' ((o.drop n).map .ok)) ∧
        (o ≠ [] → (content o).length ≤ limit → (∀ text, Octets.ofText text ≠ content o) →
          ∃ s', read limit s = .error .badText s' ∧
            Left s' ((o.drop ((raw o).length + 1)).map .ok))) ∧
    ∀ {σ τ : Type} [WriteStream σ] [ReadStream τ] {Has : σ → Octets → Prop}
      {Left : τ → List Item → Prop}, Sink Has → Plays Left →
      ∀ (text : String) (limit : Nat), '\n' ∉ text.toList → text.toList.getLast? ≠ some '\r' →
        (Octets.ofText text).length ≤ limit → ∀ (w : σ) start, Has w start →
        ∃ w' octets, write text w = .ok () w' ∧ Has w' (start ++ octets) ∧
          ∀ (rest : Octets) (s : τ), Left s ((octets ++ rest).map .ok) →
            ∃ s', read limit s = .ok text s' ∧ Left s' (rest.map .ok) := by
  constructor
  · intro σ _ Left plays limit o s left
    refine ⟨?_, fun text some_octet fits octets => read_content plays some_octet fits octets left,
      ⟨fun ⟨s', h⟩ => long_of_read plays left h, fun long => ?_⟩,
      fun long => read_over plays long left,
      fun some_octet fits none_such => read_no_text plays some_octet fits none_such left⟩
    · rintro rfl
      exact read_none_left plays limit left
    · obtain ⟨s', -, h, -⟩ := read_over plays long left
      exact ⟨s', h⟩
  · intro σ τ _ _ Has Left sink plays text limit unbroken plain fits w start has
    obtain ⟨w', written, has⟩ := write_eq sink text has
    refine ⟨w', _, written, has, fun rest s left => ?_⟩
    rw [List.append_assoc, List.singleton_append] at left
    obtain ⟨line, same⟩ := content_of_text unbroken plain rest
    rw [← same] at fits
    obtain ⟨s', got, behind⟩ := read_content plays (by simp) fits same.symm left
    refine ⟨s', got, ?_⟩
    rwa [line, List.drop_length_add_append, List.drop_one, List.tail_cons] at behind

/-- The carriage return is one octet more than the limit; a second one belongs to the content. -/
theorem read_bounded_chunks :
    let channel : InboundChannel := { arrivals := [.chunk [0x61], .chunk [0x62, 0x0d, 0x0a, 0x63]] }
    let doubled : InboundChannel := { arrivals := [.chunk [0x61, 0x62, 0x0d], .chunk [0x0d, 0x0a]] }
    (∃ s', read 2 channel = .ok "ab" s' ∧ s'.arrivals.flatMap Arrival.items = [.ok 0x63]) ∧
      ∃ s', read 2 doubled = .error .longLine s' := by
  intro channel doubled
  obtain ⟨-, read_text, -⟩ := read_bounded.1 InboundChannel.plays 2 [0x61, 0x62, 0x0d, 0x0a, 0x63]
    channel ⟨rfl, rfl⟩
  obtain ⟨-, -, refuses, -⟩ := read_bounded.1 InboundChannel.plays 2 [0x61, 0x62, 0x0d, 0x0d, 0x0a]
    doubled ⟨rfl, rfl⟩
  obtain ⟨s', got, -, left⟩ := read_text "ab" (by decide) (by decide) (by decide)
  exact ⟨⟨s', got, left⟩, refuses.mpr (by decide)⟩

end ZoneSync.Line
