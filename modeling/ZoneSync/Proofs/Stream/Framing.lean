import ZoneSync.Proofs.Message.Dissection
import ZoneSync.Proofs.Stream.Delivery
import ZoneSync.Proofs.Stream.ReadAhead

/-!
Messages in frames of which only the first octets arrive. Whatever portions they come in, the
messages that are there as a whole are read, and then the end of the stream is a clean one exactly
if no further message has begun.
-/

namespace ZoneSync

variable {σ : Type}

/-- A stream with a known course hands out the octets that are to come. -/
theorem Plays.source [ReadStream σ] {Left : σ → List Item → Prop} (plays : Plays Left) :
    Source fun s (_ : Octets) after => Left s (after.map .ok) where
  portion := by
    intro s before after n left nonempty pos
    obtain ⟨b, later, rfl⟩ := List.exists_cons_of_ne_nil nonempty
    obtain ⟨o, rest, s', some_octet, short, told, got, left⟩ := plays.portion left pos
    rw [← List.map_cons] at told
    obtain ⟨taken, behind, split, first, rfl⟩ := List.map_eq_append_iff.mp told
    obtain rfl : taken = o := (List.map_inj_right fun _ _ => Except.ok.inj).mp first
    refine ⟨taken.length, s', List.length_pos_iff.mpr some_octet, short, ?_, ?_⟩
    · rw [split, List.take_left, got]
    · rwa [split, List.drop_left]

/-- A stream that ends before the octets are there. -/
theorem gathered_short {n missing : Nat} {o : Octets} (short : o.length < missing) :
    gathered n missing (o.map .ok) =
      (.error (failedAt n (missing - o.length) .endOfStream), []) := by
  obtain ⟨others, rfl⟩ := Nat.exists_eq_add_of_lt short
  have cut := gathered_append n (others + 1) o []
  rw [List.append_nil] at cut
  rw [Nat.add_assoc, cut, Nat.add_sub_cancel_left]
  rfl

/-- Octets of which some are missing are an error, and the stream is at its end behind it. -/
theorem readOctets_short [ReadStream σ] {Left : σ → List Item → Prop} (plays : Plays Left)
    {n : Nat} {o : Octets} (short : o.length < n) {s : σ} (left : Left s (o.map .ok)) :
    ∃ s', readOctets n s =
        .error (if o.length = 0 then .endOfStream else .truncated n o.length) s' ∧
      Left s' [] := by
  have shown := shows_readOctets plays n left
  rw [gathered_short short] at shown
  cases result : readOctets n s with
  | ok got s' => simp [result, Shows] at shown
  | error e s' =>
      rw [result] at shown
      obtain ⟨rfl, left⟩ := shown
      refine ⟨s', ?_, left⟩
      have none_read : n = n - o.length ↔ o.length = 0 := by omega
      have some_read : n - (n - o.length) = o.length := by omega
      simp only [failedAt, none_read, some_read, StreamError.toTruncated]

namespace Framing

@[simp] theorem length_frame (message : Octets) : (frame message).length = message.length + 2 := by
  simp [frame, Nat.add_comm]

section Read

variable [ReadStream σ] {Left : σ → List Item → Prop} {message : Octets}

/-- A stream that ends inside a frame is truncated, in the length or behind it. -/
theorem read_begun (plays : Plays Left) (size : message.length ≤ 65535) {k : Nat} (begun : 0 < k)
    (short : k < (frame message).length) {s : σ}
    (left : Left s (((frame message).take k).map .ok)) :
    ∃ s', read s =
        .error (if k = 1 then .truncated 2 1 else .truncated message.length (k - 2)) s' ∧
      Left s' [] := by
  rw [length_frame] at short
  by_cases one : k = 1
  · have octet : ((frame message).take k).length = 1 := by
      rw [List.length_take, length_frame]
      omega
    obtain ⟨s', failed, left⟩ := readOctets_short (n := 2) plays (by omega) left
    refine ⟨s', ?_, left⟩
    have cut : readUInt16 s = .error (.truncated 2 1) s' := by
      refine bind_of_error ?_
      rw [failed, octet]
      rfl
    simp only [read, cut, if_pos one]
  · have split : (frame message).take k =
        Octets.ofUInt16 (UInt16.ofNat message.length) ++ message.take (k - 2) := by
      rw [frame_eq size, List.take_append, List.take_of_length_le (by simp; omega)]
      simp
    rw [split] at left
    have word : Yields _ [] readUInt16 _ _ :=
      yields_readUInt16 plays.source (UInt16.ofNat message.length)
    obtain ⟨middle, first, left⟩ := word s (message.take (k - 2)) left
    have found : (message.take (k - 2)).length = k - 2 := by
      rw [List.length_take]
      omega
    obtain ⟨s', failed, left⟩ := readOctets_short (n := message.length) plays (by omega) left
    rw [found] at failed
    refine ⟨s', ?_, left⟩
    have cut : within message.length 0 (readOctets message.length) middle =
        .error (.truncated message.length (k - 2)) s' := by
      rw [within, EStateM.adaptExcept, failed]
      by_cases none_found : k - 2 = 0 <;> simp [none_found, StreamError.toTruncated]
    simp only [read, first, toNat_length size, cut, if_neg one]

theorem read_ended (plays : Plays Left) {s : σ} (left : Left s []) :
    ∃ s', read s = .ok none s' ∧ Left s' [] := by
  obtain ⟨s', failed, left⟩ := readOctets_short (n := 2) (o := []) plays (Nat.succ_pos 1) left
  have ended : readUInt16 s = .error .endOfStream s' := bind_of_error failed
  exact ⟨s', by simp only [read, ended], left⟩

/-- The octets in front of the message with the given number. -/
def offset (messages : List Octets) (i : Nat) : Nat := ((messages.take i).flatMap frame).length

@[simp] theorem offset_zero (messages : List Octets) : offset messages 0 = 0 := rfl

@[simp] theorem offset_succ (message : Octets) (later : List Octets) (i : Nat) :
    offset (message :: later) (i + 1) = message.length + 2 + offset later i := by
  rw [offset, offset, List.take_succ_cons, List.flatMap_cons, List.length_append, length_frame]

/-- A message starts there, or the last one ends. -/
def IsBoundary (messages : List Octets) (k : Nat) : Prop :=
  ∃ i ≤ messages.length, offset messages i = k

instance (messages : List Octets) (k : Nat) : Decidable (IsBoundary messages k) :=
  inferInstanceAs (Decidable (∃ i, i ≤ messages.length ∧ offset messages i = k))

theorem isBoundary_zero (messages : List Octets) : IsBoundary messages 0 :=
  ⟨0, Nat.zero_le _, rfl⟩

/-- Behind a first message the boundaries are those of the others. -/
theorem isBoundary_cons {later : List Octets} {k : Nat} (pos : 0 < k) :
    IsBoundary (message :: later) k ↔
      message.length + 2 ≤ k ∧ IsBoundary later (k - (message.length + 2)) := by
  constructor
  · intro ⟨i, inside, at_k⟩
    cases i with
    | zero =>
        rw [offset_zero] at at_k
        omega
    | succ i =>
        rw [offset_succ] at at_k
        exact ⟨by omega, i, Nat.le_of_succ_le_succ inside, by omega⟩
  · intro ⟨room, i, inside, at_k⟩
    refine ⟨i + 1, Nat.succ_le_succ inside, ?_⟩
    rw [offset_succ, at_k]
    omega

/-- Of the messages exactly the first `n` lie completely within the first `k` octets. -/
structure Whole (messages : List Octets) (k n : Nat) : Prop where
  few : n ≤ messages.length
  within : ∀ i ≤ messages.length, i ≤ n ↔ offset messages i ≤ k

theorem whole_nil (k : Nat) : Whole [] k 0 where
  few := Nat.le_refl _
  within i there := by simp [Nat.le_zero.mp there]

theorem whole_none {later : List Octets} {k : Nat} (short : k < message.length + 2) :
    Whole (message :: later) k 0 where
  few := Nat.zero_le _
  within i _ := by
    cases i with
    | zero => simp
    | succ i =>
        rw [offset_succ]
        omega

theorem Whole.cons {later : List Octets} {k n : Nat} (fits : message.length + 2 ≤ k)
    (h : Whole later (k - (message.length + 2)) n) : Whole (message :: later) k (n + 1) where
  few := Nat.succ_le_succ h.few
  within i there := by
    cases i with
    | zero => simp
    | succ i =>
        have same := h.within i (Nat.le_of_succ_le_succ there)
        rw [offset_succ]
        omega

/-- What the messages are followed by, if they are cut behind `k` octets. -/
def Stops (messages : List Octets) (k : Nat) (s : σ) : Prop :=
  ∃ last, (IsBoundary messages k → read s = .ok none last) ∧
    (¬ IsBoundary messages k →
      ∃ expected found, read s = .error (.truncated expected found) last)

theorem stops_zero (plays : Plays Left) (messages : List Octets) {s : σ} (left : Left s []) :
    Stops messages 0 s := by
  obtain ⟨last, ended, -⟩ := read_ended plays left
  exact ⟨last, fun _ => ended, fun off => absurd (isBoundary_zero messages) off⟩

theorem stops_begun (plays : Plays Left) (size : message.length ≤ 65535) {later : List Octets}
    {k : Nat} (begun : 0 < k) (short : k < message.length + 2) {s : σ}
    (left : Left s (((frame message).take k).map .ok)) : Stops (message :: later) k s := by
  obtain ⟨last, failed, -⟩ := read_begun plays size begun (by rwa [length_frame]) left
  refine ⟨last, ?_, ?_⟩
  · intro at_k
    exact absurd ((isBoundary_cons begun).mp at_k).1 (Nat.not_le.mpr short)
  · intro _
    rw [failed]
    split
    · exact ⟨2, 1, rfl⟩
    · exact ⟨message.length, k - 2, rfl⟩

theorem Stops.cons {later : List Octets} {k : Nat} (fits : message.length + 2 ≤ k) {s : σ}
    (h : Stops later (k - (message.length + 2)) s) : Stops (message :: later) k s := by
  obtain ⟨last, clean, torn⟩ := h
  have boundary : IsBoundary (message :: later) k ↔
      message.length + 2 ≤ k ∧ IsBoundary later (k - (message.length + 2)) :=
    isBoundary_cons (by omega)
  refine ⟨last, ?_, ?_⟩
  · intro at_k
    exact clean (boundary.mp at_k).2
  · intro off
    exact torn fun at_k => off (boundary.mpr ⟨fits, at_k⟩)

/-- The messages read from the first octets of their frames are those that are there as a whole,
and what stops the reading tells whether another one has begun. -/
theorem exists_inTurn (plays : Plays Left) {messages : List Octets}
    (sizes : ∀ m ∈ messages, m.length ≤ 65535) {k : Nat}
    (inside : k ≤ (messages.flatMap frame).length) {s : σ}
    (left : Left s (((messages.flatMap frame).take k).map .ok)) :
    ∃ n middle, Whole messages k n ∧ InTurn read s ((messages.take n).map some) middle ∧
      Stops messages k middle := by
  induction messages generalizing k s with
  | nil =>
      obtain rfl : k = 0 := Nat.le_zero.mp inside
      exact ⟨0, s, whole_nil 0, .nil, stops_zero plays [] left⟩
  | cons message later ih =>
      obtain ⟨size, sizes⟩ := List.forall_mem_cons.mp sizes
      rw [List.flatMap_cons] at inside left
      by_cases fits : message.length + 2 ≤ k
      · -- The first message is there as a whole, and the cut is one of the others.
        have split : (frame message ++ later.flatMap frame).take k =
            frame message ++ (later.flatMap frame).take (k - (message.length + 2)) := by
          rw [List.take_append, List.take_of_length_le (by simpa using fits), length_frame]
        rw [split] at left
        rw [List.length_append, length_frame] at inside
        have first : Yields _ [] read (frame message) (some message) :=
          yields_read plays.source size
        obtain ⟨behind, got, left⟩ := first s _ left
        obtain ⟨n, middle, whole, others, stops⟩ := ih sizes (by omega) left
        exact ⟨n + 1, middle, whole.cons fits, .cons got others, stops.cons fits⟩
      · have short : k < message.length + 2 := Nat.not_le.mp fits
        have begun : (frame message ++ later.flatMap frame).take k = (frame message).take k :=
          List.take_append_of_le_length (by rw [length_frame]; omega)
        rw [begun] at left
        refine ⟨0, s, whole_none short, .nil, ?_⟩
        cases k with
        | zero => exact stops_zero plays _ left
        | succ k => exact stops_begun plays size (Nat.succ_pos k) short left

end Read

section Write

variable [WriteStream σ]

theorem forM_write {Has : σ → Octets → Prop} (sink : Sink Has) {messages : List Octets}
    (sizes : ∀ m ∈ messages, m.length ≤ 65535) {w : σ} {start : Octets} (has : Has w start) :
    ∃ w', messages.forM write w = .ok () w' ∧ Has w' (start ++ messages.flatMap frame) := by
  induction messages generalizing w start with
  | nil => exact ⟨w, rfl, by simpa using has⟩
  | cons message later ih =>
      obtain ⟨size, sizes⟩ := List.forall_mem_cons.mp sizes
      obtain ⟨middle, first, has⟩ := write_eq sink size has
      obtain ⟨w', rest, has⟩ := ih sizes has
      exact ⟨w', (bind_of_ok first).trans rest, by simpa using has⟩

theorem write_long {message : Octets} (long : 65535 < message.length) (w : σ) :
    write message w = .error .limitExceeded w := by
  rw [write, if_pos long]
  rfl

end Write

/-- Of messages that were written and cut anywhere, those that have arrived as a whole are read,
in order and unchanged. Then the stream has ended cleanly if the cut is between messages, and it is
truncated if it is not. A message that is too long for its length to be written is not begun. -/
theorem read_cut :
    (∀ {σ τ : Type} [WriteStream σ] [ReadStream τ] {Has : σ → Octets → Prop}
      {Left : τ → List Item → Prop}, Sink Has → Plays Left →
      ∀ messages : List Octets, (∀ m ∈ messages, m.length ≤ 65535) →
      ∀ (w : σ) start, Has w start → ∃ w' octets, messages.forM write w = .ok () w' ∧
        Has w' (start ++ octets) ∧ octets.length = offset messages messages.length ∧
        ∀ k ≤ octets.length, ∀ s : τ, Left s ((octets.take k).map .ok) →
          ∃ n middle last, Whole messages k n ∧
            InTurn read s ((messages.take n).map some) middle ∧
            (IsBoundary messages k → read middle = .ok none last) ∧
            (¬ IsBoundary messages k →
              ∃ expected found, read middle = .error (.truncated expected found) last)) ∧
    ∀ {σ : Type} [WriteStream σ] (message : Octets) (w : σ), 65535 < message.length →
      write message w = .error .limitExceeded w := by
  constructor
  · intro σ τ _ _ Has Left sink plays messages sizes w start has
    obtain ⟨w', written, has⟩ := forM_write sink sizes has
    refine ⟨w', messages.flatMap frame, written, has, by rw [offset, List.take_length], ?_⟩
    intro k inside s left
    obtain ⟨n, middle, whole, turn, last, clean, torn⟩ := exists_inTurn plays sizes inside left
    exact ⟨n, middle, last, whole, turn, clean, torn⟩
  · intro σ _ message w long
    exact write_long long w

/-- Of three messages, one of them empty, the last one is torn. -/
theorem read_cut_chunks :
    let messages : List Octets := [[7], [], [8, 9]]
    let channel : InboundChannel :=
      { arrivals := [.chunk [0], .chunk [1, 7, 0], .chunk [0, 0, 2, 8]] }
    ∃ w' middle last expected found,
      messages.forM write ({} : MemoryWriter) = .ok () w' ∧
      channel.arrivals.flatMap Arrival.items = (w'.content.take 8).map .ok ∧
      InTurn read channel [some [7], some []] middle ∧
      read middle = .error (.truncated expected found) last := by
  intro messages channel
  have few : ∀ m ∈ messages, m.length ≤ 65535 := by decide
  obtain ⟨w', octets, written, ⟨-, content⟩, size, cut⟩ := read_cut.1 MemoryWriter.sink
    InboundChannel.plays messages few {} [] ⟨rfl, rfl⟩
  obtain rfl : w' = { content := [0, 1, 7, 0, 0, 0, 2, 8, 9] } :=
    (EStateM.Result.ok.inj (written.symm.trans rfl)).2
  obtain rfl : octets = _ := content.symm
  obtain ⟨n, middle, last, whole, turn, -, torn⟩ := cut 8 (by decide) channel ⟨rfl, rfl⟩
  have two : n = 2 := by
    have second := (whole.within 2 (by decide)).mpr (by decide)
    have third := mt (whole.within 3 (by decide)).mp (by decide)
    omega
  subst two
  obtain ⟨expected, found, failed⟩ := torn (by decide)
  exact ⟨_, middle, last, expected, found, written, rfl, turn, failed⟩

end Framing
end ZoneSync
