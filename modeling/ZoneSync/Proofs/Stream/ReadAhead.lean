import ZoneSync.Proofs.Stream.Playing
import ZoneSync.Stream.Buffered
import ZoneSync.Stream.Channel

/-!
Reading ahead. What a buffered reader holds stands in front of what is still to come from the
stream beneath it. So both have one course ahead of them, and whoever reads cannot tell them apart:
not by the octets, and not by a failure or by the calls made behind one.
-/

namespace ZoneSync

variable {σ τ : Type}

theorem take_append_drop_append (n : Nat) (o : Octets) (rest : List Item) :
    (o.take n).map .ok ++ ((o.drop n).map .ok ++ rest) = o.map .ok ++ rest := by
  rw [← List.append_assoc, ← List.map_append, List.take_append_drop]

namespace BufferedReader

/-- What a reader holds comes before what is left beneath it. -/
def Ahead (Left : σ → List Item → Prop) (b : BufferedReader σ) (items : List Item) : Prop :=
  b.isOpen ∧ 0 < b.capacity ∧ ∃ rest, items = b.held.map .ok ++ rest ∧ Left b.inner rest

theorem ahead_withCapacity {Left : σ → List Item → Prop} {inner : σ} {items : List Item}
    (left : Left inner items) (capacity : Nat) : Ahead Left (withCapacity capacity inner) items :=
  ⟨rfl, Nat.le_max_right capacity 1, items, rfl, left⟩

variable [ReadStream σ] {Left : σ → List Item → Prop} {b : BufferedReader σ} {n : Nat}

theorem read_of_held (opened : b.isOpen) (held : b.held ≠ []) (pos : 0 < n) :
    ReadStream.read n b = handOut n b := by
  have some_n : n ≠ 0 := Nat.ne_of_gt pos
  simp [ReadStream.read, opened, some_n, held]

/-- With nothing held a large request goes to the stream beneath. -/
theorem read_of_large {o : Octets} {inner : σ} (opened : b.isOpen) (held : b.held = [])
    (pos : 0 < n) (large : b.capacity ≤ n) (got : ReadStream.read n b.inner = .ok o inner) :
    ReadStream.read n b = .ok o { b with inner } := by
  have some_n : n ≠ 0 := Nat.ne_of_gt pos
  simp [ReadStream.read, opened, some_n, held, large, got]

/-- For a small request the buffer is filled first. -/
theorem read_of_small {o : Octets} {inner : σ} (opened : b.isOpen) (held : b.held = [])
    (pos : 0 < n) (small : n < b.capacity)
    (got : ReadStream.read b.capacity b.inner = .ok o inner) :
    ReadStream.read n b = handOut n { b with inner, held := o } := by
  have some_n : n ≠ 0 := Nat.ne_of_gt pos
  simp [ReadStream.read, opened, some_n, held, Nat.not_le.mpr small, got]

/-- An error beneath is passed on as it is, however much was asked for. -/
theorem read_error {e : StreamError} {items : List Item} (opened : b.isOpen)
    (room : 0 < b.capacity) (held : b.held = []) (pos : 0 < n)
    (failed : ∀ {m}, 0 < m →
      ∃ inner, ReadStream.read m b.inner = .error e inner ∧ Left inner items) :
    ∃ b', ReadStream.read n b = .error e b' ∧ Ahead Left b' items := by
  have some_n : n ≠ 0 := Nat.ne_of_gt pos
  by_cases large : b.capacity ≤ n
  · obtain ⟨inner, reported, left⟩ := failed pos
    exact ⟨{ b with inner }, by simp [ReadStream.read, opened, some_n, held, large, reported],
      opened, room, items, by simp [held], left⟩
  · obtain ⟨inner, reported, left⟩ := failed room
    exact ⟨{ b with inner }, by simp [ReadStream.read, opened, some_n, held, large, reported],
      opened, room, items, by simp [held], left⟩

theorem plays (plays : Plays Left) : Plays (Ahead Left) where
  portion := by
    rintro b x items n ⟨opened, room, rest, split, left⟩ pos
    by_cases held : b.held = []
    · obtain rfl : Except.ok x :: items = rest := by rw [split, held]; rfl
      by_cases large : b.capacity ≤ n
      · obtain ⟨o, rest, inner, nonempty, short, told, got, left⟩ := plays.portion left pos
        exact ⟨o, rest, { b with inner }, nonempty, short, told,
          read_of_large opened held pos large got, opened, room, rest, by simp [held], left⟩
      · -- The portion that fills the buffer may be larger than what is asked for.
        obtain ⟨o, rest, inner, nonempty, -, told, got, left⟩ := plays.portion left room
        have some_n : n ≠ 0 := Nat.ne_of_gt pos
        refine ⟨o.take n, (o.drop n).map .ok ++ rest, { b with inner, held := o.drop n }, ?_,
          List.length_take_le n o, ?_, read_of_small opened held pos (Nat.not_le.mp large) got,
          opened, room, rest, rfl, left⟩
        · simp [some_n, nonempty]
        · rw [told, take_append_drop_append]
    · have some_n : n ≠ 0 := Nat.ne_of_gt pos
      refine ⟨b.held.take n, (b.held.drop n).map .ok ++ rest, { b with held := b.held.drop n }, ?_,
        List.length_take_le n b.held, ?_, read_of_held opened held pos, opened, room, rest, rfl,
        left⟩
      · simp [some_n, held]
      · rw [split, take_append_drop_append]
  failure := by
    rintro b e items n ⟨opened, room, rest, split, left⟩ pos
    cases held : b.held with
    | nil =>
        obtain rfl : Except.error e :: items = rest := by rw [split, held]; rfl
        exact read_error opened room held pos fun wanted => plays.failure left wanted
    | cons x others => simp [held] at split -- octets that are held are read before the failure
  ended := by
    rintro b n ⟨opened, room, rest, split, left⟩ pos
    obtain ⟨held, rfl⟩ := List.append_eq_nil_iff.mp split.symm
    exact read_error opened room (List.map_eq_nil_iff.mp held) pos fun wanted =>
      plays.ended left wanted

end BufferedReader

/-- What a stream does at a read: it has octets, of which a read takes no more than fit, or it
fails. -/
inductive Cue where
  | chunk (octets : Octets) (nonempty : octets ≠ [])
  | failure (error : StreamError)

def Cue.items : Cue → List Item
  | chunk octets _ => octets.map .ok
  | failure error => [.error error]

/-- A stream that keeps to a script and ends behind it. -/
structure Script where
  cues : List Cue

namespace Script

/-- What is left of a chunk when `n` octets were taken, before what comes later. -/
def rest (n : Nat) (octets : Octets) (later : List Cue) : List Cue :=
  if short : octets.length ≤ n then later
  else .chunk (octets.drop n) (fun all => short (List.drop_eq_nil_iff.mp all)) :: later

theorem items_rest (n : Nat) (octets : Octets) (later : List Cue) :
    (rest n octets later).flatMap Cue.items =
      (octets.drop n).map .ok ++ later.flatMap Cue.items := by
  rw [rest]
  split
  · rename_i short
    rw [List.drop_eq_nil_of_le short]
    rfl
  · rw [List.flatMap_cons, Cue.items]

instance : ReadStream Script where
  read n s :=
    if n = 0 then .ok [] s
    else match s.cues with
      | [] => .error .endOfStream s
      | .chunk octets _ :: later => .ok (octets.take n) ⟨rest n octets later⟩
      | .failure e :: later => .error e ⟨later⟩
  available s := (s.cues.flatMap Cue.items).length
  close s := .ok () s

def Left (s : Script) (items : List Item) : Prop := s.cues.flatMap Cue.items = items

theorem plays : Plays Left where
  portion := by
    rintro ⟨cues⟩ x items n left pos
    have some_n : n ≠ 0 := Nat.ne_of_gt pos
    match cues with
    | [] => cases left
    | .failure e :: later => cases left
    | .chunk octets nonempty :: later =>
        refine ⟨octets.take n, _, ⟨rest n octets later⟩, by simp [some_n, nonempty],
          List.length_take_le n octets, ?_, by simp [ReadStream.read, some_n], rfl⟩
        rw [← left, items_rest, take_append_drop_append]
        rfl
  failure := by
    rintro ⟨cues⟩ e items n left pos
    have some_n : n ≠ 0 := Nat.ne_of_gt pos
    match cues with
    | [] => cases left
    | .chunk (b :: octets) nonempty :: later => cases left
    | .failure e' :: later =>
        obtain ⟨same, rfl⟩ := List.cons.inj left
        obtain rfl := Except.error.inj same
        exact ⟨⟨later⟩, by simp [ReadStream.read, some_n], rfl⟩
  ended := by
    rintro ⟨cues⟩ n left pos
    have some_n : n ≠ 0 := Nat.ne_of_gt pos
    match cues with
    | [] => exact ⟨⟨[]⟩, by simp [ReadStream.read, some_n], rfl⟩
    | .chunk (b :: octets) nonempty :: later => cases left
    | .failure e :: later => cases left

end Script

/-- What a reader sees of an arrival: an interruption is never reported. -/
def Arrival.items : Arrival → List Item
  | chunk [] => [.error .endOfStream]
  | chunk octets => octets.map .ok
  | failure .interrupted => []
  | failure kind => [.error (.io (.plain kind))]

theorem Arrival.items_chunk {octets : Octets} (nonempty : octets ≠ []) :
    (chunk octets).items = octets.map .ok := by
  cases octets with
  | nil => exact absurd rfl nonempty
  | cons => rfl

theorem Arrival.items_failure {kind : IoKind} (reported : kind ≠ .interrupted) :
    (failure kind).items = [.error (.io (.plain kind))] := by
  cases kind with
  | interrupted => exact absurd rfl reported
  | _ => rfl

namespace InboundChannel

def Left (c : InboundChannel) (items : List Item) : Prop :=
  c.isOpen ∧ c.arrivals.flatMap Arrival.items = items

/-- A read takes no more of a chunk than fits. -/
theorem receive_chunk {octets : Octets} (nonempty : octets ≠ []) (n : Nat)
    (later : List Arrival) :
    ∃ rest, receive n (.chunk octets :: later) = (.ok (octets.take n), rest) ∧
      rest.flatMap Arrival.items = (octets.drop n).map .ok ++ later.flatMap Arrival.items := by
  obtain ⟨b, o, rfl⟩ := List.exists_cons_of_ne_nil nonempty
  refine ⟨_, rfl, ?_⟩
  split
  · rename_i short
    rw [List.drop_eq_nil_of_le short]
    rfl
  · rename_i long
    rw [List.flatMap_cons, Arrival.items_chunk fun all => long (List.drop_eq_nil_iff.mp all)]

/-- An interrupted call is made again. -/
theorem read_interrupted {n : Nat} (some_n : n ≠ 0) (later : List Arrival) :
    ReadStream.read n (InboundChannel.mk (.failure .interrupted :: later) true) =
      ReadStream.read n (InboundChannel.mk later true) := by
  simp [ReadStream.read, some_n, receive]

theorem plays : Plays Left where
  portion := by
    rintro ⟨arrivals, _⟩ x items n ⟨rfl, left⟩ pos
    have some_n : n ≠ 0 := Nat.ne_of_gt pos
    induction arrivals with
    | nil => cases left
    | cons arrival later ih =>
        cases arrival with
        | chunk octets =>
            by_cases empty : octets = []
            · subst empty
              cases left
            · obtain ⟨rest, got, behind⟩ := receive_chunk empty n later
              refine ⟨octets.take n, _, ⟨rest, true⟩, by simp [some_n, empty],
                List.length_take_le n octets, ?_, by simp [ReadStream.read, some_n, got], rfl, rfl⟩
              rw [← left, behind, take_append_drop_append, List.flatMap_cons,
                Arrival.items_chunk empty]
        | failure kind =>
            by_cases interrupted : kind = .interrupted
            · subst interrupted
              rw [read_interrupted some_n]
              exact ih left
            · rw [List.flatMap_cons, Arrival.items_failure interrupted] at left
              cases left
  failure := by
    rintro ⟨arrivals, _⟩ e items n ⟨rfl, left⟩ pos
    have some_n : n ≠ 0 := Nat.ne_of_gt pos
    induction arrivals with
    | nil => cases left
    | cons arrival later ih =>
        match arrival with
        | .chunk [] =>
            obtain ⟨same, rfl⟩ := List.cons.inj left
            obtain rfl := Except.error.inj same
            exact ⟨⟨later, true⟩, by simp [ReadStream.read, some_n, receive], rfl, rfl⟩
        | .chunk (b :: o) => cases left
        | .failure kind =>
            by_cases interrupted : kind = .interrupted
            · subst interrupted
              rw [read_interrupted some_n]
              exact ih left
            · rw [List.flatMap_cons, Arrival.items_failure interrupted] at left
              obtain ⟨same, rfl⟩ := List.cons.inj left
              obtain rfl := Except.error.inj same
              exact ⟨⟨later, true⟩, by simp [ReadStream.read, some_n, receive], rfl, rfl⟩
  ended := by
    rintro ⟨arrivals, _⟩ n ⟨rfl, left⟩ pos
    have some_n : n ≠ 0 := Nat.ne_of_gt pos
    induction arrivals with
    | nil => exact ⟨⟨[], true⟩, by simp [ReadStream.read, some_n, receive], rfl, rfl⟩
    | cons arrival later ih =>
        match arrival with
        | .chunk [] | .chunk (b :: o) => cases left
        | .failure kind =>
            by_cases interrupted : kind = .interrupted
            · subst interrupted
              rw [read_interrupted some_n]
              exact ih left
            · rw [List.flatMap_cons, Arrival.items_failure interrupted] at left
              cases left

end InboundChannel

/-- A call of a reader: for so many octets, or for one of the units that are read off octets. -/
inductive ReadCall where
  | octets (n : Nat)
  | uint8
  | uint16
  | uint32
  | name
  | line (limit : Nat)

inductive Reply where
  | octets (o : Octets)
  | uint8 (b : UInt8)
  | uint16 (w : UInt16)
  | uint32 (w : UInt32)
  | name (n : Name)
  | line (text : String)

def ReadCall.perform [ReadStream σ] : ReadCall → StreamM σ Reply
  | octets n => do return .octets (← readOctets n)
  | uint8 => do return .uint8 (← readUInt8)
  | uint16 => do return .uint16 (← readUInt16)
  | uint32 => do return .uint32 (← readUInt32)
  | name => do return .name (← Name.read)
  | line limit => do return .line (← Line.read limit)

/-- What a reader is told that makes the calls one after the other, whatever has failed before. -/
def replies [ReadStream σ] : List ReadCall → σ → List (Except StreamError Reply)
  | [], _ => []
  | call :: later, s =>
    match call.perform s with
    | .ok reply s => .ok reply :: replies later s
    | .error e s => .error e :: replies later s

section Replies

variable [ReadStream σ] [ReadStream τ] {Left : σ → List Item → Prop} {Left' : τ → List Item → Prop}
  (plays : Plays Left) (plays' : Plays Left') (forgets : ∀ s : σ, ReadStream.consumed s = none)
  (forgets' : ∀ t : τ, ReadStream.consumed t = none)
include plays plays' forgets forgets'

theorem alike_perform (call : ReadCall) : Alike Left Left' call.perform call.perform := by
  cases call with
  | octets n => exact (alike_readOctets plays plays' n).bind fun _ => alike_pure _
  | uint8 => exact (alike_readUInt8 plays plays').bind fun _ => alike_pure _
  | uint16 => exact (alike_readUInt16 plays plays').bind fun _ => alike_pure _
  | uint32 => exact (alike_readUInt32 plays plays').bind fun _ => alike_pure _
  | name =>
      exact (Name.alike_readFrom plays plays' forgets forgets' _ _ _).bind fun _ => alike_pure _
  | line limit => exact (Line.alike_read plays plays' limit).bind fun _ => alike_pure _

theorem replies_eq (calls : List ReadCall) {s : σ} {t : τ} {items : List Item}
    (left : Left s items) (left' : Left' t items) : replies calls s = replies calls t := by
  induction calls generalizing s t items with
  | nil => rfl
  | cons call calls ih =>
      rcases (alike_perform plays plays' forgets forgets' call).cases left left' with
        ⟨reply, s', t', rest, got, got', left, left'⟩ |
        ⟨e, s', t', rest, failed, failed', left, left'⟩
      · simp only [replies, got, got', ih left left']
      · simp only [replies, failed, failed', ih left left']

end Replies

/-- A buffer in front of a stream changes nothing of what is read from it. -/
theorem replies_withCapacity (cues : List Cue) (capacity : Nat) (calls : List ReadCall) :
    replies calls (BufferedReader.withCapacity capacity (Script.mk cues)) =
      replies calls (Script.mk cues) := by
  have left : Script.Left ⟨cues⟩ (cues.flatMap Cue.items) := rfl
  exact replies_eq (BufferedReader.plays Script.plays) Script.plays (fun _ => rfl) (fun _ => rfl)
    calls (BufferedReader.ahead_withCapacity left capacity) left

/-- A failure comes after the octets that are read before it, and what is behind it is not lost. -/
example : replies [.octets 3, .uint16, .uint8]
    (BufferedReader.withCapacity 8
      (Script.mk [.chunk [1, 2] (by decide), .failure .endOfStream, .chunk [3, 4] (by decide)])) =
    [.error (.truncated 3 2), .ok (.uint16 0x0304), .error .endOfStream] := by
  rfl

/-- The same holds of a connection. -/
theorem InboundChannel.replies_buffered {c : InboundChannel} (opened : c.isOpen)
    (capacity : Nat) (calls : List ReadCall) :
    replies calls (BufferedReader.withCapacity capacity c) = replies calls c := by
  have left : InboundChannel.Left c (c.arrivals.flatMap Arrival.items) := ⟨opened, rfl⟩
  exact replies_eq (BufferedReader.plays InboundChannel.plays) InboundChannel.plays
    (fun _ => rfl) (fun _ => rfl) calls (BufferedReader.ahead_withCapacity left capacity) left

end ZoneSync
