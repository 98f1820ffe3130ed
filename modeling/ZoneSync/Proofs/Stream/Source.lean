import ZoneSync.Proofs.Octets
import ZoneSync.Proofs.Step
import ZoneSync.Stream.Limited
import ZoneSync.Stream.Memory

/-!
Streams that hand out given octets. Nothing is assumed of the portions they come in. A step
yields a value from octets if it takes exactly those, whatever comes behind them.
-/

namespace ZoneSync

variable {σ : Type}

/-- `At s before after` relates the states of a stream to the octets before and behind its
position: a read hands out some of those behind it. -/
structure Source [ReadStream σ] (At : σ → Octets → Octets → Prop) : Prop where
  portion : ∀ {s before after} {n : Nat}, At s before after → after ≠ [] → 0 < n →
    ∃ size s', 0 < size ∧ size ≤ n ∧ ReadStream.read n s = .ok (after.take size) s' ∧
      At s' (before ++ after.take size) (after.drop size)

/-- The stream keeps the octets before its position. -/
structure Remembers [ReadStream σ] (At : σ → Octets → Octets → Prop) : Prop where
  consumed : ∀ {s before after}, At s before after → ReadStream.consumed s = some before

/-- At a given position the step takes the octets `o` and yields `a`. -/
def Yields {ε α : Type} (At : σ → Octets → Octets → Prop) (before : Octets)
    (step : EStateM ε σ α) (o : Octets) (a : α) : Prop :=
  ∀ s rest, At s before (o ++ rest) → ∃ s', step s = .ok a s' ∧ At s' (before ++ o) rest

section Yields

variable {ε ε' α β : Type} {At : σ → Octets → Octets → Prop} {before o p : Octets}

theorem yields_pure (a : α) : Yields At before (pure a : EStateM ε σ α) [] a := fun s rest h =>
  ⟨s, rfl, by simpa using h⟩

theorem Yields.bind {x : EStateM ε σ α} {f : α → EStateM ε σ β} {a : α} {b : β}
    (hx : Yields At before x o a) (hf : Yields At (before ++ o) (f a) p b) :
    Yields At before (x >>= f) (o ++ p) b := by
  intro s rest h
  obtain ⟨middle, first, h⟩ := hx s (p ++ rest) (by rwa [← List.append_assoc])
  obtain ⟨s', second, h⟩ := hf middle rest h
  exact ⟨s', (bind_of_ok first).trans second, by rwa [← List.append_assoc]⟩

theorem Yields.bind_pure {x : EStateM ε σ α} {f : α → β} {a : α}
    (hx : Yields At before x o a) : Yields At before (x >>= fun a => pure (f a)) o (f a) := by
  have whole := hx.bind (f := fun a => pure (f a)) (yields_pure (f a))
  rwa [List.append_nil] at whole

theorem Yields.adaptExcept {x : EStateM ε σ α} {a : α} (h : Yields At before x o a)
    (f : ε → ε') : Yields At before (x.adaptExcept f) o a := by
  intro s rest hs
  obtain ⟨s', step, hs⟩ := h s rest hs
  exact ⟨s', adaptExcept_eq_ok.mpr step, hs⟩

theorem Yields.within {step : StreamM σ α} {a : α} (h : Yields At before step o a)
    (expected read : Nat) : Yields At before (within expected read step) o a :=
  h.adaptExcept _

end Yields

variable {At : σ → Octets → Octets → Prop} {before : Octets} [ReadStream σ]

theorem yields_fill (source : Source At) {n rounds filled : Nat} {o : Octets}
    (size : o.length + filled = n) (enough : o.length ≤ rounds) :
    Yields At before (fill n rounds filled) o o := by
  induction rounds generalizing before filled o with
  | zero =>
      obtain rfl : o = [] := List.eq_nil_of_length_eq_zero (by omega)
      exact yields_pure []
  | succ rounds ih =>
      by_cases empty : o = []
      · subst empty
        have done : n ≤ filled := by simpa using Nat.le_of_eq size.symm
        intro s rest hs
        exact ⟨s, by simp [fill, done], by simpa using hs⟩
      · have pos := List.length_pos_iff.mpr empty
        have more : ¬ n ≤ filled := by omega
        -- One read may bring less than what is missing; the rounds left do for the rest.
        intro s rest hs
        obtain ⟨size, middle, size_pos, size_le, got, hs⟩ :=
          source.portion (n := n - filled) hs (by simp [empty]) (by omega)
        have inside : size ≤ o.length := by omega
        rw [List.take_append_of_le_length inside] at got hs
        rw [List.drop_append_of_le_length inside] at hs
        have taken : (o.take size).length = size := by simp [inside]
        have later : Yields At (before ++ o.take size) (fill n rounds (filled + size))
            (o.drop size) (o.drop size) := ih (by simp; omega) (by simp; omega)
        obtain ⟨s', rest_read, hs⟩ := later middle rest hs
        refine ⟨s', ?_, by simpa using hs⟩
        simp [fill, more, got, taken, rest_read]

theorem yields_readOctets (source : Source At) {n : Nat} {o : Octets} (size : o.length = n) :
    Yields At before (readOctets n) o o :=
  yields_fill source (by simpa using size) (Nat.le_of_eq size)

theorem yields_readUInt8 (source : Source At) (b : UInt8) :
    Yields At before readUInt8 [b] b :=
  (yields_readOctets (o := [b]) source rfl).bind_pure

theorem yields_readUInt16 (source : Source At) (w : UInt16) :
    Yields At before readUInt16 (Octets.ofUInt16 w) w := by
  have octets : Yields At before (readOctets 2) _ _ :=
    yields_readOctets source (Octets.length_ofUInt16 w)
  have step := octets.bind_pure (f := Octets.toUInt16)
  rwa [Octets.toUInt16_ofUInt16] at step

theorem yields_readUInt32 (source : Source At) (w : UInt32) :
    Yields At before readUInt32 (Octets.ofUInt32 w) w := by
  have octets : Yields At before (readOctets 4) _ _ :=
    yields_readOctets source (Octets.length_ofUInt32 w)
  have step := octets.bind_pure (f := Octets.toUInt32)
  rwa [Octets.toUInt32_ofUInt32] at step

/-- The view of a stream that covers exactly the octets behind its position that are not among
those `beyond`. -/
def Limited.Spans (At : σ → Octets → Octets → Prop) (beyond : Octets) (l : Limited σ)
    (before after : Octets) : Prop :=
  l.isOpen ∧ l.remaining = after.length ∧ At l.inner before (after ++ beyond)

theorem Limited.source (source : Source At) (beyond : Octets) :
    Source (Limited.Spans At beyond) where
  portion := by
    rintro l before after n ⟨opened, left, hs⟩ nonempty pos
    have after_pos := List.length_pos_iff.mpr nonempty
    obtain ⟨size, inner, size_pos, size_le, got, hs⟩ :=
      source.portion (n := min n l.remaining) hs (by simp [nonempty]) (by omega)
    have inside : size ≤ after.length := by omega
    rw [List.take_append_of_le_length inside] at got hs
    rw [List.drop_append_of_le_length inside] at hs
    refine ⟨size, { l with inner, remaining := l.remaining - size }, size_pos, by omega, ?_,
      opened, by simp [left], hs⟩
    have some_n : n ≠ 0 := by omega
    have some_left : l.remaining ≠ 0 := by omega
    simp [ReadStream.read, opened, some_n, some_left, Limited.spent, got, inside]

theorem Limited.remembers (remembers : Remembers At) (beyond : Octets) :
    Remembers (Limited.Spans At beyond) where
  consumed := by
    rintro l before after ⟨opened, -, hs⟩
    simpa [ReadStream.consumed, opened] using remembers.consumed hs

/-- The place of a reader over octets in memory. -/
def MemoryReader.Stands (r : MemoryReader) (before after : Octets) : Prop :=
  r.isOpen ∧ r.data.toList = before ++ after ∧ r.position = before.length

theorem MemoryReader.stands_ofOctets (o : Octets) : (ofOctets o).Stands [] o :=
  ⟨rfl, by simp [ofOctets], rfl⟩

theorem MemoryReader.source : Source MemoryReader.Stands where
  portion := by
    rintro r before after n ⟨opened, data, position⟩ nonempty pos
    have after_pos := List.length_pos_iff.mpr nonempty
    have left : r.left = after.length := by
      simp [MemoryReader.left, ← Array.length_toList, data, position]
    refine ⟨min n after.length, { r with position := r.position + min n r.left }, by omega,
      by omega, ?_, opened, ?_, ?_⟩
    · have some_n : n ≠ 0 := by omega
      simp [ReadStream.read, opened, some_n, nonempty, data, position, left]
    · simp [data]
    · simp [position, left]

theorem MemoryReader.remembers : Remembers MemoryReader.Stands where
  consumed := by
    rintro r before after ⟨opened, data, position⟩
    simp [ReadStream.consumed, opened, data, position]

end ZoneSync
