import ZoneSync.Proofs.Name.Spelling
import ZoneSync.Proofs.Stream.Ending

/-!
Steps that are starved of octets. Where a step would take certain octets and only the first of them
are there, it fails with the error that the stream stops with: as it is if the first octet of a
unit is missing, and as a truncation of the unit if a later one is.
-/

namespace ZoneSync

variable {σ : Type}

/-- Where its octets are used up, the stream stops with an error and stays there. -/
structure StopsWith [ReadStream σ] (At : σ → Octets → Octets → Prop) (wall : StreamError) :
    Prop where
  stopped : ∀ {s before} {n : Nat}, At s before [] → 0 < n →
    ∃ s', ReadStream.read n s = .error wall s' ∧ At s' before []

theorem Ends.stopsWith [ReadStream σ] {At : σ → Octets → Octets → Prop} (ends : Ends At)
    (settles : Settles At) : StopsWith At .endOfStream where
  stopped stands pos := by
    obtain ⟨s', failed⟩ := ends.ended stands pos
    exact ⟨s', failed, (settles.ended stands pos failed).2⟩

/-- At a given position, of the octets `o` only the first `k` are there. Then the step fails, with
an error that depends on their number, and has used them up. -/
def Starves {ε α : Type} (At : σ → Octets → Octets → Prop) (before : Octets)
    (step : EStateM ε σ α) (o : Octets) (failed : Nat → ε → Prop) : Prop :=
  ∀ s k, k < o.length → At s before (o.take k) →
    ∃ e s', step s = .error e s' ∧ failed k e ∧ At s' (before ++ o.take k) []

/-- The error of a unit that the stream has stopped in behind its first octet. -/
def Truncates (wall e : StreamError) : Prop := ∃ expected read, e = wall.toTruncated expected read

/-- The error of a unit that the stream has stopped in behind `k` octets. -/
inductive CutShort (wall : StreamError) : (k : Nat) → StreamError → Prop
  | first : CutShort wall 0 wall
  | later {k : Nat} {e : StreamError} (some_read : 0 < k) (h : Truncates wall e) : CutShort wall k e

theorem CutShort.truncates {wall e : StreamError} {k : Nat} (h : CutShort wall k e)
    (expected read : Nat) : Truncates wall (e.toTruncated expected read) := by
  cases h with
  | first => exact ⟨expected, read, rfl⟩
  | later _ h =>
      obtain ⟨x, y, rfl⟩ := h
      refine ⟨x, y, ?_⟩
      cases wall <;> rfl

theorem CutShort.eq_limitExceeded {e : StreamError} {k : Nat} (h : CutShort .limitExceeded k e) :
    e = .limitExceeded := by
  cases h with
  | first => rfl
  | later _ h =>
      obtain ⟨_, _, rfl⟩ := h
      rfl

section Starves

variable {ε ε' α β : Type} {At : σ → Octets → Octets → Prop} {before o p : Octets}
  {failed failed' : Nat → ε → Prop}

theorem starves_nil (step : EStateM ε σ α) : Starves At before step [] failed :=
  fun _ _ inside => absurd inside (Nat.not_lt_zero _)

theorem Starves.mono {step : EStateM ε σ α} (h : Starves At before step o failed)
    (weaker : ∀ k e, failed k e → failed' k e) : Starves At before step o failed' := by
  intro s k inside hs
  obtain ⟨e, s', ran, why, hs⟩ := h s k inside hs
  exact ⟨e, s', ran, weaker k e why, hs⟩

theorem Starves.adaptExcept {step : EStateM ε σ α} {f : ε → ε'} {failed' : Nat → ε' → Prop}
    (h : Starves At before step o failed) (passed : ∀ k e, failed k e → failed' k (f e)) :
    Starves At before (step.adaptExcept f) o failed' := by
  intro s k inside hs
  obtain ⟨e, s', ran, why, hs⟩ := h s k inside hs
  exact ⟨f e, s', by simp only [EStateM.adaptExcept, ran], passed k e why, hs⟩

/-- The octets are missing in the first step or, if that has its own, in the one behind it. -/
theorem Starves.bind {x : EStateM ε σ α} {f : α → EStateM ε σ β} {a : α}
    (hx : Starves At before x o failed) (done : Yields At before x o a)
    (hf : Starves At (before ++ o) (f a) p fun k => failed (o.length + k)) :
    Starves At before (x >>= f) (o ++ p) failed := by
  intro s k inside hs
  rw [List.length_append] at inside
  by_cases early : k < o.length
  · rw [List.take_append_of_le_length (Nat.le_of_lt early)] at hs ⊢
    obtain ⟨e, s', ran, why, hs⟩ := hx s k early hs
    exact ⟨e, s', bind_of_error ran, why, hs⟩
  · have late : o.length ≤ k := Nat.le_of_not_lt early
    have split : (o ++ p).take k = o ++ p.take (k - o.length) := by
      rw [List.take_append, List.take_of_length_le late]
    rw [split] at hs ⊢
    obtain ⟨middle, first, hs⟩ := done s _ hs
    obtain ⟨e, s', ran, why, hs⟩ := hf middle (k - o.length) (by omega) hs
    refine ⟨e, s', (bind_of_ok first).trans ran, ?_, by rwa [← List.append_assoc]⟩
    rwa [Nat.add_sub_cancel' late] at why

theorem Starves.bind_left {x : EStateM ε σ α} {f : α → EStateM ε σ β}
    (hx : Starves At before x o failed) : Starves At before (x >>= f) o failed := by
  intro s k inside hs
  obtain ⟨e, s', ran, why, hs⟩ := hx s k inside hs
  exact ⟨e, s', bind_of_error ran, why, hs⟩

theorem Starves.within {step : StreamM σ α} {wall : StreamError}
    (h : Starves At before step o (CutShort wall)) (expected read : Nat) :
    Starves At before (within expected read step) o fun _ => Truncates wall :=
  h.adaptExcept fun _ _ why => why.truncates expected read

end Starves

section Read

variable [ReadStream σ] {At : σ → Octets → Octets → Prop} {before : Octets} {wall : StreamError}
  (source : Source At) (stops : StopsWith At wall)
include source stops

theorem starves_fill {n rounds filled : Nat} {o : Octets} (size : o.length + filled = n)
    (enough : o.length ≤ rounds) :
    Starves At before (fill n rounds filled) o fun k e =>
      e = if filled + k = 0 then wall else wall.toTruncated n (filled + k) := by
  induction rounds generalizing before filled o with
  | zero =>
      obtain rfl : o = [] := List.eq_nil_of_length_eq_zero (by omega)
      exact starves_nil _
  | succ rounds ih =>
      intro s k inside hs
      have more : ¬ n ≤ filled := by omega
      by_cases none_there : k = 0
      · subst none_there
        obtain ⟨s', ended, hs⟩ := stops.stopped (n := n - filled) hs (by omega)
        refine ⟨_, s', by simp [fill, more, ended], rfl, ?_⟩
        rwa [List.take_zero, List.append_nil]
      · have there : (o.take k).length = k := by
          rw [List.length_take]
          omega
        obtain ⟨size, middle, size_pos, -, got, hs⟩ := source.portion (n := n - filled) hs
          (List.ne_nil_of_length_pos (by omega)) (by omega)
        -- The portion ends where it says or, before that, where the octets do.
        obtain ⟨m, taken, m_pos, m_le, rest⟩ : ∃ m, (o.take k).take size = o.take m ∧ 0 < m ∧
            m ≤ k ∧ (o.take k).drop size = (o.drop m).take (k - m) := by
          refine ⟨min size k, List.take_take .., by omega, by omega, ?_⟩
          by_cases short : size ≤ k
          · rw [Nat.min_eq_left short, List.drop_take]
          · rw [List.drop_eq_nil_of_le (by omega), Nat.min_eq_right (by omega), Nat.sub_self,
              List.take_zero]
        rw [taken] at got hs
        rw [rest] at hs
        have length : (o.take m).length = m := by
          rw [List.length_take]
          omega
        have later : Starves At (before ++ o.take m) (fill n rounds (filled + m)) (o.drop m) _ :=
          ih (by rw [List.length_drop]; omega) (by rw [List.length_drop]; omega)
        obtain ⟨e, s', failed, rfl, hs⟩ := later middle (k - m)
          (by rw [List.length_drop]; omega) hs
        have whole : o.take m ++ (o.drop m).take (k - m) = o.take k := by
          rw [← rest, ← taken, List.take_append_drop]
        rw [Nat.add_assoc, Nat.add_sub_cancel' m_le] at failed
        rw [List.append_assoc, whole] at hs
        exact ⟨_, s', by simp only [fill, more, if_false, got, length, failed], rfl, hs⟩

theorem starves_readOctets {n : Nat} {o : Octets} (size : o.length = n) :
    Starves At before (readOctets n) o (CutShort wall) := by
  refine (starves_fill source stops (by simpa using size) (Nat.le_of_eq size)).mono ?_
  rintro k _ rfl
  by_cases none_there : 0 + k = 0
  · obtain rfl : k = 0 := by omega
    exact .first
  · rw [if_neg none_there]
    exact .later (by omega) ⟨n, 0 + k, rfl⟩

theorem starves_readUInt8 (b : UInt8) : Starves At before readUInt8 [b] (CutShort wall) :=
  (starves_readOctets source stops (o := [b]) rfl).bind_left

theorem starves_readUInt16 (w : UInt16) :
    Starves At before readUInt16 (Octets.ofUInt16 w) (CutShort wall) :=
  (starves_readOctets source stops (Octets.length_ofUInt16 w)).bind_left

theorem starves_readUInt32 (w : UInt32) :
    Starves At before readUInt32 (Octets.ofUInt32 w) (CutShort wall) :=
  (starves_readOctets source stops (Octets.length_ofUInt32 w)).bind_left

namespace Name

theorem starves_octet (read : Nat) (b : UInt8) {α : Type} {f : UInt8 → StreamM σ α} {o : Octets}
    (rest : Starves At (before ++ [b]) (f b) o fun k => CutShort wall (read + (1 + k))) :
    Starves At before
      (if read = 0 then readUInt8 >>= f else within (read + 1) read readUInt8 >>= f)
      (b :: o) fun k => CutShort wall (read + k) := by
  have octet : Starves At before readUInt8 [b] (CutShort wall) := starves_readUInt8 source stops b
  have got : Yields At before readUInt8 [b] b := yields_readUInt8 source b
  split
  · rename_i first
    have here : Starves At before readUInt8 [b] fun k => CutShort wall (read + k) := by
      simpa only [first, Nat.zero_add] using octet
    exact here.bind got rest
  · refine Starves.bind ?_ (got.within _ _) rest
    exact (octet.within _ _).mono fun k _ why => .later (by omega) why

/-- Names are cut short in a label or between two, and what was read of them before counts. -/
theorem starves_readFrom {rounds read : Nat} {n whole : Name} {labels : List Label}
    (h : whole.labels = n.labels ++ labels) :
    Starves At before (readFrom (rounds + labels.length + 1) read n) (wireOf labels) fun k =>
      CutShort wall (read + k) := by
  induction labels generalizing n read before with
  | nil =>
      rw [readFrom]
      exact starves_octet source stops read 0 (starves_nil _)
  | cons l labels ih =>
      obtain ⟨longer, pushed, h⟩ := push_front h
      rw [wireOf_cons, readFrom]
      refine starves_octet source stops read _ ?_
      simp only [l.length_ne_zero, l.length_lt, l.toNat_length, if_true, if_false]
      have label : Starves At (before ++ [UInt8.ofNat l.octets.length])
          (readOctets l.octets.length) l.octets (CutShort wall) :=
        starves_readOctets source stops rfl
      refine Starves.bind ((label.within _ _).mono fun k _ why => .later (by omega) why)
        ((yields_readOctets source rfl).within _ _) ?_
      simp only [pushed]
      have rest : Starves At (before ++ [UInt8.ofNat l.octets.length] ++ l.octets)
          (readFrom (rounds + labels.length + 1) (read + 1 + l.octets.length) longer)
          (wireOf labels) _ := ih h
      simpa only [List.length_cons, Nat.add_assoc] using rest

theorem starves_read (name : Name) :
    Starves At before Name.read name.wire (CutShort wall) := by
  have few := name.length_labels_lt
  have rounds : 128 = (127 - name.labels.length) + name.labels.length + 1 := by omega
  have whole : name.labels = root.labels ++ name.labels := rfl
  rw [Name.read, rounds]
  refine (starves_readFrom source stops whole).mono ?_
  intro k e why
  rwa [Nat.zero_add] at why

end Name

end Read

section Limited

variable {At : σ → Octets → Octets → Prop} {stop edge : Nat}

/-- A view that ends in front of the octet with the number `stop`. What it can hand out ends at
`edge`, be it there or where the stream beneath has no more. -/
structure Limited.Reaches (At : σ → Octets → Octets → Prop) (stop edge : Nat) (l : Limited σ)
    (before after : Octets) : Prop where
  opened : l.isOpen
  limit : before.length + l.remaining = stop
  ends : before.length + after.length = edge
  beneath : ∃ left, At l.inner before left ∧ after = left.take l.remaining

theorem Limited.reaches_take {s : σ} {before left : Octets} (hs : At s before left) (n : Nat) :
    Limited.Reaches At (before.length + n) (before.length + (left.take n).length)
      { inner := s, remaining := n } before (left.take n) :=
  ⟨rfl, rfl, rfl, left, hs, rfl⟩

/-- A view with nothing left in front of its limit has used up the stream beneath. -/
theorem Limited.Reaches.beneath_nil {l : Limited σ} {before : Octets}
    (h : Limited.Reaches At stop edge l before []) (short : edge < stop) :
    At l.inner before [] := by
  obtain ⟨-, limit, ends, left, hs, none_shown⟩ := h
  rw [List.length_nil] at ends
  rcases List.take_eq_nil_iff.mp none_shown.symm with zero | empty
  · omega
  · rwa [empty] at hs

variable [ReadStream σ]

theorem Limited.reaches_source (source : Source At) : Source (Limited.Reaches At stop edge) where
  portion := by
    rintro l before after n ⟨opened, limit, ends, left, hs, rfl⟩ nonempty pos
    have some_left : l.remaining ≠ 0 := by
      intro zero
      simp [zero] at nonempty
    obtain ⟨size, inner, size_pos, size_le, got, hs⟩ :=
      source.portion (n := min n l.remaining) hs (by rintro rfl; simp at nonempty) (by omega)
    have inside : size ≤ l.remaining := by omega
    have taken : (left.take l.remaining).take size = left.take size := by
      rw [List.take_take, Nat.min_eq_left inside]
    have some_n : n ≠ 0 := by omega
    refine ⟨size, { l with inner, remaining := l.remaining - (left.take size).length }, size_pos,
      by omega, ?_, opened, ?_, ?_, left.drop size, by rwa [taken], ?_⟩
    · rw [taken]
      simp [ReadStream.read, opened, some_n, some_left, Limited.spent, got]
    · rw [taken, List.length_append]
      have few := List.length_take_le size left
      dsimp only
      omega
    · rw [← ends, List.length_append, Nat.add_assoc, ← List.length_append, List.take_append_drop]
    · by_cases short : size ≤ left.length
      · rw [List.length_take, Nat.min_eq_left short, List.drop_take]
      · rw [List.drop_eq_nil_of_le (by rw [List.length_take]; omega),
          List.drop_eq_nil_of_le (Nat.le_of_not_le short), List.take_nil]

theorem Limited.reaches_remembers (remembers : Remembers At) :
    Remembers (Limited.Reaches At stop edge) where
  consumed := by
    rintro l before after ⟨opened, -, -, left, hs, -⟩
    simpa [ReadStream.consumed, opened] using remembers.consumed hs

/-- At its limit a view says so. -/
theorem Limited.stopsWith_limit : StopsWith (Limited.Reaches At stop stop) .limitExceeded where
  stopped := by
    rintro l before n ⟨opened, limit, ends, beneath⟩ pos
    rw [List.length_nil] at ends
    have some_n : n ≠ 0 := by omega
    have used_up : l.remaining = 0 := by omega
    exact ⟨l, by simp [ReadStream.read, opened, some_n, used_up], opened, limit, ends, beneath⟩

/-- In front of its limit a view stops like the stream beneath. -/
theorem Limited.stopsWith_beneath {wall : StreamError} (stops : StopsWith At wall)
    (short : edge < stop) : StopsWith (Limited.Reaches At stop edge) wall where
  stopped := by
    intro l before n h pos
    have hs := h.beneath_nil short
    obtain ⟨opened, limit, ends, -⟩ := h
    rw [List.length_nil] at ends
    have some_n : n ≠ 0 := by omega
    have some_left : l.remaining ≠ 0 := by omega
    obtain ⟨inner, failed, hs⟩ := stops.stopped (n := min n l.remaining) hs (by omega)
    refine ⟨{ l with inner }, ?_, opened, limit, ends, [], hs, by rw [List.take_nil]⟩
    simp [ReadStream.read, opened, some_n, some_left, Limited.spent, failed]

end Limited
end ZoneSync
