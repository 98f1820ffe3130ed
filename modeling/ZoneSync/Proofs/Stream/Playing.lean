import ZoneSync.Name.Compressed
import ZoneSync.Proofs.Step
import ZoneSync.Stream.Line

/-!
Streams of which the whole course is known: the octets that are to come, and the failures between
them. Nothing is assumed of the portions the octets come in. What a number of octets is read as, and
all that is read by way of that, is told from the course alone.
-/

namespace ZoneSync

/-- What comes next from a stream: an octet, or a failure in its place. -/
abbrev Item := Except StreamError UInt8

variable {σ τ ε α β : Type}

/-- `Left s items` relates the states of a stream to what is to come of it. Each failure is reported
once; behind the last item the stream has ended. -/
structure Plays [ReadStream σ] (Left : σ → List Item → Prop) : Prop where
  portion : ∀ {s b items} {n : Nat}, Left s (.ok b :: items) → 0 < n →
    ∃ o rest s', o ≠ [] ∧ o.length ≤ n ∧ .ok b :: items = o.map .ok ++ rest ∧
      ReadStream.read n s = .ok o s' ∧ Left s' rest
  failure : ∀ {s e items} {n : Nat}, Left s (.error e :: items) → 0 < n →
    ∃ s', ReadStream.read n s = .error e s' ∧ Left s' items
  ended : ∀ {s} {n : Nat}, Left s [] → 0 < n →
    ∃ s', ReadStream.read n s = .error .endOfStream s' ∧ Left s' []

/-- A step has come to a given result and has left given items. -/
def Shows (Left : σ → List Item → Prop) : EStateM.Result ε σ α → Except ε α × List Item → Prop
  | .ok a s, (.ok b, items) => a = b ∧ Left s items
  | .error e s, (.error f, items) => e = f ∧ Left s items
  | _, _ => False

theorem Shows.cases {Left : σ → List Item → Prop} {x : EStateM.Result ε σ α} {told : Except ε α}
    {items : List Item} (h : Shows Left x (told, items)) :
    (∃ a s, x = .ok a s ∧ told = .ok a ∧ Left s items) ∨
      ∃ e s, x = .error e s ∧ told = .error e ∧ Left s items := by
  cases x <;> cases told <;> simp only [Shows] at h
  · obtain ⟨rfl, left⟩ := h
    exact .inl ⟨_, _, rfl, rfl, left⟩
  · obtain ⟨rfl, left⟩ := h
    exact .inr ⟨_, _, rfl, rfl, left⟩

/-- Two steps that have come to one given result have come to the same. -/
theorem Shows.both {Left : σ → List Item → Prop} {Left' : τ → List Item → Prop}
    {x : EStateM.Result ε σ α} {y : EStateM.Result ε τ α} {told : Except ε α} {items : List Item}
    (h : Shows Left x (told, items)) (h' : Shows Left' y (told, items)) :
    (∃ a s t, x = .ok a s ∧ y = .ok a t ∧ Left s items ∧ Left' t items) ∨
      ∃ e s t, x = .error e s ∧ y = .error e t ∧ Left s items ∧ Left' t items := by
  rcases h.cases with ⟨a, s, rfl, rfl, left⟩ | ⟨e, s, rfl, rfl, left⟩
  · rcases h'.cases with ⟨b, t, rfl, same, left'⟩ | ⟨e, t, rfl, same, -⟩
    · cases same
      exact .inl ⟨a, s, t, rfl, rfl, left, left'⟩
    · cases same
  · rcases h'.cases with ⟨b, t, rfl, same, -⟩ | ⟨f, t, rfl, same, left'⟩
    · cases same
    · cases same
      exact .inr ⟨e, s, t, rfl, rfl, left, left'⟩

/-- The error for a failure that is met when so many of `n` octets are missing. -/
def failedAt (n missing : Nat) (e : StreamError) : StreamError :=
  if n = missing then e else e.toTruncated n (n - missing)

/-- What is missing of `n` octets, as it is taken from the items to come. -/
def gathered (n : Nat) : (missing : Nat) → List Item → Except StreamError Octets × List Item
  | 0, items => (.ok [], items)
  | missing + 1, [] => (.error (failedAt n (missing + 1) .endOfStream), [])
  | missing + 1, .error e :: items => (.error (failedAt n (missing + 1) e), items)
  | missing + 1, .ok b :: items =>
    ((gathered n missing items).1.map (b :: ·), (gathered n missing items).2)

theorem gathered_append (n missing : Nat) (o : Octets) (items : List Item) :
    gathered n (o.length + missing) (o.map .ok ++ items) =
      ((gathered n missing items).1.map (o ++ ·), (gathered n missing items).2) := by
  induction o with
  | nil =>
      rw [List.length_nil, Nat.zero_add, List.map_nil, List.nil_append]
      cases gathered n missing items with
      | mk result rest => cases result <;> rfl
  | cons b o ih =>
      rw [List.length_cons, Nat.add_right_comm, List.map_cons, List.cons_append, gathered, ih]
      cases (gathered n missing items).1 <;> rfl

section Fill

variable [ReadStream σ] {Left : σ → List Item → Prop}

/-- However the octets are portioned, as many rounds as there are octets missing suffice. -/
theorem shows_fill (plays : Plays Left) {n rounds filled missing : Nat} {s : σ}
    {items : List Item} (left : Left s items) (count : filled + missing = n)
    (enough : missing ≤ rounds) :
    Shows Left (fill n rounds filled s) (gathered n missing items) := by
  induction rounds generalizing s items filled missing with
  | zero =>
      obtain rfl : missing = 0 := Nat.eq_zero_of_le_zero enough
      exact ⟨rfl, left⟩
  | succ rounds ih =>
      cases missing with
      | zero =>
          have done : n ≤ filled := Nat.le_of_eq count.symm
          simp only [fill, if_pos done]
          exact ⟨rfl, left⟩
      | succ missing =>
          have more : ¬ n ≤ filled := by omega
          have asked : n - filled = missing + 1 := by omega
          have failed (e : StreamError) :
              (if filled = 0 then e else e.toTruncated n filled) = failedAt n (missing + 1) e := by
            have start : filled = 0 ↔ n = missing + 1 := by omega
            have taken : n - (missing + 1) = filled := by omega
            simp only [failedAt, start, taken]
          cases items with
          | nil =>
              obtain ⟨s', ended, left⟩ := plays.ended left (Nat.succ_pos missing)
              simp only [fill, if_neg more, asked, ended]
              exact ⟨failed _, left⟩
          | cons item items =>
              cases item with
              | error e =>
                  obtain ⟨s', reported, left⟩ := plays.failure left (Nat.succ_pos missing)
                  simp only [fill, if_neg more, asked, reported]
                  exact ⟨failed e, left⟩
              | ok b =>
                  obtain ⟨o, rest, s', nonempty, short, split, got, left⟩ :=
                    plays.portion left (Nat.succ_pos missing)
                  have pos := List.length_pos_iff.mpr nonempty
                  obtain ⟨others, total⟩ : ∃ others, missing + 1 = o.length + others :=
                    Nat.exists_eq_add_of_le short
                  have later : Shows Left (fill n rounds (filled + o.length) s')
                      (gathered n others rest) := ih left (by omega) (by omega)
                  -- The portion is put in front of what the rounds left bring, or fail with.
                  simp only [fill, if_neg more, asked, got]
                  rw [split, total, gathered_append]
                  revert later
                  cases fill n rounds (filled + o.length) s' <;>
                    rcases gathered n others rest with ⟨_ | _, _⟩ <;>
                      simp +contextual [Shows, Except.map]

theorem shows_readOctets (plays : Plays Left) (n : Nat) {s : σ} {items : List Item}
    (left : Left s items) : Shows Left (readOctets n s) (gathered n n items) :=
  shows_fill plays left (Nat.zero_add n) (Nat.le_refl n)

end Fill

/-- On streams with one course ahead of them, the steps come to one result and leave the streams
with one course again. -/
def Alike (Left : σ → List Item → Prop) (Left' : τ → List Item → Prop) (x : EStateM ε σ α)
    (y : EStateM ε τ α) : Prop :=
  ∀ ⦃s t items⦄, Left s items → Left' t items →
    ∃ told, Shows Left (x s) told ∧ Shows Left' (y t) told

section Alike

variable {Left : σ → List Item → Prop} {Left' : τ → List Item → Prop}

theorem alike_pure (a : α) : Alike Left Left' (pure a : EStateM ε σ α) (pure a) :=
  fun _ _ items left left' => ⟨(.ok a, items), ⟨rfl, left⟩, rfl, left'⟩

theorem alike_throw (e : ε) : Alike Left Left' (throw e : EStateM ε σ α) (throw e) :=
  fun _ _ items left left' => ⟨(.error e, items), ⟨rfl, left⟩, rfl, left'⟩

theorem Alike.cases {x : EStateM ε σ α} {y : EStateM ε τ α} (h : Alike Left Left' x y) {s : σ}
    {t : τ} {items : List Item} (left : Left s items) (left' : Left' t items) :
    (∃ a s' t' rest, x s = .ok a s' ∧ y t = .ok a t' ∧ Left s' rest ∧ Left' t' rest) ∨
      ∃ e s' t' rest, x s = .error e s' ∧ y t = .error e t' ∧ Left s' rest ∧ Left' t' rest := by
  obtain ⟨⟨told, rest⟩, shown, shown'⟩ := h left left'
  rcases shown.both shown' with ⟨a, s', t', got, got', left⟩ | ⟨e, s', t', failed, failed', left⟩
  · exact .inl ⟨a, s', t', rest, got, got', left⟩
  · exact .inr ⟨e, s', t', rest, failed, failed', left⟩

theorem Alike.bind {x : EStateM ε σ α} {y : EStateM ε τ α} {f : α → EStateM ε σ β}
    {g : α → EStateM ε τ β} (first : Alike Left Left' x y)
    (later : ∀ a, Alike Left Left' (f a) (g a)) : Alike Left Left' (x >>= f) (y >>= g) := by
  intro s t items left left'
  rcases first.cases left left' with
    ⟨a, s', t', rest, got, got', left, left'⟩ | ⟨e, s', t', rest, failed, failed', left, left'⟩
  · rw [bind_of_ok got, bind_of_ok got']
    exact later a left left'
  · rw [bind_of_error failed, bind_of_error failed']
    exact ⟨(.error e, rest), ⟨rfl, left⟩, rfl, left'⟩

theorem Alike.within {x : StreamM σ α} {y : StreamM τ α} (h : Alike Left Left' x y)
    (expected read : Nat) : Alike Left Left' (within expected read x) (within expected read y) := by
  intro s t items left left'
  rw [ZoneSync.within, ZoneSync.within, EStateM.adaptExcept, EStateM.adaptExcept]
  rcases h.cases left left' with
    ⟨a, s', t', rest, got, got', left, left'⟩ | ⟨e, s', t', rest, failed, failed', left, left'⟩
  · rw [got, got']
    exact ⟨(.ok a, rest), ⟨rfl, left⟩, rfl, left'⟩
  · rw [failed, failed']
    exact ⟨(.error _, rest), ⟨rfl, left⟩, rfl, left'⟩

variable [ReadStream σ] [ReadStream τ]

theorem alike_readOctets (plays : Plays Left) (plays' : Plays Left') (n : Nat) :
    Alike Left Left' (readOctets n) (readOctets n) :=
  fun _ _ items left left' =>
    ⟨gathered n n items, shows_readOctets plays n left, shows_readOctets plays' n left'⟩

theorem alike_readUInt8 (plays : Plays Left) (plays' : Plays Left') :
    Alike Left Left' readUInt8 readUInt8 :=
  (alike_readOctets plays plays' 1).bind fun _ => alike_pure _

theorem alike_readUInt16 (plays : Plays Left) (plays' : Plays Left') :
    Alike Left Left' readUInt16 readUInt16 :=
  (alike_readOctets plays plays' 2).bind fun _ => alike_pure _

theorem alike_readUInt32 (plays : Plays Left) (plays' : Plays Left') :
    Alike Left Left' readUInt32 readUInt32 :=
  (alike_readOctets plays plays' 4).bind fun _ => alike_pure _

theorem Name.alike_octet (plays : Plays Left) (plays' : Plays Left') (read : Nat)
    {f : UInt8 → StreamM σ α} {g : UInt8 → StreamM τ α}
    (later : ∀ b, Alike Left Left' (f b) (g b)) :
    Alike Left Left'
      (if read = 0 then readUInt8 >>= f else ZoneSync.within (read + 1) read readUInt8 >>= f)
      (if read = 0 then readUInt8 >>= g else ZoneSync.within (read + 1) read readUInt8 >>= g) := by
  have octet := alike_readUInt8 plays plays'
  split
  · exact octet.bind later
  · exact (octet.within _ _).bind later

/-- The names read agree if neither stream keeps octets that a pointer could lead to. -/
theorem Name.alike_readFrom (plays : Plays Left) (plays' : Plays Left')
    (forgets : ∀ s : σ, ReadStream.consumed s = none)
    (forgets' : ∀ t : τ, ReadStream.consumed t = none) (rounds read : Nat) (n : Name) :
    Alike Left Left' (readFrom rounds read n) (readFrom rounds read n) := by
  induction rounds generalizing read n with
  | zero => exact alike_throw _
  | succ rounds ih =>
      rw [readFrom, readFrom]
      refine alike_octet plays plays' read fun b => ?_
      dsimp only
      split
      · exact alike_pure _
      · split
        · refine ((alike_readOctets plays plays' _).within _ _).bind fun label => ?_
          split
          · exact alike_throw _
          · exact ih _ _
        · split
          · exact alike_throw _
          · refine ((alike_readUInt8 plays plays').within _ _).bind fun low => ?_
            intro s t items left left'
            rw [get_bind, get_bind, forgets, forgets']
            exact alike_throw _ left left'

theorem Line.alike_gather (plays : Plays Left) (plays' : Plays Left') (room : Nat)
    (taken : Octets) : Alike Left Left' (gather room taken) (gather room taken) := by
  induction room using Nat.strongRecOn generalizing taken with
  | ind room ih =>
      intro s t items left left'
      rw [gather.eq_def, gather.eq_def]
      rcases (alike_readUInt8 plays plays').cases left left' with
        ⟨b, s', t', rest, got, got', left, left'⟩ | ⟨e, s', t', rest, failed, failed', left, left'⟩
      · simp only [got, got']
        split
        · exact ⟨(.ok _, rest), ⟨rfl, left⟩, rfl, left'⟩
        · cases room with
          | zero => exact ⟨(.error _, rest), ⟨rfl, left⟩, rfl, left'⟩
          | succ room => exact ih room (Nat.lt_succ_self room) _ left left'
      · by_cases last : e = .endOfStream
        · simp only [failed, failed', last]
          split
          · exact ⟨(.error _, rest), ⟨rfl, left⟩, rfl, left'⟩
          · exact ⟨(.ok _, rest), ⟨rfl, left⟩, rfl, left'⟩
        · simp only [failed, failed']
          exact ⟨(.error _, rest), ⟨rfl, left⟩, rfl, left'⟩

theorem Line.alike_read (plays : Plays Left) (plays' : Plays Left') (limit : Nat) :
    Alike Left Left' (read limit) (read limit) := by
  refine (alike_gather plays plays' (limit + 1) []).bind fun line => ?_
  dsimp only
  split
  · exact alike_throw _
  · split
    · exact alike_pure _
    · exact alike_throw _

end Alike

end ZoneSync
