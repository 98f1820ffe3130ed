import ZoneSync.Proofs.Stream.Source

/-!
What steps that succeed have taken from a stream. Where `Yields` says that a step succeeds on
given octets, `Takes` says of any success which octets it has used up.
-/

namespace ZoneSync

variable {σ : Type}

/-- A read that succeeds hands out octets from behind the position, at least one of them. -/
structure Faithful [ReadStream σ] (At : σ → Octets → Octets → Prop) : Prop where
  portion : ∀ {s s' before after o} {n : Nat}, At s before after → 0 < n →
    ReadStream.read n s = .ok o s' →
    0 < o.length ∧ o.length ≤ n ∧ ∃ rest, after = o ++ rest ∧ At s' (before ++ o) rest

/-- A step that succeeds at a given position has taken octets that `R` relates to its value. -/
def Takes {ε α : Type} (At : σ → Octets → Octets → Prop) (before : Octets)
    (step : EStateM ε σ α) (R : Octets → α → Prop) : Prop :=
  ∀ s s' after a, At s before after → step s = .ok a s' →
    ∃ o rest, after = o ++ rest ∧ R o a ∧ At s' (before ++ o) rest

section Takes

variable {ε ε' α β : Type} {At : σ → Octets → Octets → Prop} {before : Octets}

theorem takes_pure {a : α} {R : Octets → α → Prop} (h : R [] a) :
    Takes At before (pure a : EStateM ε σ α) R := by
  intro s s' after b hs done
  obtain ⟨rfl, rfl⟩ := EStateM.Result.ok.inj done
  exact ⟨[], after, rfl, h, by rwa [List.append_nil]⟩

theorem takes_throw (e : ε) (R : Octets → α → Prop) :
    Takes At before (throw e : EStateM ε σ α) R := by
  intro s s' after a _ done
  cases done

theorem Takes.bind {x : EStateM ε σ α} {f : α → EStateM ε σ β} {R : Octets → α → Prop}
    {S : Octets → β → Prop} (hx : Takes At before x R)
    (hf : ∀ o a, R o a → Takes At (before ++ o) (f a) fun p b => S (o ++ p) b) :
    Takes At before (x >>= f) S := by
  intro s s' after b hs done
  obtain ⟨a, middle, first, second⟩ := bind_eq_ok.mp done
  obtain ⟨o, between, rfl, ho, hs⟩ := hx s middle after a hs first
  obtain ⟨p, rest, rfl, hp, hs⟩ := hf o a ho middle s' between b hs second
  refine ⟨o ++ p, rest, by rw [List.append_assoc], hp, ?_⟩
  rwa [← List.append_assoc]

theorem Takes.mono {x : EStateM ε σ α} {R S : Octets → α → Prop} (h : Takes At before x R)
    (imp : ∀ o a, R o a → S o a) : Takes At before x S := by
  intro s s' after a hs done
  obtain ⟨o, rest, split, ho, hs⟩ := h s s' after a hs done
  exact ⟨o, rest, split, imp o a ho, hs⟩

theorem Takes.bind_pure {x : EStateM ε σ α} {f : α → β} {R : Octets → α → Prop}
    {S : Octets → β → Prop} (h : Takes At before x R) (imp : ∀ o a, R o a → S o (f a)) :
    Takes At before (x >>= fun a => pure (f a)) S := by
  refine h.bind fun o a ho => takes_pure ?_
  rw [List.append_nil]
  exact imp o a ho

theorem Takes.adaptExcept {x : EStateM ε σ α} {R : Octets → α → Prop} (h : Takes At before x R)
    (f : ε → ε') : Takes At before (x.adaptExcept f) R := fun s s' after a hs done =>
  h s s' after a hs (adaptExcept_eq_ok.mp done)

theorem Takes.within {x : StreamM σ α} {R : Octets → α → Prop} (h : Takes At before x R)
    (expected read : Nat) : Takes At before (within expected read x) R :=
  h.adaptExcept _

end Takes

variable {At : σ → Octets → Octets → Prop} {before : Octets} [ReadStream σ]

/-- Every read brings an octet, so the rounds do not run out before the octets are there. -/
theorem takes_fill (faithful : Faithful At) {n rounds filled : Nat} (enough : n ≤ filled + rounds) :
    Takes At before (fill n rounds filled) fun o a => o = a ∧ a.length = n - filled := by
  induction rounds generalizing before filled with
  | zero =>
      intro s s' after a hs done
      obtain ⟨rfl, rfl⟩ := EStateM.Result.ok.inj done
      exact ⟨[], after, rfl, ⟨rfl, by rw [List.length_nil]; omega⟩, by rwa [List.append_nil]⟩
  | succ rounds ih =>
      intro s s' after a hs done
      rw [fill] at done
      dsimp only at done
      split at done
      · rename_i full
        obtain ⟨rfl, rfl⟩ := EStateM.Result.ok.inj done
        exact ⟨[], after, rfl, ⟨rfl, by rw [List.length_nil]; omega⟩, by rwa [List.append_nil]⟩
      · rename_i missing
        cases first : ReadStream.read (n - filled) s with
        | error e t =>
            simp only [first] at done
            split at done <;> cases done
        | ok got middle =>
            simp only [first] at done
            obtain ⟨some_got, short, between, rfl, moved⟩ :=
              faithful.portion hs (by omega) first
            cases second : fill n rounds (filled + got.length) middle with
            | error e t =>
                simp only [second] at done
                cases done
            | ok more last =>
                simp only [second] at done
                obtain ⟨rfl, rfl⟩ := EStateM.Result.ok.inj done
                obtain ⟨o, rest, rfl, ⟨rfl, length⟩, hs⟩ :=
                  ih (by omega) middle last between more moved second
                refine ⟨got ++ o, rest, by rw [List.append_assoc], ⟨rfl, ?_⟩, ?_⟩
                · rw [List.length_append, length]
                  omega
                · rwa [← List.append_assoc]

theorem takes_readOctets (faithful : Faithful At) (n : Nat) :
    Takes At before (readOctets n) fun o a => o = a ∧ a.length = n :=
  takes_fill faithful (by omega)

theorem takes_readUInt8 (faithful : Faithful At) :
    Takes At before readUInt8 fun o b => o = [b] := by
  refine (takes_readOctets faithful 1).bind_pure ?_
  rintro o a ⟨rfl, length⟩
  obtain ⟨b, rfl⟩ := List.length_eq_one_iff.mp length
  rfl

theorem takes_readUInt16 (faithful : Faithful At) :
    Takes At before readUInt16 fun o w => o = Octets.ofUInt16 w := by
  refine (takes_readOctets faithful 2).bind_pure ?_
  rintro o a ⟨rfl, length⟩
  exact (Octets.ofUInt16_toUInt16 length).symm

theorem takes_readUInt32 (faithful : Faithful At) :
    Takes At before readUInt32 fun o w => o = Octets.ofUInt32 w := by
  refine (takes_readOctets faithful 4).bind_pure ?_
  rintro o a ⟨rfl, length⟩
  exact (Octets.ofUInt32_toUInt32 length).symm

/-- A view of a stream whose limit lies behind the octet with the number `total`. -/
def Limited.Covers (At : σ → Octets → Octets → Prop) (total : Nat) (l : Limited σ)
    (before after : Octets) : Prop :=
  l.isOpen ∧ before.length + l.remaining = total ∧ At l.inner before after

theorem Limited.faithful (faithful : Faithful At) (total : Nat) :
    Faithful (Limited.Covers At total) where
  portion := by
    rintro l l' before after o n ⟨opened, limit, hs⟩ pos done
    have some_n : n ≠ 0 := by omega
    by_cases used_up : l.remaining = 0
    · simp [ReadStream.read, opened, some_n, used_up] at done
    · simp only [ReadStream.read, opened, some_n, used_up, Bool.not_true, Bool.false_eq_true,
        if_false, Limited.spent] at done
      split at done
      · rename_i a inner got
        obtain ⟨rfl, rfl⟩ := EStateM.Result.ok.inj done
        obtain ⟨some_got, short, rest, rfl, moved⟩ := faithful.portion hs (by omega) got
        refine ⟨some_got, by omega, rest, rfl, rfl, ?_, moved⟩
        rw [List.length_append]
        dsimp only
        omega
      · cases done

theorem MemoryReader.faithful : Faithful MemoryReader.Stands where
  portion := by
    rintro r r' before after o n ⟨opened, data, position⟩ pos done
    have left : r.left = after.length := by
      simp [MemoryReader.left, ← Array.length_toList, data, position]
    have some_n : n ≠ 0 := by omega
    by_cases ended : after = []
    · simp [ReadStream.read, opened, some_n, left, ended] at done
    · have after_pos := List.length_pos_iff.mpr ended
      have some_left : after.length ≠ 0 := by omega
      simp only [ReadStream.read, opened, some_n, left, some_left, Bool.not_true,
        Bool.false_eq_true, if_false] at done
      obtain ⟨rfl, rfl⟩ := EStateM.Result.ok.inj done
      have taken : (r.data.extract r.position (r.position + min n after.length)).toList =
          after.take (min n after.length) := by
        simp [data, position]
      have size : (after.take (min n after.length)).length = min n after.length := by
        rw [List.length_take]
        omega
      rw [taken, size]
      refine ⟨by omega, by omega, after.drop (min n after.length), ?_, rfl, ?_, ?_⟩
      · rw [List.take_append_drop]
      · rw [List.append_assoc, List.take_append_drop]
        exact data
      · simp [position]

end ZoneSync
