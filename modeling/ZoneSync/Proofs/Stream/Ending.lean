import ZoneSync.Proofs.Stream.Delivery
import ZoneSync.Proofs.Stream.Taking
import ZoneSync.Stream.Channel

/-!
What the clean end of a stream says of its octets, and what a message read from a frame has
taken. Nothing is assumed of reads that fail otherwise.
-/

namespace ZoneSync

/-- A stream that reports its end has no octets left, and it knows a bound on those it has. -/
structure Conclusive {σ : Type} [ReadStream σ] (At : σ → Octets → Octets → Prop) : Prop where
  ended : ∀ {s s' before after} {n : Nat}, At s before after → 0 < n →
    ReadStream.read n s = .error .endOfStream s' → after = []
  bound : ∀ {s before after}, At s before after → after.length ≤ ReadStream.available s

/-- A stream that reports its end stays there. -/
structure Settles {σ : Type} [ReadStream σ] (At : σ → Octets → Octets → Prop) : Prop where
  ended : ∀ {s s' before after} {n : Nat}, At s before after → 0 < n →
    ReadStream.read n s = .error .endOfStream s' → after = [] ∧ At s' before []

theorem StreamError.toTruncated_ne (expected read : Nat) (e : StreamError) :
    e.toTruncated expected read ≠ .endOfStream := by
  cases e <;> simp [toTruncated]

section Fill

variable {σ : Type} [ReadStream σ] {At : σ → Octets → Octets → Prop} {before after : Octets}
  {s s' : σ}

/-- Octets end cleanly only before the first of them. -/
theorem read_of_fill (faithful : Faithful At) {n rounds filled : Nat} (stands : At s before after)
    (h : fill n rounds filled s = .error .endOfStream s') :
    filled = 0 ∧ 0 < n ∧ ReadStream.read n s = .error .endOfStream s' := by
  induction rounds generalizing s before after filled with
  | zero => cases h
  | succ rounds ih =>
      rw [fill] at h
      split at h
      · cases h
      · rename_i missing
        cases first : ReadStream.read (n - filled) s with
        | error e t =>
            simp only [first, EStateM.Result.error.injEq] at h
            obtain ⟨ended, rfl⟩ := h
            split at ended
            · rename_i start
              rw [start, Nat.sub_zero, ended] at first
              exact ⟨start, by omega, first⟩
            · exact absurd ended (StreamError.toTruncated_ne n filled e)
        | ok got middle =>
            obtain ⟨some_got, -, rest, rfl, moved⟩ := faithful.portion stands (by omega) first
            cases second : fill n rounds (filled + got.length) middle with
            | error e t =>
                simp only [first, second, EStateM.Result.error.injEq] at h
                obtain ⟨rfl, rfl⟩ := h
                have none_filled := (ih moved second).1
                omega
            | ok more t => simp [first, second] at h

theorem readUInt8_end (faithful : Faithful At) (settles : Settles At) (stands : At s before after)
    (h : readUInt8 s = .error .endOfStream s') : after = [] ∧ At s' before [] := by
  rcases bind_eq_error.mp h with failed | ⟨o, middle, -, failed⟩
  · obtain ⟨-, pos, ended⟩ := read_of_fill faithful stands failed
    exact settles.ended stands pos ended
  · cases failed

end Fill

namespace Framing

variable {σ : Type} [ReadStream σ] {At : σ → Octets → Octets → Prop} {before after : Octets}
  {s s' : σ}

/-- A message is read together with its length, which it has. -/
theorem read_some (faithful : Faithful At) (stands : At s before after) {message : Octets}
    (h : read s = .ok (some message) s') :
    ∃ rest, after = frame message ++ rest ∧ At s' (before ++ frame message) rest := by
  rw [read] at h
  split at h
  · simp at h
  · simp at h
  · rename_i size middle first
    obtain ⟨o, between, rfl, rfl, stands⟩ :=
      takes_readUInt16 faithful s middle after size stands first
    split at h
    · simp at h
    · rename_i found t second
      simp only [EStateM.Result.ok.injEq, Option.some.injEq] at h
      obtain ⟨rfl, rfl⟩ := h
      obtain ⟨o, rest, rfl, ⟨rfl, length⟩, stands⟩ :=
        (takes_readOctets faithful size.toNat).within _ _ middle t between found stands second
      have framed : Octets.ofUInt16 size ++ o = frame o := by
        rw [frame, length]
        rfl
      refine ⟨rest, ?_, ?_⟩
      · rw [← framed, List.append_assoc]
      · rwa [← framed, ← List.append_assoc]

/-- If there is no further message, there are no further octets. -/
theorem read_none (faithful : Faithful At) (conclusive : Conclusive At) (stands : At s before after)
    (h : read s = .ok none s') : after = [] := by
  rw [read] at h
  split at h
  · rename_i t first
    rcases bind_eq_error.mp first with failed | ⟨o, middle, -, failed⟩
    · obtain ⟨-, pos, ended⟩ := read_of_fill faithful stands failed
      exact conclusive.ended stands pos ended
    · cases failed
  · simp at h
  · split at h <;> simp at h

end Framing

theorem MemoryReader.settles : Settles MemoryReader.Stands where
  ended := by
    rintro r r' before after n ⟨opened, data, position⟩ pos h
    have left : r.left = after.length := by
      simp [MemoryReader.left, ← Array.length_toList, data, position]
    have some_n : n ≠ 0 := by omega
    by_cases none_left : after = []
    · subst none_left
      simp [ReadStream.read, opened, some_n, left] at h
      exact ⟨rfl, h ▸ ⟨opened, data, position⟩⟩
    · simp [ReadStream.read, opened, some_n, left, none_left] at h

theorem MemoryReader.conclusive : Conclusive MemoryReader.Stands where
  ended stands pos h := (MemoryReader.settles.ended stands pos h).1
  bound := MemoryReader.ends.bound

namespace InboundChannel

/-- The octets that arrive before the next end of file, whatever fails meanwhile. -/
def incoming : List Arrival → Octets
  | [] => []
  | .chunk [] :: _ => []
  | .chunk octets :: later => octets ++ incoming later
  | .failure _ :: later => incoming later

/-- An open connection has these octets to come. What came before is not kept. -/
def Awaits (c : InboundChannel) (_before after : Octets) : Prop :=
  c.isOpen ∧ incoming c.arrivals = after

theorem length_incoming_le (arrivals : List Arrival) :
    (incoming arrivals).length ≤ Arrival.total arrivals := by
  induction arrivals with
  | nil => exact Nat.le_refl _
  | cons arrival later ih =>
      cases arrival with
      | chunk octets =>
          cases octets with
          | nil => exact Nat.zero_le _
          | cons b more =>
              rw [incoming, Arrival.total, Arrival.size, List.length_append]
              · omega
              · simp
      | failure kind =>
          rw [incoming, Arrival.total, Arrival.size]
          omega

theorem receive_eq_ok {n : Nat} (pos : 0 < n) {arrivals later : List Arrival} {o : Octets}
    (h : receive n arrivals = (.ok o, later)) :
    0 < o.length ∧ o.length ≤ n ∧ incoming arrivals = o ++ incoming later := by
  fun_induction receive n arrivals with
  | case1 | case2 | case5 => simp at h
  | case3 octets later some_octet =>
      obtain ⟨got, rest⟩ := Prod.mk.inj h
      obtain rfl := Except.ok.inj got
      have octets_pos := List.length_pos_iff.mpr some_octet
      refine ⟨by rw [List.length_take]; omega, List.length_take_le n octets, ?_⟩
      rw [incoming.eq_3 octets later some_octet, ← rest]
      split
      · rename_i whole
        rw [List.take_of_length_le whole]
      · rename_i part
        rw [incoming.eq_3 _ later (by simpa using part), ← List.append_assoc, List.take_append_drop]
  | case4 later ih => exact ih h

theorem receive_eq_end {n : Nat} {arrivals later : List Arrival}
    (h : receive n arrivals = (.error .endOfStream, later)) : incoming arrivals = [] := by
  fun_induction receive n arrivals with
  | case1 | case2 => rfl
  | case3 | case5 => simp at h
  | case4 later ih => exact ih h

theorem faithful : Faithful Awaits where
  portion := by
    rintro c c' before after o n ⟨opened, rfl⟩ pos h
    have some_n : n ≠ 0 := by omega
    simp only [ReadStream.read, opened, some_n, Bool.not_true, Bool.false_eq_true, if_false] at h
    split at h
    · rename_i got later received
      obtain ⟨rfl, rfl⟩ := EStateM.Result.ok.inj h
      obtain ⟨some_got, short, split⟩ := receive_eq_ok pos received
      exact ⟨some_got, short, _, split, rfl, rfl⟩
    · cases h

theorem conclusive : Conclusive Awaits where
  ended := by
    rintro c c' before after n ⟨opened, rfl⟩ pos h
    have some_n : n ≠ 0 := by omega
    simp only [ReadStream.read, opened, some_n, Bool.not_true, Bool.false_eq_true, if_false] at h
    split at h
    · cases h
    · rename_i e later received
      obtain ⟨rfl, -⟩ := EStateM.Result.error.inj h
      exact receive_eq_end received
  bound := by
    rintro c before after ⟨-, rfl⟩
    exact length_incoming_le c.arrivals

end InboundChannel
end ZoneSync
