import ZoneSync.Proofs.Name.Spelling
import ZoneSync.Proofs.Stream.Taking

/-!
The octets that a name takes up where it is read. They hold its first labels, and then the root
or a pointer; the labels behind a pointer lie elsewhere, each stretch of them before the one that
points to it.
-/

namespace ZoneSync.Name

/-- The octets taken up in place by a name with the given labels. -/
inductive Inline : List Label → Octets → Prop
  | whole {labels : List Label} : Inline labels (wireOf labels)
  | pointed {labels : List Label} {high low : UInt8} (marked : 192 ≤ high.toNat)
      (more : List Label) : Inline (labels ++ more) (labelOctets labels ++ [high, low])

/-- The octets lead to the root and meet no pointer. -/
def Unpointed (o : Octets) : Prop := ∃ labels, o = wireOf labels

theorem Inline.cons {labels : List Label} {o : Octets} (h : Inline labels o) (l : Label) :
    Inline (l :: labels) (l.wire ++ o) := by
  cases h with
  | whole =>
      rw [← wireOf_cons]
      exact .whole
  | pointed marked more =>
      rw [← List.append_assoc, ← labelOctets_cons, ← List.cons_append]
      exact .pointed marked more

/-- Where no label starts, none is spelled: the length of a label is below what marks a pointer. -/
theorem labelOctets_pointer_ne {labels others : List Label} {high low : UInt8} {o p : Octets}
    (marked : 192 ≤ high.toNat) : labelOctets labels ++ high :: low :: o ≠ wireOf others ++ p := by
  induction labels generalizing others with
  | nil =>
      intro same
      cases others with
      | nil =>
          obtain rfl : high = 0 := (List.cons.inj same).1
          exact absurd marked (by decide)
      | cons k others =>
          have first := congrArg UInt8.toNat (List.cons.inj same).1
          have short := k.length_lt
          rw [k.toNat_length] at first
          omega
  | cons l labels ih =>
      intro same
      cases others with
      | nil => exact l.length_ne_zero (List.cons.inj same).1
      | cons k others =>
          rw [labelOctets_cons, List.append_assoc, wireOf_cons, List.append_assoc] at same
          exact ih (Label.wire_append_inj same).2

/-- Where a whole name stands, nothing else is read as one. -/
theorem Inline.append_inj {labels others : List Label} {o p q : Octets} (h : Inline labels o)
    (same : o ++ p = wireOf others ++ q) : o = wireOf others ∧ p = q := by
  cases h with
  | whole =>
      obtain ⟨rfl, rest⟩ := wireOf_append_inj same
      exact ⟨rfl, rest⟩
  | pointed marked more =>
      rw [List.append_assoc] at same
      exact absurd same (labelOctets_pointer_ne marked)

theorem Inline.eq_wireOf {labels : List Label} {o : Octets} (h : Inline labels o)
    (unpointed : Unpointed o) : o = wireOf labels := by
  cases h with
  | whole => rfl
  | pointed marked more =>
      obtain ⟨others, same⟩ := unpointed
      rw [← List.append_nil (wireOf others)] at same
      exact absurd same (labelOctets_pointer_ne marked)

theorem labels_of_push {n longer : Name} {o : Octets} (h : n.push o = .ok longer) :
    ∃ l : Label, l.octets = o ∧ longer.labels = n.labels ++ [l] := by
  rw [push] at h
  split at h
  · cases h
  · split at h
    · cases h
    · split at h
      · cases h
      · obtain rfl := Except.ok.inj h
        exact ⟨_, rfl, rfl⟩

/-- What stands where labels are read: they and the root, or they and a pointer. -/
inductive Stretch (labels : List Label) : Octets → Option UInt16 → Prop
  | root (rest : Octets) : Stretch labels (wireOf labels ++ rest) none
  | pointer {high : UInt8} (marked : 192 ≤ high.toNat) (low : UInt8) (rest : Octets) :
      Stretch labels (labelOctets labels ++ high :: low :: rest) (some (pointerTarget high low))

theorem Stretch.cons {labels : List Label} {o : Octets} {next : Option UInt16}
    (h : Stretch labels o next) (l : Label) : Stretch (l :: labels) (l.wire ++ o) next := by
  cases h with
  | root rest =>
      rw [← List.append_assoc, ← wireOf_cons]
      exact .root rest
  | pointer marked low rest =>
      rw [← List.append_assoc, ← labelOctets_cons]
      exact .pointer marked low rest

/-- A label that was taken off octets stood there behind its length. -/
theorem wire_of_push {n longer : Name} {b : UInt8} {o : Octets} (length : o.length = b.toNat)
    (h : n.push o = .ok longer) :
    ∃ l : Label, l.wire = b :: o ∧ longer.labels = n.labels ++ [l] := by
  obtain ⟨l, rfl, extended⟩ := labels_of_push h
  exact ⟨l, by rw [Label.wire, length, UInt8.ofNat_toNat], extended⟩

theorem stretch_of_labelsAt {pointer : UInt16} {n longer : Name} {o : Octets}
    {next : Option UInt16} (h : labelsAt pointer n o = .ok (longer, next)) :
    ∃ labels, longer.labels = n.labels ++ labels ∧ Stretch labels o next := by
  fun_induction labelsAt pointer n o with
  | case1 | case3 | case4 | case6 | case7 => cases h
  | case2 n rest =>
      obtain ⟨rfl, rfl⟩ := Prod.mk.inj (Except.ok.inj h)
      exact ⟨[], (List.append_nil _).symm, .root rest⟩
  | case5 n octet rest _ short inside middle pushed ih =>
      obtain ⟨labels, named, stretch⟩ := ih h
      obtain ⟨l, wire, extended⟩ :=
        wire_of_push (b := octet) (by rw [List.length_take]; omega) pushed
      refine ⟨l :: labels, by rw [named, extended, List.append_assoc]; rfl, ?_⟩
      have longer := stretch.cons l
      rwa [wire, List.cons_append, List.take_append_drop] at longer
  | case8 n octet _ _ reserved low rest =>
      obtain ⟨rfl, rfl⟩ := Prod.mk.inj (Except.ok.inj h)
      exact ⟨[], (List.append_nil _).symm, .pointer (Nat.le_of_not_lt reserved) low rest⟩

/-- The two octets of a pointer are those written for its target. -/
theorem pointer_pointerTarget {high : UInt8} (marked : 192 ≤ high.toNat) (low : UInt8) :
    SuffixTable.pointer (pointerTarget high low).toNat = [high, low] ∧
      (pointerTarget high low).toNat < SuffixTable.reach := by
  have high_lt := high.toNat_lt
  have low_lt := low.toNat_lt
  have value : (pointerTarget high low).toNat = high.toNat % 64 * 256 + low.toNat := by
    rw [pointerTarget, UInt16.toNat_ofNat']
    omega
  refine ⟨?_, by rw [value, SuffixTable.reach]; omega⟩
  rw [value, SuffixTable.pointer]
  simp only [Octets.ofNat, List.nil_append, List.cons_append, List.cons.injEq, and_true]
  constructor
  · rw [← UInt8.toNat_inj, UInt8.toNat_ofNat']
    omega
  · rw [← UInt8.toNat_inj, UInt8.toNat_ofNat']
    omega

/-- The octets of a message from a place on stand behind as many octets. -/
theorem exists_before {message o : Octets} {place : Nat} (h : message.drop place = o)
    (nonempty : o ≠ []) : ∃ before, message = before ++ o ∧ before.length = place := by
  refine ⟨message.take place, by rw [← h, List.take_append_drop], ?_⟩
  have inside : place < message.length := by
    by_contra beyond
    exact nonempty (h ▸ List.drop_eq_nil_of_le (Nat.le_of_not_lt beyond))
  rw [List.length_take]
  omega

theorem Stretch.ne_nil {labels : List Label} {o : Octets} {next : Option UInt16}
    (h : Stretch labels o next) : o ≠ [] := by
  cases h with
  | root => simp [wireOf_eq]
  | pointer => simp

/-- A pointer that was followed leads back, to a place that spells the labels added. -/
theorem spelled_of_follow {message : Octets} {n whole : Name} {pointer : UInt16} {limit : Nat}
    (h : follow message n pointer limit = .ok whole) :
    ∃ more, whole.labels = n.labels ++ more ∧ pointer.toNat < limit ∧
      Spelled message pointer.toNat more := by
  fun_induction follow message n pointer limit with
  | case1 | case4 => cases h
  | case2 n pointer limit earlier longer taken =>
      obtain rfl := Except.ok.inj h
      obtain ⟨labels, named, stretch⟩ := stretch_of_labelsAt taken
      obtain ⟨before, here, place⟩ := exists_before rfl stretch.ne_nil
      generalize message.drop pointer.toNat = o at stretch here
      cases stretch with
      | root rest =>
          rw [← List.append_assoc] at here
          exact ⟨labels, named, earlier, place ▸ .whole here⟩
  | case3 n pointer limit earlier longer next taken ih =>
      obtain ⟨more, whole_named, next_earlier, there⟩ := ih h
      obtain ⟨labels, named, stretch⟩ := stretch_of_labelsAt taken
      obtain ⟨before, here, place⟩ := exists_before rfl stretch.ne_nil
      generalize message.drop pointer.toNat = o at stretch here
      cases stretch with
      | @pointer high marked low rest =>
          obtain ⟨octets, reached⟩ := pointer_pointerTarget marked low
          refine ⟨labels ++ more, by rw [whole_named, named, List.append_assoc], earlier, ?_⟩
          have stands : message = before ++ (labelOctets labels ++
              SuffixTable.pointer (pointerTarget high low).toNat) ++ rest := by
            rw [here, octets]
            simp
          rw [← place] at next_earlier ⊢
          exact .pointed stands next_earlier reached there

theorem spelled_of_followFirst {consumed : Option Octets} {n whole : Name} {pointer : UInt16}
    (h : followFirst consumed n pointer = .ok whole) :
    ∃ message more, consumed = some message ∧ whole.labels = n.labels ++ more ∧
      pointer.toNat < message.length - 2 ∧ Spelled message pointer.toNat more := by
  cases consumed with
  | none => cases h
  | some message =>
      rw [followFirst] at h
      split at h
      · cases h
      · obtain ⟨more, named, earlier, there⟩ := spelled_of_follow h
        exact ⟨message, more, rfl, named, earlier, there⟩

/-- How the octets behind others made a name out of `n`: they are its further labels and the root,
or labels and a pointer that was followed in what the stream keeps. -/
inductive ReadOff (Kept : Octets → Option Octets → Prop) (before : Octets) (n name : Name) :
    Octets → Prop
  | whole {labels : List Label} (named : name.labels = n.labels ++ labels) :
      ReadOff Kept before n name (wireOf labels)
  | pointed {labels : List Label} {longer : Name} {high low : UInt8} {consumed : Option Octets}
      (extended : longer.labels = n.labels ++ labels) (marked : 192 ≤ high.toNat)
      (kept : Kept (before ++ (labelOctets labels ++ [high, low])) consumed)
      (followed : followFirst consumed longer (pointerTarget high low) = .ok name) :
      ReadOff Kept before n name (labelOctets labels ++ [high, low])

theorem ReadOff.cons {Kept : Octets → Option Octets → Prop} {before o : Octets}
    {n longer name : Name} {l : Label} (extended : longer.labels = n.labels ++ [l])
    (h : ReadOff Kept (before ++ l.wire) longer name o) :
    ReadOff Kept before n name (l.wire ++ o) := by
  cases h with
  | @whole labels named =>
      rw [← wireOf_cons]
      refine .whole ?_
      rw [named, extended, List.append_assoc]
      rfl
  | @pointed labels further high low consumed extended' marked kept followed =>
      rw [← List.append_assoc, ← labelOctets_cons]
      refine .pointed ?_ marked ?_ followed
      · rw [extended', extended, List.append_assoc]
        rfl
      · rw [labelOctets_cons]
        simpa only [List.append_assoc] using kept

/-- Whatever a stream keeps, a name takes up its first labels in place. -/
theorem ReadOff.inline {Kept : Octets → Option Octets → Prop} {before o : Octets} {name : Name}
    (h : ReadOff Kept before root name o) : Inline name.labels o := by
  cases h with
  | whole named =>
      rw [named]
      exact .whole
  | pointed extended marked kept followed =>
      obtain ⟨-, more, -, named, -⟩ := spelled_of_followFirst followed
      rw [named, extended]
      exact .pointed marked more

section Read

variable {σ : Type} [ReadStream σ] {At : σ → Octets → Octets → Prop} {before : Octets}

theorem takes_octet (faithful : Faithful At) (read : Nat) {α : Type} {f : UInt8 → StreamM σ α}
    {R : Octets → α → Prop}
    (rest : ∀ b, Takes At (before ++ [b]) (f b) fun o a => R (b :: o) a) :
    Takes At before (if read = 0 then readUInt8 >>= f else within (read + 1) read readUInt8 >>= f)
      R := by
  have step : ∀ o b, o = [b] → Takes At (before ++ o) (f b) fun p a => R (o ++ p) a := by
    rintro _ b rfl
    exact rest b
  split
  · exact (takes_readUInt8 faithful).bind step
  · exact ((takes_readUInt8 faithful).within _ _).bind step

variable {Kept : Octets → Option Octets → Prop}
  (kept : ∀ s before after, At s before after → Kept before (ReadStream.consumed s))
include kept

/-- The labels behind a pointer are read off the octets kept, and the stream stays in place. -/
theorem takes_followFirst (n : Name) (pointer : UInt16) :
    Takes At before
      (do
        let stream ← get
        match followFirst (ReadStream.consumed stream) n pointer with
        | .error e => throw e
        | .ok whole => return whole : StreamM σ Name)
      fun o name => o = [] ∧
        ∃ consumed, Kept before consumed ∧ followFirst consumed n pointer = .ok name := by
  intro s s' after name hs done
  rw [get_bind] at done
  cases followed : followFirst (ReadStream.consumed s) n pointer with
  | error e =>
      rw [followed] at done
      cases done
  | ok whole =>
      rw [followed] at done
      obtain ⟨rfl, rfl⟩ := EStateM.Result.ok.inj done
      exact ⟨[], after, rfl, ⟨rfl, _, kept s before after hs, followed⟩, by rwa [List.append_nil]⟩

theorem takes_readFrom (faithful : Faithful At) (rounds read : Nat) (n : Name) :
    Takes At before (readFrom rounds read n) fun o name => ReadOff Kept before n name o := by
  induction rounds generalizing before read n with
  | zero => exact takes_throw _ _
  | succ rounds ih =>
      rw [readFrom]
      refine takes_octet faithful read fun b => ?_
      dsimp only
      split
      · rename_i root
        have all : n.labels = n.labels ++ [] := (List.append_nil _).symm
        refine takes_pure ?_
        rw [root]
        exact .whole all
      · split
        · refine ((takes_readOctets faithful b.toNat).within _ _).bind ?_
          rintro label _ ⟨rfl, length⟩
          split
          · exact takes_throw _ _
          · rename_i longer pushed
            obtain ⟨l, wire, extended⟩ := wire_of_push length pushed
            refine (ih _ longer).mono fun o name found => ?_
            rw [← List.cons_append, ← wire]
            rw [List.append_assoc, List.singleton_append, ← wire] at found
            exact found.cons extended
        · split
          · exact takes_throw _ _
          · rename_i reserved
            refine ((takes_readUInt8 faithful).within _ _).bind ?_
            rintro _ low rfl
            refine (takes_followFirst kept n _).mono ?_
            rintro _ name ⟨rfl, consumed, found, followed⟩
            have extended : n.labels = n.labels ++ [] := (List.append_nil _).symm
            exact .pointed extended (Nat.le_of_not_lt reserved) (by simpa using found) followed

omit kept in
theorem takes_read (faithful : Faithful At) :
    Takes At before Name.read fun o name => Inline name.labels o := by
  have step : Takes At before Name.read fun o name =>
      ReadOff (fun _ _ => True) before root name o :=
    takes_readFrom (fun _ _ _ _ => trivial) faithful 128 0 root
  exact step.mono fun _ _ found => found.inline

end Read
end ZoneSync.Name
