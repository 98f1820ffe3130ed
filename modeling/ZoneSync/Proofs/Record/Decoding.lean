import ZoneSync.Proofs.Name.Inline
import ZoneSync.Proofs.Record.Codec

/-!
What a record was read from. The octets taken are the owner in place, the ten octets of the fixed
fields, and data as long as they declare; without pointers they are the record's wire form.
-/

namespace ZoneSync

open Name (Inline Unpointed)

/-- The octets of data as they were read, with those that each name in it takes up. -/
inductive RecordData.Layout : RecordData → (names : List Octets) → Octets → Prop
  | a (address : Address 4) : Layout (.a address) [] address.val
  | aaaa (address : Address 16) : Layout (.aaaa address) [] address.val
  | ns {name : Name} {o : Octets} (h : Inline name.labels o) : Layout (.ns name) [o] o
  | cname {name : Name} {o : Octets} (h : Inline name.labels o) : Layout (.cname name) [o] o
  | ptr {name : Name} {o : Octets} (h : Inline name.labels o) : Layout (.ptr name) [o] o
  | mx (preference : UInt16) {exchange : Name} {o : Octets} (h : Inline exchange.labels o) :
      Layout (.mx preference exchange) [o] (Octets.ofUInt16 preference ++ o)
  | soa {s : Soa} {mname rname : Octets} (first : Inline s.mname.labels mname)
      (second : Inline s.rname.labels rname) :
      Layout (.soa s) [mname, rname]
        (mname ++ rname ++ Octets.ofUInt32 s.serial.value ++ Octets.ofUInt32 s.refresh ++
          Octets.ofUInt32 s.retry ++ Octets.ofUInt32 s.expire ++ Octets.ofUInt32 s.minimum)
  | unknown (data : OpaqueData) : Layout (.unknown data) [] data.octets

/-- Data whose names meet no pointer is in wire form. -/
theorem RecordData.Layout.wire_eq {d : RecordData} {names : List Octets} {o : Octets}
    (h : d.Layout names o) (unpointed : ∀ name ∈ names, Unpointed name) : d.wire = o := by
  cases h with
  | a | aaaa | unknown => rfl
  | ns h | cname h | ptr h => exact (h.eq_wireOf (unpointed o (by simp))).symm
  | mx preference h => rw [h.eq_wireOf (unpointed _ (by simp))]; rfl
  | soa first second =>
      rw [first.eq_wireOf (unpointed _ (by simp)), second.eq_wireOf (unpointed _ (by simp))]
      rfl

variable {σ : Type} [ReadStream σ] {At : σ → Octets → Octets → Prop} {before : Octets}

section Stream

variable (faithful : Faithful At)
include faithful

theorem takes_address (n : Nat) :
    Takes At before (Address.read n) fun o (address : Address n) => o = address.val := by
  refine (takes_readOctets faithful n).bind ?_
  rintro o _ ⟨rfl, length⟩
  rw [dif_pos length]
  exact takes_pure (by simp)

theorem takes_soa :
    Takes At before Soa.read fun o s => ∃ names, RecordData.Layout (.soa s) names o := by
  refine (Name.takes_read faithful).bind fun mname m first => ?_
  refine (Name.takes_read faithful).bind fun rname r second => ?_
  refine (takes_readUInt32 faithful).bind ?_
  rintro _ serial rfl
  refine (takes_readUInt32 faithful).bind ?_
  rintro _ refresh rfl
  refine (takes_readUInt32 faithful).bind ?_
  rintro _ retry rfl
  refine (takes_readUInt32 faithful).bind ?_
  rintro _ expire rfl
  refine (takes_readUInt32 faithful).bind_pure ?_
  rintro _ minimum rfl
  exact ⟨[mname, rname], by
    simpa only [List.append_assoc] using
      RecordData.Layout.soa (s := ⟨m, r, ⟨serial⟩, refresh, retry, expire, minimum⟩) first second⟩

end Stream

/-- What reading data of a type makes of the octets it takes. -/
structure RecordData.ReadFrom (type : RecordType) (o : Octets) (d : RecordData) : Prop where
  type_eq : d.type = type
  wellTyped : d.WellTyped
  layout : ∃ names, d.Layout names o

theorem OpaqueData.takes_read {total : Nat} (faithful : Faithful At) (type : RecordType) :
    Takes (Limited.Covers At total) before (OpaqueData.read type) fun o d =>
      d.type = type ∧ o = d.octets := by
  have limited := Limited.faithful faithful total
  have step : ∀ size, Takes (Limited.Covers At total) before
      (readOctets size >>= fun o =>
        if h : o.length ≤ 65535 then
          (pure ⟨type, o, h⟩ : StreamM (Limited σ) OpaqueData) else throw .limitExceeded)
      fun o d => d.type = type ∧ o = d.octets := by
    intro size
    refine (takes_readOctets limited size).bind ?_
    rintro o _ ⟨rfl, -⟩
    split
    · exact takes_pure ⟨rfl, by simp⟩
    · exact takes_throw _ _
  intro view view' after d hs done
  rw [OpaqueData.read, get_bind] at done
  exact step view.remaining view view' after d hs done

/-- Each name read takes up octets in place. -/
theorem RecordData.takes_name (faithful : Faithful At) {form : Name → RecordData}
    {type : RecordType} (typed : ∀ name, (form name).type = type ∧ (form name).WellTyped)
    (layout : ∀ {name : Name} {o}, Inline name.labels o → (form name).Layout [o] o) :
    Takes At before (Name.read >>= fun name => pure (form name)) (ReadFrom type) :=
  (Name.takes_read faithful).bind_pure fun o name h =>
    ⟨(typed name).1, (typed name).2, [o], layout h⟩

theorem RecordData.takes_read {total : Nat} (faithful : Faithful At) (type : RecordType) :
    Takes (Limited.Covers At total) before (RecordData.read type) (ReadFrom type) := by
  have limited := Limited.faithful faithful total
  by_cases decoded : type ∈ RecordType.decoded
  · simp only [RecordType.decoded, List.mem_cons, List.not_mem_nil, or_false] at decoded
    rcases decoded with rfl | rfl | rfl | rfl | rfl | rfl | rfl
    · refine (takes_address limited 4).bind_pure ?_
      rintro _ address rfl
      exact ⟨rfl, trivial, [], .a address⟩
    · exact takes_name limited (fun _ => ⟨rfl, trivial⟩) .ns
    · exact takes_name limited (fun _ => ⟨rfl, trivial⟩) .cname
    · refine (takes_soa limited).bind_pure ?_
      rintro o s layout
      exact ⟨rfl, trivial, layout⟩
    · exact takes_name limited (fun _ => ⟨rfl, trivial⟩) .ptr
    · refine (takes_readUInt16 limited).bind ?_
      rintro _ preference rfl
      refine (Name.takes_read limited).bind_pure fun o exchange h => ?_
      exact ⟨rfl, trivial, [o], .mx preference h⟩
    · refine (takes_address limited 16).bind_pure ?_
      rintro _ address rfl
      exact ⟨rfl, trivial, [], .aaaa address⟩
  · rw [read_unknown decoded]
    refine (OpaqueData.takes_read faithful type).bind_pure ?_
    rintro _ data ⟨type_eq, rfl⟩
    refine ⟨type_eq, ?_, [], .unknown data⟩
    rwa [← type_eq] at decoded

namespace Record

/-- The view is used up, so the data is as long as it was declared to be. -/
theorem takes_readData (faithful : Faithful At) (type : RecordType) (declared : UInt16) :
    Takes At before (readData type declared) fun o d =>
      o.length = declared.toNat ∧ RecordData.ReadFrom type o d := by
  intro s s' after d hs done
  have covers : Limited.Covers At (before.length + declared.toNat)
      { inner := s, remaining := declared.toNat } before after := ⟨rfl, rfl, hs⟩
  rw [readData] at done
  cases taken : (RecordData.read type : StreamM (Limited σ) RecordData)
      { inner := s, remaining := declared.toNat } with
  | error e view =>
      rw [taken] at done
      cases e <;> cases done
  | ok data view =>
      rw [taken] at done
      dsimp only at done
      split at done
      · rename_i used_up
        obtain ⟨rfl, rfl⟩ := EStateM.Result.ok.inj done
        obtain ⟨o, rest, rfl, found, -, limit, hs⟩ :=
          RecordData.takes_read faithful type _ view after data covers taken
        rw [used_up, List.length_append] at limit
        exact ⟨o, rest, rfl, ⟨by omega, found⟩, hs⟩
      · cases done

/-- The octets of a record with the given forms of its owner and its data. -/
def wireWith (r : Record) (owner : Octets) (declared : UInt16) (data : Octets) : Octets :=
  owner ++ Octets.ofUInt16 r.type.code ++ Octets.ofUInt16 r.cls.code ++ Octets.ofUInt32 r.ttl ++
    Octets.ofUInt16 declared ++ data

/-- Ten octets are the fixed fields that are read from them. -/
theorem fixed_eq {o : Octets} (h : o.length = 10) :
    o = Octets.ofUInt16 (Octets.toUInt16 (o.take 2)) ++
      Octets.ofUInt16 (Octets.toUInt16 ((o.drop 2).take 2)) ++
      Octets.ofUInt32 (Octets.toUInt32 ((o.drop 4).take 4)) ++
      Octets.ofUInt16 (Octets.toUInt16 (o.drop 8)) := by
  rw [Octets.ofUInt16_toUInt16 (by simp [h]), Octets.ofUInt16_toUInt16 (by simp [h]),
    Octets.ofUInt32_toUInt32 (by simp [h]), Octets.ofUInt16_toUInt16 (by simp [h])]
  have ttl : (o.drop 4).take 4 ++ o.drop 8 = o.drop 4 := by
    rw [← List.drop_drop (i := 4) (j := 4), List.take_append_drop]
  have cls : (o.drop 2).take 2 ++ o.drop 4 = o.drop 2 := by
    rw [← List.drop_drop (i := 2) (j := 2), List.take_append_drop]
  rw [List.append_assoc, ttl, List.append_assoc, cls, List.take_append_drop]

/-- The octets that a record was read from: its owner in place, the length declared for its data
and the data, with the octets of every name in it. -/
structure ReadFrom (r : Record) (owner : Octets) (declared : UInt16) (names : List Octets)
    (data : Octets) : Prop where
  wellTyped : r.WellTyped
  owner : Inline r.owner.labels owner
  length : data.length = declared.toNat
  layout : r.data.Layout names data

theorem takes_read (faithful : Faithful At) :
    Takes At before Record.read fun o r => ∃ owner declared names data,
      o = r.wireWith owner declared data ∧ r.ReadFrom owner declared names data := by
  refine ((Name.takes_read faithful).adaptExcept _).bind fun owner name named => ?_
  refine (((takes_readOctets faithful 10).within 10 0).adaptExcept _).bind ?_
  rintro fixed _ ⟨rfl, length⟩
  refine (takes_readData faithful _ _).bind_pure ?_
  rintro data d ⟨fits, type_eq, wellTyped, names, layout⟩
  refine ⟨owner, Octets.toUInt16 (fixed.drop 8), names, data, ?_, wellTyped, named, fits, layout⟩
  have fields := fixed_eq length
  rw [wireWith, Record.type, type_eq]
  dsimp only
  simp only [List.append_assoc] at fields ⊢
  nth_rewrite 1 [fields]
  simp only [List.append_assoc]

/-- Without pointers, a record is read from its wire form. -/
theorem ReadFrom.wire_eq {r : Record} {owner data : Octets} {declared : UInt16}
    {names : List Octets} (h : r.ReadFrom owner declared names data)
    (unpointed : ∀ o ∈ owner :: names, Unpointed o) : r.wire = r.wireWith owner declared data := by
  have data_eq : r.data.wire = data :=
    h.layout.wire_eq fun o known => unpointed o (List.mem_cons_of_mem _ known)
  have owner_eq : owner = r.owner.wire := h.owner.eq_wireOf (unpointed owner List.mem_cons_self)
  have declared_eq : UInt16.ofNat r.data.length = declared := by
    rw [← r.data.length_wire, data_eq, h.length, UInt16.ofNat_toNat]
  rw [wire, wireBehind, wireWith, declared_eq, data_eq, owner_eq]

/-- Where a record in wire form stands, nothing else is read as one: the owner tells where it ends,
and then the fixed fields tell the length of the data. -/
theorem ReadFrom.append_inj {r s : Record} {owner data o p : Octets} {declared : UInt16}
    {names : List Octets} (h : r.ReadFrom owner declared names data)
    (same : r.wireWith owner declared data ++ o = s.wire ++ p) :
    r.wireWith owner declared data = s.wire ∧ o = p := by
  have parted : owner ++ (Octets.ofUInt16 r.type.code ++ Octets.ofUInt16 r.cls.code ++
      Octets.ofUInt32 r.ttl ++ Octets.ofUInt16 declared ++ (data ++ o)) =
      s.owner.wire ++ (s.fixedWire ++ (s.data.wire ++ p)) := by
    rw [wire, wireBehind_eq] at same
    simpa [wireWith] using same
  obtain ⟨owned, rest⟩ := h.owner.append_inj parted
  obtain ⟨fixed, rest⟩ := List.append_inj rest (by simp [fixedWire])
  obtain ⟨-, length⟩ := List.append_inj' fixed (by simp)
  have declares : declared.toNat = s.data.wire.length := by
    have long := s.data.length_le
    have value := congrArg Octets.toUInt16 length
    rw [Octets.toUInt16_ofUInt16, Octets.toUInt16_ofUInt16] at value
    rw [value, UInt16.toNat_ofNat', s.data.length_wire]
    omega
  obtain ⟨content, rest⟩ := List.append_inj rest (h.length.trans declares)
  refine ⟨?_, rest⟩
  rw [wire, wireBehind_eq, ← fixed, wireWith, owned, content]
  simp [Name.wire]

/-- A record in wire form has its declared and its real lengths and is read back, whatever lies
around it. Conversely a record that is read, in any place of a message, was laid out in octets
from the owner in place to the end of the declared data, and if these hold no pointer then they
are its wire form. -/
theorem wire_read_inverse :
    (∀ r : Record, r.WellTyped →
      r.wire.length = r.length ∧
      (∃ declared : UInt16, declared.toNat = r.data.wire.length ∧
        r.wire = r.wireWith r.owner.wire declared r.data.wire) ∧
      ∀ (s : MemoryReader) before rest, s.Stands before (r.wire ++ rest) →
        ∃ s', read s = .ok r s' ∧ s'.Stands (before ++ r.wire) rest) ∧
    (∀ (s s' : MemoryReader) before after (r : Record), s.Stands before after →
      read s = .ok r s' →
      ∃ owner declared names data rest, after = r.wireWith owner declared data ++ rest ∧
        r.ReadFrom owner declared names data ∧
        s'.Stands (before ++ r.wireWith owner declared data) rest ∧
        s'.position = s.position + owner.length + 10 + declared.toNat ∧
        ((∀ o ∈ owner :: names, Unpointed o) → r.wire = r.wireWith owner declared data)) := by
  refine ⟨fun r typed => ⟨r.length_wire, ?_, ?_⟩, ?_⟩
  · refine ⟨UInt16.ofNat r.data.length, ?_, rfl⟩
    have long := r.data.length_le
    rw [r.data.length_wire, UInt16.toNat_ofNat']
    omega
  · intro s before rest stands
    exact yields_read MemoryReader.source MemoryReader.remembers typed .whole s rest stands
  · intro s s' before after r stands done
    obtain ⟨_, rest, split, ⟨owner, declared, names, data, rfl, found⟩, moved⟩ :=
      takes_read MemoryReader.faithful s s' after r stands done
    refine ⟨owner, declared, names, data, rest, split, found, moved, ?_, found.wire_eq⟩
    rw [moved.2.2, stands.2.2, ← found.length]
    simp [wireWith]
    omega

end Record
end ZoneSync
