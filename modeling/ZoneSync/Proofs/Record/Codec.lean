import ZoneSync.Message.Question
import ZoneSync.Proofs.Name.Spelling
import ZoneSync.Record.Read
import ZoneSync.Record.Wire

/-!
Reading takes back what was written: data from a view of its length, and records and questions
behind a name in any form that continues the message.
-/

namespace ZoneSync

/-- The types whose data is taken apart. -/
def RecordType.decoded : List RecordType := [.a, .ns, .cname, .soa, .ptr, .mx, .aaaa]

/-- Opaque data has a type without a form of its own. -/
def RecordData.WellTyped : RecordData → Prop
  | unknown data => data.type ∉ RecordType.decoded
  | _ => True

instance (d : RecordData) : Decidable d.WellTyped :=
  match d with
  | .unknown data => inferInstanceAs (Decidable (data.type ∉ RecordType.decoded))
  | .a _ | .aaaa _ | .ns _ | .cname _ | .ptr _ | .mx .. | .soa _ => .isTrue trivial

def Record.WellTyped (r : Record) : Prop := r.data.WellTyped

instance (r : Record) : Decidable r.WellTyped := inferInstanceAs (Decidable r.data.WellTyped)

theorem Record.isSome_soa?_iff {r : Record} : r.soa?.isSome ↔ r.type = .soa ∧ r.WellTyped := by
  obtain ⟨owner, cls, ttl, data⟩ := r
  cases data with
  | soa => exact ⟨fun _ => ⟨rfl, trivial⟩, fun _ => rfl⟩
  | unknown data =>
      refine ⟨nofun, fun ⟨type, typed⟩ => absurd ?_ typed⟩
      have type : data.type = .soa := type
      rw [type]
      decide
  | a | aaaa | ns | cname | ptr | mx => exact ⟨nofun, nofun⟩

theorem RecordData.length_le (d : RecordData) : d.length ≤ 65535 := by
  cases d with
  | a _ | aaaa _ => simp [length]
  | ns n | cname n | ptr n | mx _ n =>
      have := n.length_le
      simp only [length, Name.length, Name.wire]
      omega
  | soa s =>
      have first := s.mname.length_le
      have second := s.rname.length_le
      simp only [length, Name.length, Name.wire]
      omega
  | unknown data => exact data.length_le

variable {σ : Type} [ReadStream σ] {At : σ → Octets → Octets → Prop} {before : Octets}

section Stream

variable (source : Source At) (remembers : Remembers At)
include source

theorem yields_address {n : Nat} (address : Address n) :
    Yields At before (Address.read n) address.val address := by
  have octets : Yields At before (readOctets n) _ _ := yields_readOctets source address.property
  have whole := octets.bind (p := []) (f := fun o =>
    if h : o.length = n then (pure ⟨o, h⟩ : StreamM σ (Address n)) else throw .endOfStream)
    (by simpa [address.property] using yields_pure address)
  rwa [List.append_nil] at whole

include remembers

theorem yields_name (name : Name) : Yields At before Name.read name.wire name :=
  Name.yields_read_written source remembers .whole

theorem yields_soa (s : Soa) : Yields At before Soa.read s.wire s := by
  simp only [Soa.wire, List.append_assoc]
  refine (yields_name source remembers s.mname).bind ?_
  refine (yields_name source remembers s.rname).bind ?_
  refine (yields_readUInt32 source s.serial.value).bind ?_
  refine (yields_readUInt32 source s.refresh).bind ?_
  refine (yields_readUInt32 source s.retry).bind ?_
  refine (yields_readUInt32 source s.expire).bind ?_
  exact (yields_readUInt32 source s.minimum).bind_pure

theorem yields_mx (preference : UInt16) (exchange : Name) :
    Yields At before
      (readUInt16 >>= fun p => Name.read >>= fun n => pure (RecordData.mx p n))
      (RecordData.mx preference exchange).wire (.mx preference exchange) := by
  refine (yields_readUInt16 source preference).bind ?_
  exact (yields_name source remembers exchange).bind_pure

end Stream

/-- Data of a type with a form of its own takes its octets and no others, from whatever view. -/
theorem RecordData.yields_formed {View : Limited σ → Octets → Octets → Prop}
    (source : Source View) (remembers : Remembers View) {d : RecordData}
    (formed : ∀ data, d ≠ .unknown data) :
    Yields View before (RecordData.read d.type) d.wire d := by
  cases d with
  | a address => exact (yields_address source address).bind_pure
  | aaaa address => exact (yields_address source address).bind_pure
  | ns name => exact (yields_name source remembers name).bind_pure
  | cname name => exact (yields_name source remembers name).bind_pure
  | ptr name => exact (yields_name source remembers name).bind_pure
  | mx preference exchange => exact yields_mx source remembers preference exchange
  | soa s => exact (yields_soa source remembers s).bind_pure
  | unknown data => exact absurd rfl (formed data)

theorem RecordData.yields_read (source : Source At) (remembers : Remembers At) (beyond : Octets)
    {d : RecordData} (formed : ∀ data, d ≠ .unknown data) :
    Yields (Limited.Spans At beyond) before (RecordData.read d.type) d.wire d :=
  yields_formed (Limited.source source beyond) (Limited.remembers remembers beyond) formed

/-- Opaque data takes everything that its view has. -/
theorem OpaqueData.read_eq_ok (source : Source At) (beyond : Octets) (data : OpaqueData)
    {view : Limited σ} (h : Limited.Spans At beyond view before data.octets) :
    ∃ view', OpaqueData.read data.type view = .ok data view' ∧
      Limited.Spans At beyond view' (before ++ data.octets) [] := by
  have left : data.octets.length = view.remaining := h.2.1.symm
  obtain ⟨view', taken, h⟩ := yields_readOctets (Limited.source source beyond) left view []
    (by simpa using h)
  refine ⟨view', ?_, h⟩
  rw [OpaqueData.read]
  rw [bind_of_ok (rfl : (get : StreamM (Limited σ) (Limited σ)) view = .ok view view),
    bind_of_ok taken, dif_pos data.length_le]
  rfl

theorem RecordData.read_unknown {type : RecordType} (h : type ∉ RecordType.decoded) :
    (RecordData.read type : StreamM (Limited σ) RecordData) =
      OpaqueData.read type >>= fun d => pure (.unknown d) := by
  simp only [RecordType.decoded, List.mem_cons, List.not_mem_nil, not_or] at h
  simp [RecordData.read, h]

theorem RecordData.read_eq_ok (source : Source At) (remembers : Remembers At) (beyond : Octets)
    {d : RecordData} (typed : d.WellTyped) {view : Limited σ}
    (h : Limited.Spans At beyond view before d.wire) :
    ∃ view', RecordData.read d.type view = .ok d view' ∧
      Limited.Spans At beyond view' (before ++ d.wire) [] := by
  by_cases unformed : ∃ data, d = .unknown data
  · obtain ⟨data, rfl⟩ := unformed
    obtain ⟨view', taken, h⟩ := OpaqueData.read_eq_ok source beyond data h
    refine ⟨view', ?_, h⟩
    rw [RecordData.type, read_unknown typed, bind_of_ok taken]
    rfl
  · have formed : ∀ data, d ≠ .unknown data := fun data same => unformed ⟨data, same⟩
    exact yields_read source remembers beyond formed view [] (by simpa using h)

namespace Record

/-- The length that is declared for data is its length, since no data is too long for that. -/
theorem toNat_ofNat_length (d : RecordData) : (UInt16.ofNat d.length).toNat = d.wire.length := by
  have long := d.length_le
  rw [UInt16.toNat_ofNat', d.length_wire]
  omega

theorem yields_readData (source : Source At) (remembers : Remembers At) {d : RecordData}
    (typed : d.WellTyped) :
    Yields At before (readData d.type (UInt16.ofNat d.length)) d.wire d := by
  intro s rest hs
  have spans : Limited.Spans At rest { inner := s, remaining := d.wire.length } before d.wire :=
    ⟨rfl, rfl, hs⟩
  obtain ⟨view, taken, -, left, hs⟩ := RecordData.read_eq_ok source remembers rest typed spans
  refine ⟨view.inner, ?_, hs⟩
  rw [readData, toNat_ofNat_length, taken]
  simp [left]

def fixedWire (r : Record) : Octets :=
  Octets.ofUInt16 r.type.code ++ Octets.ofUInt16 r.cls.code ++ Octets.ofUInt32 r.ttl ++
    Octets.ofUInt16 (UInt16.ofNat r.data.length)

/-- The octets between owner and data, with any length of the data declared in them. -/
def fixedDeclaring (r : Record) (declared : UInt16) : Octets :=
  Octets.ofUInt16 r.type.code ++ Octets.ofUInt16 r.cls.code ++ Octets.ofUInt32 r.ttl ++
    Octets.ofUInt16 declared

theorem fixedWire_eq (r : Record) :
    r.fixedWire = r.fixedDeclaring (UInt16.ofNat r.data.length) := rfl

theorem length_fixedDeclaring (r : Record) (declared : UInt16) :
    (r.fixedDeclaring declared).length = 10 := by
  simp [fixedDeclaring]

/-- What is read from these octets are the fields that stand in them. -/
theorem fields_fixedDeclaring (r : Record) (declared : UInt16) :
    Octets.toUInt16 ((r.fixedDeclaring declared).take 2) = r.type.code ∧
    Octets.toUInt16 (((r.fixedDeclaring declared).drop 2).take 2) = r.cls.code ∧
    Octets.toUInt32 (((r.fixedDeclaring declared).drop 4).take 4) = r.ttl ∧
    Octets.toUInt16 ((r.fixedDeclaring declared).drop 8) = declared := by
  refine ⟨?type, ?cls, ?ttl, ?declared⟩
  case type =>
    rw [fixedDeclaring, List.append_assoc, List.append_assoc, List.take_left' (by simp),
      Octets.toUInt16_ofUInt16]
  case cls =>
    rw [fixedDeclaring, List.append_assoc, List.append_assoc, List.drop_left' (by simp),
      List.take_left' (by simp), Octets.toUInt16_ofUInt16]
  case ttl =>
    rw [fixedDeclaring, List.append_assoc, List.drop_left' (by simp), List.take_left' (by simp),
      Octets.toUInt32_ofUInt32]
  case declared =>
    rw [fixedDeclaring, List.drop_left' (by simp), Octets.toUInt16_ofUInt16]

theorem yields_fixed (source : Source At) (r : Record) (declared : UInt16) :
    Yields At before ((within 10 0 (readOctets 10)).adaptExcept RecordError.stream)
      (r.fixedDeclaring declared) (r.fixedDeclaring declared) :=
  ((yields_readOctets source (r.length_fixedDeclaring declared)).within 10 0).adaptExcept _

theorem wireBehind_eq (owner : Octets) (r : Record) :
    r.wireBehind owner = owner ++ (r.fixedWire ++ r.data.wire) := by
  simp [wireBehind, fixedWire]

/-- A record is read back behind its owner in whatever form that is written. -/
theorem yields_read (source : Source At) (remembers : Remembers At) {r : Record} {owner : Octets}
    (typed : r.WellTyped) (written : Name.Written before r.owner owner) :
    Yields At before read (r.wireBehind owner) r := by
  rw [wireBehind_eq, fixedWire_eq]
  obtain ⟨type, cls, ttl, declared⟩ := r.fields_fixedDeclaring (UInt16.ofNat r.data.length)
  refine ((Name.yields_read_written source remembers written).adaptExcept _).bind ?_
  refine (yields_fixed source r _).bind ?_
  rw [type, cls, ttl, declared]
  exact (yields_readData source remembers typed).bind_pure

end Record

theorem Question.yields_read (source : Source At) (remembers : Remembers At) {q : Question}
    {name : Octets} (written : Name.Written before q.name name) :
    Yields At before read (q.wireBehind name) q := by
  rw [wireBehind, List.append_assoc]
  refine (Name.yields_read_written source remembers written).bind ?_
  refine ((yields_readUInt16 source q.type.code).within 4 0).bind ?_
  exact ((yields_readUInt16 source q.cls.code).within 4 2).bind_pure

end ZoneSync
