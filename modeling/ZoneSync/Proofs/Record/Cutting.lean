import ZoneSync.Proofs.Record.Decoding
import ZoneSync.Proofs.Stream.Shortage

/-!
Records that are cut short or that declare another length than their data has. The stream may run
out at any octet, inside the view of the data too; the view may end at any octet of data that the
stream has. Reading tells a clean end, a cut and a wrong length apart on each of these ways.
-/

namespace ZoneSync

variable {σ : Type} [ReadStream σ] {At : σ → Octets → Octets → Prop} {before : Octets}

section Data

variable {View : Limited σ → Octets → Octets → Prop} {wall : StreamError}
  (source : Source View) (remembers : Remembers View) (stops : StopsWith View wall)
include source remembers stops

theorem starves_soa (s : Soa) :
    Starves View before Soa.read s.wire fun _ e => ∃ k, CutShort wall k e := by
  have name {before : Octets} (n : Name) : Starves View before Name.read n.wire fun _ e =>
      ∃ k, CutShort wall k e := (Name.starves_read source stops n).mono fun k _ why => ⟨k, why⟩
  have number {before : Octets} (w : UInt32) : Starves View before readUInt32
      (Octets.ofUInt32 w) fun _ e => ∃ k, CutShort wall k e :=
    (starves_readUInt32 source stops w).mono fun k _ why => ⟨k, why⟩
  simp only [Soa.wire, List.append_assoc]
  refine (name s.mname).bind (yields_name source remembers s.mname) ?_
  refine (name s.rname).bind (yields_name source remembers s.rname) ?_
  refine (number s.serial.value).bind (yields_readUInt32 source s.serial.value) ?_
  refine (number s.refresh).bind (yields_readUInt32 source s.refresh) ?_
  refine (number s.retry).bind (yields_readUInt32 source s.retry) ?_
  refine (number s.expire).bind (yields_readUInt32 source s.expire) ?_
  exact (number s.minimum).bind_left

/-- Data with a form of its own fails as the view does that cuts it. -/
theorem RecordData.starves_formed {d : RecordData} (formed : ∀ data, d ≠ .unknown data) :
    Starves View before (RecordData.read d.type) d.wire fun _ e => ∃ k, CutShort wall k e := by
  have name (n : Name) : Starves View before Name.read n.wire fun _ e =>
      ∃ k, CutShort wall k e := (Name.starves_read source stops n).mono fun k _ why => ⟨k, why⟩
  have address {n : Nat} (a : Address n) : Starves View before (readOctets n) a.val fun _ e =>
      ∃ k, CutShort wall k e :=
    (starves_readOctets source stops a.property).mono fun k _ why => ⟨k, why⟩
  cases d with
  | a a => exact (address a).bind_left.bind_left
  | aaaa a => exact (address a).bind_left.bind_left
  | ns n => exact (name n).bind_left
  | cname n => exact (name n).bind_left
  | ptr n => exact (name n).bind_left
  | mx preference exchange =>
      have step : Starves View before
          (readUInt16 >>= fun p => Name.read >>= fun n => pure (RecordData.mx p n))
          (Octets.ofUInt16 preference ++ exchange.wire) fun _ e => ∃ k, CutShort wall k e := by
        refine Starves.bind ?_ (yields_readUInt16 source preference) ?_
        · exact (starves_readUInt16 source stops preference).mono fun k _ why => ⟨k, why⟩
        · exact ((Name.starves_read source stops exchange).mono fun k _ why => ⟨k, why⟩).bind_left
      exact step
  | soa s => exact (starves_soa source remembers stops s).bind_left
  | unknown data => exact absurd rfl (formed data)

end Data

/-- Opaque data wants all octets up to the limit of its view, so it is cut if some are missing. -/
theorem OpaqueData.starves_read (source : Source At) (stops : StopsWith At .endOfStream)
    (data : OpaqueData) {edge : Nat} (short : edge < before.length + data.octets.length) :
    Starves (Limited.Reaches At (before.length + data.octets.length) edge) before
      (OpaqueData.read data.type) data.octets fun _ e => ∃ k, CutShort .endOfStream k e := by
  intro view k inside h
  have wanted : data.octets.length = view.remaining := by
    have := h.limit
    omega
  obtain ⟨e, view', failed, why, h⟩ := starves_readOctets (Limited.reaches_source source)
    (Limited.stopsWith_beneath stops short) wanted view k inside h
  refine ⟨e, view', ?_, ⟨k, why⟩, h⟩
  rw [OpaqueData.read,
    bind_of_ok (rfl : (get : StreamM (Limited σ) (Limited σ)) view = .ok view view)]
  exact bind_of_error failed

theorem RecordData.starves_read (source : Source At) (remembers : Remembers At)
    (stops : StopsWith At .endOfStream) {d : RecordData} (typed : d.WellTyped) {edge : Nat}
    (short : edge < before.length + d.wire.length) :
    Starves (Limited.Reaches At (before.length + d.wire.length) edge) before
      (RecordData.read d.type) d.wire fun _ e => ∃ k, CutShort .endOfStream k e := by
  by_cases unformed : ∃ data, d = .unknown data
  · obtain ⟨data, rfl⟩ := unformed
    rw [RecordData.type, read_unknown typed]
    exact (OpaqueData.starves_read source stops data short).bind_left
  · have formed : ∀ data, d ≠ .unknown data := fun data same => unformed ⟨data, same⟩
    exact starves_formed (Limited.reaches_source source) (Limited.reaches_remembers remembers)
      (Limited.stopsWith_beneath stops short) formed

namespace Record

theorem readData_of_error {type : RecordType} {declared : UInt16} {s : σ} {e : StreamError}
    {view : Limited σ} (unlimited : e ≠ .limitExceeded)
    (failed : RecordData.read type { inner := s, remaining := declared.toNat } = .error e view) :
    readData type declared s =
      .error (.stream (e.toTruncated declared.toNat (declared.toNat - view.remaining)))
        view.inner := by
  rw [readData, failed]
  cases e with
  | limitExceeded => exact absurd rfl unlimited
  | _ => rfl

/-- Inside data a clean end of the stream is a truncation, however deep it is met. -/
theorem starves_readData (source : Source At) (remembers : Remembers At)
    (stops : StopsWith At .endOfStream) {d : RecordData} (typed : d.WellTyped) :
    Starves At before (readData d.type (UInt16.ofNat d.length)) d.wire fun _ e =>
      ∃ expected found, e = .stream (.truncated expected found) := by
  intro s k inside hs
  have here := Limited.reaches_take hs d.wire.length
  rw [List.take_of_length_le (List.length_take_le' k d.wire)] at here
  have short : before.length + (d.wire.take k).length < before.length + d.wire.length := by
    rw [List.length_take]
    omega
  obtain ⟨e, view, failed, ⟨k', why⟩, h⟩ :=
    RecordData.starves_read source remembers stops typed short _ k inside here
  have unlimited : e ≠ .limitExceeded := by
    rintro rfl
    cases why with
    | later _ why => obtain ⟨_, _, other⟩ := why; cases other
  rw [← toNat_ofNat_length] at failed
  obtain ⟨expected, found, why⟩ := why.truncates (UInt16.ofNat d.length).toNat
    ((UInt16.ofNat d.length).toNat - view.remaining)
  refine ⟨_, view.inner, readData_of_error unlimited failed, ?_, h.beneath_nil short⟩
  exact ⟨expected, found, by rw [why]; rfl⟩

/-- Data of a type with a form of its own takes neither more nor fewer octets than it has. -/
theorem readData_missized (source : Source At) (remembers : Remembers At) {d : RecordData}
    (formed : ∀ data, d ≠ .unknown data) {declared : UInt16}
    (other : declared ≠ UInt16.ofNat d.length) {s : σ} {more : Octets}
    (hs : At s before (d.wire ++ more)) :
    ∃ s', readData d.type declared s = .error (.rdataLength d.type declared) s' := by
  have here := Limited.reaches_take hs declared.toNat
  have unequal : declared.toNat ≠ d.wire.length := fun same =>
    other (UInt16.toNat_inj.mp (same.trans (toNat_ofNat_length d).symm))
  by_cases few : declared.toNat < d.wire.length
  · -- The view ends inside the data, and the stream beneath does not.
    have taken : (d.wire ++ more).take declared.toNat = d.wire.take declared.toNat :=
      List.take_append_of_le_length (Nat.le_of_lt few)
    have full : (d.wire.take declared.toNat).length = declared.toNat := by
      rw [List.length_take]
      omega
    rw [taken, full] at here
    obtain ⟨e, view, failed, ⟨k, why⟩, -⟩ := RecordData.starves_formed
      (Limited.reaches_source source) (Limited.reaches_remembers remembers)
      Limited.stopsWith_limit formed _ _ few here
    rw [why.eq_limitExceeded] at failed
    exact ⟨view.inner, by rw [readData, failed]⟩
  · -- The data ends inside the view.
    have taken : (d.wire ++ more).take declared.toNat =
        d.wire ++ more.take (declared.toNat - d.wire.length) := by
      rw [List.take_append, List.take_of_length_le (by omega)]
    rw [taken] at here
    obtain ⟨view, done, h⟩ := RecordData.yields_formed (Limited.reaches_source source)
      (Limited.reaches_remembers remembers) formed _ _ here
    have some_left : view.remaining ≠ 0 := by
      have := h.limit
      rw [List.length_append] at this
      omega
    exact ⟨view.inner, by rw [readData, done]; simp [some_left]⟩

/-- A record that is cut short ends cleanly only in front of its first octet. -/
theorem starves_read (source : Source At) (remembers : Remembers At)
    (stops : StopsWith At .endOfStream) {r : Record} (typed : r.WellTyped) :
    Starves At before read r.wire fun k e =>
      (k = 0 ∧ e = .stream .endOfStream) ∨
        0 < k ∧ ∃ expected found, e = .stream (.truncated expected found) := by
  rw [wire, wireBehind_eq, fixedWire_eq]
  have owner : Starves At before Name.read r.owner.wire (CutShort .endOfStream) :=
    Name.starves_read source stops r.owner
  have fixed : Starves At (before ++ r.owner.wire) (readOctets 10)
      (r.fixedDeclaring (UInt16.ofNat r.data.length)) (CutShort .endOfStream) :=
    starves_readOctets source stops (r.length_fixedDeclaring _)
  have behind : 0 < r.owner.wire.length := by simp [Name.wire, Name.wireOf_eq]
  obtain ⟨type, cls, ttl, declared⟩ := r.fields_fixedDeclaring (UInt16.ofNat r.data.length)
  refine Starves.bind (owner.adaptExcept ?_)
    ((yields_name source remembers r.owner).adaptExcept _) ?_
  · intro k e why
    cases why with
    | first => exact .inl ⟨rfl, rfl⟩
    | later pos why =>
        obtain ⟨expected, found, rfl⟩ := why
        exact .inr ⟨pos, expected, found, rfl⟩
  · refine Starves.bind ((fixed.within 10 0).adaptExcept ?_) (yields_fixed source r _) ?_
    · rintro k _ ⟨expected, found, rfl⟩
      exact .inr ⟨by omega, expected, found, rfl⟩
    · rw [type, cls, ttl, declared]
      refine ((starves_readData source remembers stops typed).mono ?_).bind_left
      exact fun k e why => .inr ⟨by omega, why⟩

theorem read_missized (source : Source At) (remembers : Remembers At) {r : Record}
    (formed : ∀ data, r.data ≠ .unknown data) {declared : UInt16}
    (other : declared ≠ UInt16.ofNat r.data.length) {s : σ} {more : Octets}
    (hs : At s before (r.wireWith r.owner.wire declared r.data.wire ++ more)) :
    ∃ s', read s = .error (.rdataLength r.type declared) s' := by
  have parts : r.wireWith r.owner.wire declared r.data.wire ++ more =
      r.owner.wire ++ (r.fixedDeclaring declared ++ (r.data.wire ++ more)) := by
    simp only [wireWith, fixedDeclaring, List.append_assoc]
  rw [parts] at hs
  obtain ⟨type, cls, ttl, length⟩ := r.fields_fixedDeclaring declared
  obtain ⟨s₁, owner, hs⟩ :=
    (yields_name source remembers r.owner).adaptExcept RecordError.stream s _ hs
  obtain ⟨s₂, fixed, hs⟩ := yields_fixed source r declared s₁ _ hs
  obtain ⟨s₃, failed⟩ := readData_missized source remembers formed other hs
  refine ⟨s₃, ?_⟩
  rw [read, bind_of_ok owner, bind_of_ok fixed, type, length]
  exact bind_of_error failed

/-- Nothing of a record is a clean end, a part of it is a truncation, and data that does not have
the declared length says so, whatever comes behind it. -/
theorem read_damaged {r : Record} (typed : r.WellTyped) :
    (∃ s, read (MemoryReader.ofOctets (r.wire.take 0)) = .error (.stream .endOfStream) s) ∧
    (∀ k, 0 < k → k < r.wire.length → ∃ expected found s,
      read (MemoryReader.ofOctets (r.wire.take k)) =
        .error (.stream (.truncated expected found)) s) ∧
    (r.type ∈ RecordType.decoded → ∃ length : UInt16, length.toNat = r.data.wire.length ∧
      r.wire = r.wireWith r.owner.wire length r.data.wire ∧
      ∀ declared ≠ length, ∀ more, ∃ s,
        read (MemoryReader.ofOctets (r.wireWith r.owner.wire declared r.data.wire ++ more)) =
          .error (.rdataLength r.type declared) s) := by
  have cut (k : Nat) (inside : k < r.wire.length) := starves_read MemoryReader.source
    MemoryReader.remembers (MemoryReader.ends.stopsWith MemoryReader.settles) typed _ k inside
    (MemoryReader.stands_ofOctets (r.wire.take k))
  refine ⟨?nothing, ?part, ?missized⟩
  case nothing =>
    have some_octet : 0 < r.wire.length := by
      rw [wire, length_wireBehind]
      omega
    obtain ⟨e, s, failed, ⟨-, rfl⟩ | ⟨pos, -⟩, -⟩ := cut 0 some_octet
    · exact ⟨s, failed⟩
    · exact absurd pos (Nat.lt_irrefl 0)
  case part =>
    intro k pos inside
    obtain ⟨e, s, failed, ⟨rfl, -⟩ | ⟨-, expected, found, rfl⟩, -⟩ := cut k inside
    · exact absurd pos (Nat.lt_irrefl 0)
    · exact ⟨expected, found, s, failed⟩
  case missized =>
    intro decoded
    have formed : ∀ data, r.data ≠ .unknown data := by
      intro data opaque_data
      rw [WellTyped, opaque_data] at typed
      rw [type, opaque_data] at decoded
      exact typed decoded
    refine ⟨UInt16.ofNat r.data.length, toNat_ofNat_length r.data, rfl, ?_⟩
    intro declared other more
    exact read_missized MemoryReader.source MemoryReader.remembers formed other
      (MemoryReader.stands_ofOctets _)

/-- A mail exchange that is cut behind its first octet, and one that declares an octet more. -/
theorem read_damaged_mx :
    let r : Record := { owner := .root, cls := .internet, ttl := 3600, data := .mx 10 .root }
    r.WellTyped ∧
    (∃ expected found s, read (MemoryReader.ofOctets (r.wire.take 1)) =
      .error (.stream (.truncated expected found)) s) ∧
    (∃ s, read (MemoryReader.ofOctets (r.wireWith r.owner.wire 4 r.data.wire ++ [0])) =
      .error (.rdataLength .mx 4) s) := by
  intro r
  have typed : r.WellTyped := trivial
  obtain ⟨-, part, missized⟩ := read_damaged typed
  obtain ⟨length, measured, -, noticed⟩ := missized (by decide)
  have other : (4 : UInt16) ≠ length := by
    rintro rfl
    exact absurd measured (by decide)
  exact ⟨typed, part 1 (by decide) (by decide), noticed 4 other [0]⟩

end Record
end ZoneSync
