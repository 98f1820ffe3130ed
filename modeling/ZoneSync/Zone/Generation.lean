import ZoneSync.Zone.Diff

/-!
One published content of a zone: the start of authority at the apex and the other records,
which lie in the zone, have its class, and differ pairwise in more than their time to live.
-/

namespace ZoneSync

structure ZoneVersion where
  token : Token
  soa : SoaRecord
deriving DecidableEq

def ZoneVersion.serial (v : ZoneVersion) : Serial := v.soa.serial

structure Generation where
  token : Token
  soa : SoaRecord
  records : List Record
deriving DecidableEq

namespace Generation

def serial (g : Generation) : Serial := g.soa.serial

def version (g : Generation) : ZoneVersion := ⟨g.token, g.soa⟩

/-- All records, the start of authority first. -/
def allRecords (g : Generation) : List Record := g.soa.record :: g.records

/-- Why a record cannot be part of a zone, if it cannot. -/
def refusal? (origin : Name) (cls : RecordClass) (r : Record) : Option Rejection :=
  if r.type = .soa then some (.unexpectedSoa r.owner)
  else if !r.owner.endsWith origin then some (.outsideZone r.owner origin)
  else if r.cls ≠ cls then some (.wrongClass r.owner r.cls cls)
  else none

/-- Refuses the first record that cannot be part of a zone. -/
def check (origin : Name) (cls : RecordClass) (records : List Record) : Except StoreError Unit :=
  match records.findSome? (refusal? origin cls) with
  | some why => .error (.rejected why)
  | none => .ok ()

/-- Keeps of several elements with one key the last. -/
def keepLastBy {α κ : Type} [BEq κ] (key : α → κ) : List α → List α
  | [] => []
  | x :: later =>
    if later.any fun y => key x == key y then keepLastBy key later
    else x :: keepLastBy key later

/-- Drops every record that a later one has the same data as. -/
def keepLast (records : List Record) : List Record :=
  (keepLastBy Prod.fst (records.map fun r => (r.key, r))).map Prod.snd

@[simp] theorem keepLast_nil : keepLast [] = [] := rfl

theorem keepLast_cons (r : Record) (later : List Record) :
    keepLast (r :: later) =
      if later.any r.sameData then keepLast later else r :: keepLast later := by
  have same : later.any r.sameData = later.any fun s => r.key == s.key := rfl
  simp only [keepLast, List.map_cons, keepLastBy, List.any_map, Function.comp_def, same]
  split <;> rfl

def build (token : Token) (origin : Name) (soa : Record) (records : List Record) :
    Except StoreError Generation :=
  match soa.soaRecord? with
  | none => .error .missingSoa
  | some soa =>
    if !soa.owner.same origin then .error (.rejected (.notApex soa.owner origin))
    else (check origin soa.cls records).map fun () => ⟨token, soa, keepLast records⟩

/-- The records after one diff. What it puts in replaces records with the same data. -/
def change (records : List Record) (d : ZoneDiff) : List Record :=
  let mentioned := (d.removed ++ d.added).map Record.key
  records.filter (fun r => !mentioned.contains r.key) ++ keepLast d.added

/-- The records after several diffs, of which each may put in only records of the zone. -/
def changeAll (origin : Name) (cls : RecordClass) :
    (records : List Record) → List ZoneDiff → Except StoreError (List Record)
  | records, [] => .ok records
  | records, d :: later =>
    (check origin cls d.added).bind fun () => changeAll origin cls (change records d) later

/-- The generation that a chain of diffs leads to. Taking out a record that is not there is no
error. -/
def apply (g : Generation) (token : Token) (origin : Name) (diffs : List ZoneDiff) :
    Except StoreError Generation :=
  match diffs.getLast? with
  | none => .error (.rejected .emptyDelta)
  | some last =>
    if !ZoneDiff.isContiguous diffs g.serial last.toSerial then
      .error (.rejected (.wrongStart g.serial))
    else (changeAll origin g.soa.cls g.records diffs).bind fun records =>
      build token origin last.toSoa.record records

end Generation
end ZoneSync
