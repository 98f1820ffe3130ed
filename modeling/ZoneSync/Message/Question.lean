import ZoneSync.Name.Compressed
import ZoneSync.Name.Text
import ZoneSync.Registry

/-!
Questions: the name, type and class that a message asks for.
-/

namespace ZoneSync

structure Question where
  name : Name
  type : RecordType
  cls : RecordClass
deriving DecidableEq

namespace Question

def text (q : Question) : String :=
  q.name.text ++ " " ++ q.cls.text ++ " " ++ q.type.text

/-- The wire form behind the given octets of the name. -/
def wireBehind (name : Octets) (q : Question) : Octets :=
  name ++ Octets.ofUInt16 q.type.code ++ Octets.ofUInt16 q.cls.code

def wire (q : Question) : Octets := q.wireBehind q.name.wire

def read {σ : Type} [ReadStream σ] : StreamM σ Question := do
  let name ← Name.read
  let type ← within 4 0 readUInt16
  let cls ← within 4 2 readUInt16
  return ⟨name, ⟨type⟩, ⟨cls⟩⟩

end Question
end ZoneSync
