import ZoneSync.Name.Text
import ZoneSync.Record.Basic

/-!
The text forms of records. Opaque data is written in the generic form that gives its length
and its octets in hexadecimal.
-/

namespace ZoneSync

def Soa.text (s : Soa) : String :=
  " ".intercalate [s.mname.text, s.rname.text, s.serial.text, toString s.refresh.toNat,
    toString s.retry.toNat, toString s.expire.toNat, toString s.minimum.toNat]

def OpaqueData.text (d : OpaqueData) : String :=
  if d.octets.isEmpty then "\\# 0"
  else "\\# " ++ toString d.octets.length ++ " " ++ Octets.hex d.octets

def RecordData.text : RecordData → String
  | .a address => address.text4
  | .aaaa address => address.text6
  | .ns name | .cname name | .ptr name => name.text
  | .mx preference exchange => toString preference.toNat ++ " " ++ exchange.text
  | .soa start => start.text
  | .unknown data => data.text

def Record.text (r : Record) : String :=
  " ".intercalate [r.owner.text, toString r.ttl.toNat, r.cls.text, r.type.text, r.data.text]

end ZoneSync
