import ZoneSync.Text.Json
import ZoneSync.Transfer.Config
import ZoneSync.Zone.Store

/-!
Settings as JSON texts. What a text leaves out has its default.
-/

namespace ZoneSync

/-- The numbers that a setting can hold lie below this. -/
def sizeBound : Nat := UInt64.size

def Json.limit? : Json → Option (Option Nat)
  | .null => some none
  | j => (j.below? sizeBound).map some

def TransferConfig.fieldNames : List String :=
  ["max_message_size", "max_records_per_message", "axfr_closing_soa", "ixfr_leading_soa",
    "max_transfer_records"]

def TransferConfig.ofText? (text : String) : Option TransferConfig := do
  let unset : TransferConfig := {}
  match ← (← Json.ofText? text).fields? fieldNames with
  | [size, records, closing, leading, limit] =>
    return {
      maxMessageSize := ← Json.field? unset.maxMessageSize (Json.below? sizeBound) size
      maxRecordsPerMessage :=
        ← Json.field? unset.maxRecordsPerMessage (Json.below? UInt16.size) records
      axfrClosingSoa := ← Json.field? unset.axfrClosingSoa Json.bool? closing
      ixfrLeadingSoa := ← Json.field? unset.ixfrLeadingSoa Json.bool? leading
      maxTransferRecords := ← Json.field? unset.maxTransferRecords Json.limit? limit }
  | _ => none

def StoreLimits.fieldNames : List String := ["max_deltas", "retained_generations"]

def StoreLimits.ofText? (text : String) : Option StoreLimits := do
  let unset : StoreLimits := {}
  match ← (← Json.ofText? text).fields? fieldNames with
  | [deltas, generations] =>
    return {
      maxDeltas := ← Json.field? unset.maxDeltas (Json.below? sizeBound) deltas
      retainedGenerations :=
        ← Json.field? unset.retainedGenerations (Json.below? sizeBound) generations }
  | _ => none

def Json.numberOfText? (bound : Nat) (text : String) : Option Nat := do
  (← Json.ofText? text).below? bound

end ZoneSync
