/-!
Limits and framing options of transfers.
-/

namespace ZoneSync

structure TransferConfig where
  /-- The size that a message with more than one record does not exceed. -/
  maxMessageSize : Nat := 16384
  /-- The largest number of answer records in a message; 0 counts as 1. -/
  maxRecordsPerMessage : Nat := 500
  /-- A full answer ends with the start of authority. -/
  axfrClosingSoa : Bool := false
  /-- An incremental answer begins with the newest start of authority. -/
  ixfrLeadingSoa : Bool := false
  /-- The largest number of records that are taken in. -/
  maxTransferRecords : Option Nat := none
deriving DecidableEq, Repr

end ZoneSync
