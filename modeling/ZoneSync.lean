import ZoneSync.Deflate.Codec
import ZoneSync.Name.Wire
import ZoneSync.Record.Text
import ZoneSync.Settings
import ZoneSync.Stream.Stack
import ZoneSync.Transfer.Primary
import ZoneSync.Transfer.Secondary
import ZoneSync.Zone.Snapshot
import ZoneSync.Proofs.Transfer.Atomicity
import ZoneSync.Proofs.Transfer.Compatibility
import ZoneSync.Proofs.Transfer.Splitting
import ZoneSync.Proofs.Transfer.Truncation
import ZoneSync.Proofs.Message.Editing
import ZoneSync.Proofs.Record.Decoding
import ZoneSync.Proofs.Zone.Pinning
import ZoneSync.Proofs.Name.Decompression
import ZoneSync.Proofs.Transfer.Carrying
import ZoneSync.Proofs.Transfer.Partition
import ZoneSync.Proofs.Stream.Ending
import ZoneSync.Proofs.Transfer.Vetting
import ZoneSync.Proofs.Name.Presentation
import ZoneSync.Proofs.Stream.Lines
import ZoneSync.Proofs.Zone.Snapshot
import ZoneSync.Proofs.Zone.Integrity
import ZoneSync.Proofs.Zone.Saving
import ZoneSync.Proofs.Stream.Playing
import ZoneSync.Proofs.Stream.ReadAhead
import ZoneSync.Proofs.Stream.WriteBehind
import ZoneSync.Proofs.Stream.Framing
import ZoneSync.Proofs.Transfer.Asking
import ZoneSync.Proofs.Stream.Closing
import ZoneSync.Proofs.Transfer.Exclusion
import ZoneSync.Proofs.Zone.Applying
import ZoneSync.Proofs.Zone.Lookup
import ZoneSync.Proofs.Zone.Committing
import ZoneSync.Proofs.Zone.Replaying
import ZoneSync.Proofs.Transfer.Deciding
import ZoneSync.Proofs.Record.Cutting
import ZoneSync.Proofs.Message.Refusing
import ZoneSync.Proofs.Transfer.Interrupting
import ZoneSync.Proofs.Transfer.Capping
import ZoneSync.Proofs.Transfer.Repeating
import ZoneSync.Proofs.Stream.Metering
import ZoneSync.Proofs.Name.Validity
import ZoneSync.Proofs.Serial.Order
import ZoneSync.Proofs.Name.Comparison
import ZoneSync.Proofs.Name.Escaping
import ZoneSync.Proofs.Stream.Bounding
