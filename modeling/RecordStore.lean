import RecordStore.Bytes.Basic
import RecordStore.Bytes.LittleEndian
import RecordStore.Text
import RecordStore.Bytes.Utf8
import RecordStore.Decimal.Format
import RecordStore.Decimal.Basic
import RecordStore.Decimal.Shortest
import RecordStore.Decimal.Numeral
import RecordStore.ValueType
import RecordStore.ObjectId
import RecordStore.Value.Basic
import RecordStore.Value.Conversion
import RecordStore.Value.Text
import RecordStore.Stream
import RecordStore.Digest.Blake3
import RecordStore.Schema.Codec
import RecordStore.Record.Field
import RecordStore.Record.Basic
import RecordStore.Table.Walk
import RecordStore.Table.Edit
import RecordStore.Metadata
import RecordStore.Proofs.Session.Storage
import RecordStore.Proofs.Session.Walking
import RecordStore.Proofs.Session.Compaction
import RecordStore.Proofs.Session.Sheet
import RecordStore.Proofs.Session.RoundTrip
import RecordStore.Proofs.Table.Streaming
import RecordStore.Proofs.Table.Rewriting
import RecordStore.Proofs.Table.Cursors
import RecordStore.Proofs.Session.Cursors
import RecordStore.Proofs.Session.Migration
import RecordStore.Proofs.Schema.Editing
import RecordStore.Proofs.Schema.RoundTrip
import RecordStore.Proofs.Table.Canonical
import RecordStore.Proofs.Session.Canonical
import RecordStore.Proofs.Metadata.Entries
import RecordStore.Proofs.Metadata.Map
import RecordStore.Proofs.Schema.Fingerprint
import RecordStore.Proofs.Session.BoundedSink
import RecordStore.Proofs.Memory.Slack
import RecordStore.Proofs.Memory.Replacing
import RecordStore.Proofs.Metadata.Reading
import RecordStore.Proofs.Record.RoundTrip
import RecordStore.Proofs.Record.Checked
import RecordStore.Proofs.Memory.Reshaping
import RecordStore.Proofs.Value.Integer
import RecordStore.Proofs.Value.Truncation
import RecordStore.Proofs.Value.Equality
import RecordStore.Proofs.Session.Reservation
import RecordStore.Proofs.Session.Oversized
import RecordStore.Proofs.Memory.Moving
