import AslanCore.Audit
import AslanCore.Auth.Rotation
import AslanCore.Deadletter.Delivery
import AslanCore.Deadletter.Orphans
import AslanCore.Deadletter.Reconciliation
import AslanCore.Deadletter.Redacting
import AslanCore.Deadletter.Rehashing
import AslanCore.Deadletter.SchemaGate
import AslanCore.Deadletter.Verification
import AslanCore.Deadletter.Yielding
import AslanCore.Documents.Amendment
import AslanCore.Documents.Compensation
import AslanCore.Documents.ReadYourWrite
import AslanCore.Financials.Answers
import AslanCore.Financials.Series
import AslanCore.Ingestion.Closure
import AslanCore.Ingestion.CursorChain
import AslanCore.Observability.Idempotence
import AslanCore.Observability.Secrecy
import AslanCore.Outbox.Lookup
import AslanCore.Outbox.Progress
import AslanCore.Outbox.Repair
import AslanCore.Process.Amid
import AslanCore.Process.Outline
import AslanCore.Registry.Attribution
import AslanCore.Registry.Creation
import AslanCore.Registry.Expiry
import AslanCore.Registry.Listing
import AslanCore.Research.ApiKeys
import AslanCore.Research.Caching
import AslanCore.Research.Cursor
import AslanCore.Research.Entities
import AslanCore.Research.EventPayloads
import AslanCore.Research.Instants
import AslanCore.Research.Interval
import AslanCore.Research.Pages
import AslanCore.Research.Throttling
import AslanCore.Research.Versions
import AslanCore.Store.Isolation
import AslanCore.Store.Recording
import AslanCore.Store.Select
import AslanCore.Store.Stream
import AslanCore.Streams.Addressed
import AslanCore.Streams.Wire
import AslanCore.Timeseries.BatchHash
import AslanCore.Timeseries.Bulk
import AslanCore.Timeseries.Collapse
import AslanCore.Timeseries.Identifying
import AslanCore.Timeseries.NumericKeys
import AslanCore.Timeseries.PayloadHash
import AslanCore.Timeseries.PointInTime
import AslanCore.Timeseries.ReadBack
import AslanCore.Timeseries.Replay
import AslanCore.Timeseries.Sweep
