import Tonggeret.Storage.Key
import Tonggeret.Lib.Trace
import Tonggeret.Lib.SortedMap
import Tonggeret.Types
import Tonggeret.Clock
import Tonggeret.Storage.Value
import Tonggeret.Storage.Writer
import Tonggeret.Config
import Tonggeret.Storage.Compaction
import Tonggeret.Storage.ExportRows
import Tonggeret.Storage.ScanInvariant
import Tonggeret.Storage.ScanSteps
import Tonggeret.Storage.PassOutcome
import Tonggeret.Storage.RenameThenPurge
import Tonggeret.Storage.MovedRows
import Tonggeret.Lib.Transition
import Tonggeret.Storage.ColdDirectory
import Tonggeret.Prometheus.LabelKeys
import Tonggeret.Engine.Pipeline
import Tonggeret.Engine.Accounting
import Tonggeret.Engine.JoinSafety
import Tonggeret.Engine.Lifecycle
import Tonggeret.Engine.SingleLoop
import Tonggeret.Engine.WriterScript
import Tonggeret.Storage.KeyFormat
import Tonggeret.Storage.ValueRoundTrip
import Tonggeret.Sanitize
import Tonggeret.Middleware
import Tonggeret.SanitizedLabels
import Tonggeret.Lib.OverflowMap
import Tonggeret.Visitors.Tracker
import Tonggeret.Visitors.Buckets
import Tonggeret.Visitors.Series
import Tonggeret.Prometheus.ConcurrentEnsure
import Tonggeret.Storage.Restarts
import Tonggeret.Engine.Init
import Tonggeret.Storage.UndecodableKeys
import Tonggeret.Lib.MaxRegisters
import Tonggeret.Visitors.Sketch
import Tonggeret.Visitors.SketchRank
import Tonggeret.SanitizedForm
import Tonggeret.Lib.Visits
import Tonggeret.Storage.ChunkBound
import Tonggeret.Calendar
import Tonggeret.StampOrder
import Tonggeret.Storage.LatestColdFile
import Tonggeret.Addresses
import Tonggeret.Visitors.Identity
import Tonggeret.Engine.ConfigLimits
import Tonggeret.Prometheus.MetricStore
import Tonggeret.Prometheus.SeriesLog
import Tonggeret.Prometheus.ConcurrentUpdate
import Tonggeret.Engine.Fifo
import Tonggeret.Engine.WriterExit
import Tonggeret.Engine.DualDispatch
import Tonggeret.Storage.Tiers
import Tonggeret.Engine.StoredOnce
import Tonggeret.Http.Series
import Tonggeret.Visitors.Concurrent
import Tonggeret.Visitors.TrackVisitors
import Tonggeret.Http.ParquetRoute
import Tonggeret.Http.ServedFiles
import Tonggeret.Engine.Startup
import Tonggeret.Prometheus.Progress
