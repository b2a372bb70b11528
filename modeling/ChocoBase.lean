import ChocoBase.Foundation.Contract
import ChocoBase.Storage.CrashSafety
import ChocoBase.Storage.Rollback
import ChocoBase.Storage.CommitFaults
import ChocoBase.Storage.WriteAhead
import ChocoBase.Storage.Store
import ChocoBase.BTree.Invariants
import ChocoBase.Engine.Trees
import ChocoBase.Concurrency.LockManager
import ChocoBase.Concurrency.LockFile
import ChocoBase.Catalog.Record
import ChocoBase.Engine.Requests
import ChocoBase.Plan.Expr
import ChocoBase.Catalog.Catalog
import ChocoBase.Plan.Panics
import ChocoBase.Plan.Planner
import ChocoBase.Engine.Mutate
import ChocoBase.Engine.Select
import ChocoBase.Engine.Execute
import ChocoBase.Engine.StoredRows
import ChocoBase.Engine.Describes
import ChocoBase.Engine.Runs
import ChocoBase.Auth.TokenFamilies
import ChocoBase.Auth.Jwt
import ChocoBase.Sql.WholeStatements
import ChocoBase.Server.PostgresWire
import ChocoBase.Server.BindParameters
import ChocoBase.Server.Realtime
import ChocoBase.Server.RestFilters
import ChocoBase.Server.RestTemplates
import ChocoBase.Server.WatchedConnections
import ChocoBase.Server.Presence
import ChocoBase.Server.Webhooks
import ChocoBase.Server.AuditLog
import ChocoBase.Engine.Expansion
import ChocoBase.Engine.PointInTime
import ChocoBase.Server.OAuthCallback
import ChocoBase.Plan.Patterns
import ChocoBase.Engine.Membership
import ChocoBase.Engine.Resolution
import ChocoBase.Plan.Sums
import ChocoBase.Plan.Having
import ChocoBase.Plan.Ordering
import ChocoBase.Engine.Grouped
import ChocoBase.Engine.TypedRows
import ChocoBase.Engine.Ordered
import ChocoBase.Storage.Checksum
import ChocoBase.Storage.RecordScan
import ChocoBase.Storage.ChangedRecords
import ChocoBase.Storage.TornHeader
import ChocoBase.Storage.JournalBlind
import ChocoBase.Storage.TornAppend
import ChocoBase.Sql.QuoteDoubling
import ChocoBase.Sql.SplitStatements
import ChocoBase.Backup.PointInTime
import ChocoBase.Catalog.ReadBack
import ChocoBase.Catalog.Evolution
import ChocoBase.Server.WebSocket
import ChocoBase.Server.LineFraming
import ChocoBase.Server.StartupMessage
import ChocoBase.Server.TextFrontEnds
import ChocoBase.Sql.Totality
import ChocoBase.Sql.PrintedExprs
import ChocoBase.Server.CopyText
import ChocoBase.Server.CopyCuts
import ChocoBase.Server.CopyLedger
import ChocoBase.Server.CopyRoundTrip
import ChocoBase.Http.Lifecycle
import ChocoBase.Http.Pagination
import ChocoBase.Http.RateLimit
import ChocoBase.Storage.BufferPool
import ChocoBase.Http.StorageRoutes
import ChocoBase.Http.SignedUrls
import ChocoBase.Http.ByteRanges
import ChocoBase.Server.RestBatch
import ChocoBase.Sql.RowTexts
import ChocoBase.Engine.TableRows
import ChocoBase.Server.RestRoundTrip
import ChocoBase.Engine.IndexKeys
import ChocoBase.Engine.Histories
import ChocoBase.Backup.Migrations
import ChocoBase.Engine.PageOwnership
