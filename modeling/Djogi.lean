import Djogi.Lib.OrdMap
import Djogi.Lib.Anchored
import Djogi.Schema
import Djogi.Operation
import Djogi.Diff
import Djogi.EnumOrder
import Djogi.Coverage
import Djogi.BucketDiff
import Djogi.FlipMerge
import Djogi.JoinCoverage
import Djogi.Catalog
import Djogi.Lowering
import Djogi.PkFlip
import Djogi.Segment
import Djogi.GroupPlan
import Djogi.Lib.Evolution
import Djogi.Lib.StableSort
import Djogi.Order
import Djogi.Replay
import Djogi.Rollback
import Djogi.Lib.Kleene
import Djogi.Lib.SqlExpr
import Djogi.Portable
import Djogi.PortableSql
import Djogi.RollbackRun
import Djogi.ComposeFiles
import Djogi.Lib.Session
import Djogi.Runner
import Djogi.Apply
import Djogi.Resume
import Djogi.Undo
import Djogi.Compose
import Djogi.Converge
import Djogi.Descriptor
import Djogi.Projection
import Djogi.Accept
import Djogi.LinkOrder
import Djogi.Names
import Djogi.Lib.Folders
import Djogi.WritePhase
import Djogi.Atomic
import Djogi.Live.Plan
import Djogi.Live.State
import Djogi.Live.Backfill
import Djogi.Live.Executor
import Djogi.Live.Drive
import Djogi.Live.Commits
import Djogi.Live.Chunks
import Djogi.Live.Daemon
import Djogi.Live.Bucket
import Djogi.Lib.Placeholders
import Djogi.Lib.SqlLex
import Djogi.Query.Accumulator
import Djogi.Query.Select
import Djogi.Query.SetOp
import Djogi.Query.Refresh
import Djogi.Query.Closure
import Djogi.Live.Hooks
import Djogi.Live.Patterns
import Djogi.Live.PatternPlans
import Djogi.Live.PatternCatalog
import Djogi.Live.Refinement
import Djogi.Lib.SqlPredicate
import Djogi.Proxy.DefaultFilter
import Djogi.Proxy.FilterSql
import Djogi.Outbox.Handoff
import Djogi.Lib.Savepoints
import Djogi.Scope.Atomic
import Djogi.Scope.Truth
import Djogi.Scope.Tenant
import Djogi.CommittedSql
import Djogi.Lib.Select
import Djogi.Query.Related
import Djogi.Query.EagerLoad
import Djogi.DefaultDrift
import Djogi.FlipNames
import Djogi.ForeignKeys
import Djogi.Geo.Ewkb
import Djogi.Jsahibon
import Djogi.JsahibonSql
import Djogi.Lib.Calendar
import Djogi.Lib.ConnString
import Djogi.Lib.PostgresJoin
import Djogi.Lib.PostgresStatements
import Djogi.Lib.Quoted
import Djogi.Lib.SqlTypeText
import Djogi.Live.Classify
import Djogi.Live.Destructive
import Djogi.Live.TypeReadings
import Djogi.Live.TypeVerdicts
import Djogi.Localhost
import Djogi.MigrationScan
import Djogi.Notify.Emit
import Djogi.Quoting
import Djogi.RangeCodec
import Djogi.Squash
import Djogi.TopoSort
