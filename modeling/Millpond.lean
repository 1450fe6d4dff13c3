import Millpond.IncludeValues.Damping
import Millpond.Arrow.Concat
import Millpond.Main.NoLoss
import Millpond.Main.Duplicates
import Millpond.Main.SlowFlush
import Millpond.Main.RetryLoop
import Millpond.Hoglake.Orphans
import Millpond.Hoglake.Layout
import Millpond.Hoglake.FlushKey
import Millpond.IncludeValues.Replacement
import Millpond.IncludeValues.Served
import Millpond.Maintenance.ExpireSafety
import Millpond.Maintenance.DropStats
import Millpond.Ducklake.InsertAgreement
import Millpond.Ducklake.VariantSanitizer
import Millpond.Hoglake.ColumnLoss
import Millpond.Hoglake.ColumnNames
import Millpond.Config.PartitionByGrammar
import Millpond.Restart.AtLeastOnce
import Millpond.Restart.Hints
import Millpond.Hoglake.Grouping
import Millpond.Arrow.Filters
import Millpond.Arrow.UuidGrammar
import Millpond.Restart.Refusals
import Millpond.Hoglake.Evolution
import Millpond.Metrics.Liveness
import Millpond.Maintenance.InlineSafety
import Millpond.Maintenance.PlanAgreement
import Millpond.Maintenance.Classification
import Millpond.Hoglake.CommitMessage
import Millpond.Arrow.BoundedDecode
import Millpond.Arrow.UuidOrder
import Millpond.Lib.Lockstep
import Millpond.Maintenance.Campaign
import Millpond.Maintenance.GuardOverride
import Millpond.Maintenance.CompactBudget
import Millpond.Maintenance.TargetFileSize
import Millpond.Metrics.Lateness
import Millpond.Metrics.SingleFailure
import Millpond.Ducklake.ConnectionStrings
import Millpond.Maintenance.CompactionGroups
import Millpond.Maintenance.RepairAgreement
import Millpond.Maintenance.InlineCoverage
import Millpond.Ducklake.CompanionProjection
import Millpond.Maintenance.FsckSafety
import Millpond.Maintenance.FsckProgress
import Millpond.Maintenance.PurgeStats
import Millpond.Consumer.FleetSafety
import Millpond.Main.Accounting
import Millpond.Config.Accepted
import Millpond.Config.Isolation
import Millpond.Maintenance.RepairRun
import Millpond.Maintenance.DropWork
import Millpond.Maintenance.WorkAgreement
import Millpond.Maintenance.DropAge
