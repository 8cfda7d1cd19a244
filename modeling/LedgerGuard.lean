import LedgerGuard.Core.Engine
import LedgerGuard.Core.Passes
import LedgerGuard.Core.Rounds
import LedgerGuard.Core.Emissions
import LedgerGuard.Core.Fixtures
import LedgerGuard.Lib.Sha256
import LedgerGuard.Core.CleanEvidence
import LedgerGuard.Core.Boundary
import LedgerGuard.Core.Attribution
import LedgerGuard.Core.Views
import LedgerGuard.Core.Locality
import LedgerGuard.Findings.Service
import LedgerGuard.Lib.Transition
import LedgerGuard.Findings.Resolution
import LedgerGuard.Workers.Runtime
import LedgerGuard.Workers.Delivery
import LedgerGuard.Ingestion.Timestamp
import LedgerGuard.Ingestion.Convergence
import LedgerGuard.Ingestion.Batch
import LedgerGuard.Ingestion.History
import LedgerGuard.Lib.Spans
import LedgerGuard.Ingestion.CoverageRange
import LedgerGuard.Plugin.Extractor
import LedgerGuard.Core.Decoding
import LedgerGuard.Ingestion.PageHash
import LedgerGuard.Ingestion.Rejections
import LedgerGuard.Ingestion.ScanPages
import LedgerGuard.Plugin.Completeness
import LedgerGuard.Findings.EventLog
import LedgerGuard.Access.Idempotency
import LedgerGuard.Ingestion.WireSchema
import LedgerGuard.Ingestion.WooFacts
import LedgerGuard.Connectors.OrderPhase
import LedgerGuard.Plugin.WireLanguage
import LedgerGuard.Core.DateRange
import LedgerGuard.Findings.BuildSnapshot
import LedgerGuard.Findings.Completion
import LedgerGuard.Findings.Interleaving
import LedgerGuard.Core.SameOrders
import LedgerGuard.Core.Foreign
import LedgerGuard.Core.Attempts
import LedgerGuard.Core.ReturnedAttempts
import LedgerGuard.Access.TenantScope
import LedgerGuard.Connectors.SignedPlugin
import LedgerGuard.Connectors.Replay
import LedgerGuard.Connectors.Rotation
import LedgerGuard.Access.AtMostOnce
import LedgerGuard.Workers.Credentials
import LedgerGuard.Workers.Rotations
import LedgerGuard.Connectors.ScanPhases
import LedgerGuard.Connectors.ScanCoverage
import LedgerGuard.Access.Intake
import LedgerGuard.Access.Deletion
import LedgerGuard.Access.Members
import LedgerGuard.Core.RefundStage
import LedgerGuard.Core.FindingKeys
import LedgerGuard.Findings.Lifecycle
import LedgerGuard.Findings.LockVersions
import LedgerGuard.Ingestion.BatchCalls
import LedgerGuard.Connectors.Authorization
import LedgerGuard.Workers.Causes
import LedgerGuard.Workers.ScanQueue
import LedgerGuard.Ingestion.FullRepair
import LedgerGuard.Core.Permutation
import LedgerGuard.Connectors.Pairing
import LedgerGuard.Ingestion.JsonLoads
import LedgerGuard.Ingestion.ParseBody
import LedgerGuard.Connectors.VerifyStripe
import LedgerGuard.Core.MoneyText
import LedgerGuard.Plugin.RefundTotals
import LedgerGuard.Access.TenantModels
import LedgerGuard.Access.Retention
import LedgerGuard.Access.OpenCases
import LedgerGuard.Access.ProtectedRows
import LedgerGuard.Core.InputDigest
import LedgerGuard.Core.Reproducible
import LedgerGuard.Ingestion.TimestampText
import LedgerGuard.Lib.CsvText
import LedgerGuard.Lib.Markup
import LedgerGuard.Plugin.Agreement
import LedgerGuard.Reporting.Documents
import LedgerGuard.Reporting.Imports
import LedgerGuard.Findings.Notifications
import LedgerGuard.Workers.MailDigests
import LedgerGuard.Workers.MailWork
import LedgerGuard.Connectors.StripeFacts
import LedgerGuard.Connectors.StripeRows
import LedgerGuard.Connectors.StripeRuns
