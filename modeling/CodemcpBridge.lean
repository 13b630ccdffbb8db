import CodemcpBridge.Properties.Progress
import CodemcpBridge.Properties.Workers
import CodemcpBridge.Properties.Locks
import CodemcpBridge.Properties.Words
import CodemcpBridge.Async.Play
import CodemcpBridge.Config.Tomllib
import CodemcpBridge.GeneratedCodemcp
import CodemcpBridge.Properties.ApprovalGuard
import CodemcpBridge.Properties.Approved
import CodemcpBridge.Properties.Bearer
import CodemcpBridge.Properties.Canonical
import CodemcpBridge.Properties.CommandOutput
import CodemcpBridge.Properties.CommitBranch
import CodemcpBridge.Properties.CrashStart
import CodemcpBridge.Properties.Denial
import CodemcpBridge.Properties.Exclusion
import CodemcpBridge.Properties.Expiry
import CodemcpBridge.Properties.FailedStart
import CodemcpBridge.Properties.FileCommit
import CodemcpBridge.Properties.GitOutcomes
import CodemcpBridge.Properties.HotReload
import CodemcpBridge.Properties.Identities
import CodemcpBridge.Properties.Inputs
import CodemcpBridge.Properties.LineBreaks
import CodemcpBridge.Properties.Listing
import CodemcpBridge.Properties.LostUpdate
import CodemcpBridge.Properties.NormalForms
import CodemcpBridge.Properties.OneTime
import CodemcpBridge.Properties.Orphans
import CodemcpBridge.Properties.Porcelain
import CodemcpBridge.Properties.Readiness
import CodemcpBridge.Properties.Records
import CodemcpBridge.Properties.Recovery
import CodemcpBridge.Properties.Replay
import CodemcpBridge.Properties.Resolution
import CodemcpBridge.Properties.Rollback
import CodemcpBridge.Properties.SearchResults
import CodemcpBridge.Properties.SessionFooter
import CodemcpBridge.Properties.Settled
import CodemcpBridge.Properties.Settlement
import CodemcpBridge.Properties.TomlText
import CodemcpBridge.Properties.WorkerLog
