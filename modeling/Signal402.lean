import Signal402.Base.Python
import Signal402.Base.Effect
import Signal402.Lib.MerkleTree
import Signal402.Lib.Sha256
import Signal402.Pq.Merkle
import Signal402.Pq.MerkleProofs
import Signal402.Pq.Tiles
import Signal402.Pq.LogStore
import Signal402.Pq.CachedLog
import Signal402.Lib.Concurrent
import Signal402.Lib.Sqlite
import Signal402.Base.Json
import Signal402.Base.Text
import Signal402.Route.Deadline
import Signal402.Route.PaidRoute
import Signal402.Route.Replay
import Signal402.Route.SettleOnce
import Signal402.Route.BillingTruth
import Signal402.Lib.Table
import Signal402.Lib.OneShot
import Signal402.Pq.AnchorStore
import Signal402.Pq.Canary
import Signal402.Pq.CanaryOnce
import Signal402.Pq.AutoAnchor
import Signal402.Pq.TickPrograms
import Signal402.Pq.AutoAnchorOnce
import Signal402.Pq.StoreCalls
import Signal402.Pq.Latch
import Signal402.Pq.JobLifecycle
import Signal402.Lib.Calendar
import Signal402.Lib.Tally
import Signal402.Pq.SpendBudget
import Signal402.Lib.History
import Signal402.Pq.Confirmed
import Signal402.Lib.TileTree
import Signal402.Pq.Publication
import Signal402.Pq.LogRuns
import Signal402.Pq.Issue
import Signal402.Pq.IssueOrder
import Signal402.Lib.Credit
import Signal402.Lib.Double
import Signal402.Pq.SignBound
import Signal402.Pq.AnchorSerial
import Signal402.Catalog.Sweep
import Signal402.History.PayTo
import Signal402.History.Sealed
import Signal402.Catalog.Failures
import Signal402.Route.PickWinner
import Signal402.Route.PaidLeast
import Signal402.Probe.SlotAccount
import Signal402.Catalog.WholeSweep
import Signal402.Route.SellerAccepts
import Signal402.Route.Unmet
import Signal402.Route.Timely
import Signal402.Route.MatchAccept
import Signal402.Route.Stability
import Signal402.Algo.MsgPackCanonical
import Signal402.Route.StoredOutcome
import Signal402.Route.LedgerStates
import Signal402.Pq.TileCodec
import Signal402.Algo.Address
import Signal402.Pq.TilePath
import Signal402.Pq.Http
import Signal402.Pq.AnchorFee
import Signal402.Pq.AnchorNote
import Signal402.Pq.SignedBytes
import Signal402.Pq.SignedTxn
import Signal402.Pq.SignerMac
import Signal402.Lib.Lines
import Signal402.Server.RateLimiter
import Signal402.Probe.HistoryBoost
import Signal402.Base.JsonParts
import Signal402.Pq.Jcs
import Signal402.Pq.CandidateSet
import Signal402.Pq.Checkpoint
import Signal402.Base.JsonDepth
import Signal402.Server.HttpBody
import Signal402.Catalog.Reingest
import Signal402.Lib.Scan
import Signal402.Catalog.RefreshQueue
import Signal402.Catalog.LocalSearch
import Signal402.Sdk.RouteGuard
import Signal402.Lib.Regex
import Signal402.Route.Constraints
import Signal402.Route.Policy
import Signal402.Route.Payable
import Signal402.Route.Explicit
import Signal402.Route.ConstraintErrors
import Signal402.Probe.Pin
import Signal402.Probe.Pinned
import Signal402.Pq.SignerLink
import Signal402.Route.RouteNeed
import Signal402.Route.Funnel
import Signal402.Route.PlainNeed
import Signal402.Base.JsonHooks
import Signal402.Pq.EvidenceV3
import Signal402.Pq.Honoured
import Signal402.Pq.IssueTruth
