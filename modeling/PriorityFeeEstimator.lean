import PriorityFeeEstimator.Lib.Table
import PriorityFeeEstimator.Lib.KeyedFifo
import PriorityFeeEstimator.Lib.Highest
import PriorityFeeEstimator.Lib.FifoHistory
import PriorityFeeEstimator.Lib.OrderStatistics
import PriorityFeeEstimator.Lib.BaseConversion
import PriorityFeeEstimator.Lib.Sextets
import PriorityFeeEstimator.Lib.Checks
import PriorityFeeEstimator.Statrs
import PriorityFeeEstimator.Model
import PriorityFeeEstimator.SlotCache
import PriorityFeeEstimator.SlotLog
import PriorityFeeEstimator.Tracker
import PriorityFeeEstimator.Calculation
import PriorityFeeEstimator.Samples
import PriorityFeeEstimator.RelatedStores
import PriorityFeeEstimator.WindowEstimates
import PriorityFeeEstimator.Contributions
import PriorityFeeEstimator.Recency
import PriorityFeeEstimator.Estimates
import PriorityFeeEstimator.Agreement
import PriorityFeeEstimator.Versions
import PriorityFeeEstimator.StoreEquiv
import PriorityFeeEstimator.SlotOrder
import PriorityFeeEstimator.WireTexts
import PriorityFeeEstimator.Base58
import PriorityFeeEstimator.Details
import PriorityFeeEstimator.Ingest
import PriorityFeeEstimator.Pricing
import PriorityFeeEstimator.Rpc
import PriorityFeeEstimator.SizeGates
import PriorityFeeEstimator.VoteExclusion
import PriorityFeeEstimator.TransactionAccounts
import PriorityFeeEstimator.Concurrency.PushSteps
import PriorityFeeEstimator.Lib.Interleaving
import PriorityFeeEstimator.Lib.Linearization
import PriorityFeeEstimator.Concurrency.Readers
import PriorityFeeEstimator.Concurrency.Serving
import PriorityFeeEstimator.Concurrency.Pushes
import PriorityFeeEstimator.LevelOrder
import PriorityFeeEstimator.AccountLists
import PriorityFeeEstimator.Blocks
import PriorityFeeEstimator.Capacity
import PriorityFeeEstimator.WritableAccounts
import PriorityFeeEstimator.LookupTables
import PriorityFeeEstimator.Concurrency.Snapshots
import PriorityFeeEstimator.Concurrency.CacheCalls
import PriorityFeeEstimator.Geyser
import PriorityFeeEstimator.WindowServer
import PriorityFeeEstimator.Service
import PriorityFeeEstimator.Forgetting
import PriorityFeeEstimator.Gauges
import PriorityFeeEstimator.Metrics
import PriorityFeeEstimator.Concurrency.Freshness
import PriorityFeeEstimator.Concurrency.Progress
import PriorityFeeEstimator.Redelivery
import PriorityFeeEstimator.Responses
