import NeurDB.Nram.OccSim
import NeurDB.Nram.CommitLocks
import NeurDB.Nram.PolicyLoad
import NeurDB.Nram.WaitQueue
import NeurDB.Nram.ExecutorHooks
import NeurDB.Nram.ReadWriteSets
import NeurDB.Nram.Rescan
import NeurDB.Nram.DirtyRead
import NeurDB.Nram.ReadTracking
import NeurDB.Nram.Savepoint
import NeurDB.Nram.Lifecycle
import NeurDB.Nram.ValueCodec
import NeurDB.Nram.RowTuple
import NeurDB.Nram.RocksCall
import NeurDB.IndexManagement.Eviction
import NeurDB.IndexManagement.HashedText
import NeurDB.IndexManagement.QueryFilter
import NeurDB.NeurStore.CacheEviction
import NeurDB.NeurStore.Service
import NeurDB.NeurStore.TaskSizes
import NeurDB.NeurStore.MicroService
import NeurDB.NeurStore.BitUtilAvx
import NeurDB.NeurStore.QuantizedSpace
import NeurDB.NeurStore.QuantizeAvx
import NeurDB.NeurStore.TruncatedDelta
import NeurDB.NeurStore.GraphForm
import NeurDB.NeurStore.IndexCapacity
import NeurDB.NeurStore.IndexInsertion
import NeurDB.Pipeline.Predict
import NeurDB.Pipeline.TrainingData
import NeurDB.AiEngine.Sender
import NeurDB.WorkloadForecast.Advisor
import NeurDB.WorkloadForecast.WorkloadLog
import NeurDB.WorkloadForecast.TimeSeries
import NeurDB.Molqo.HttpRequest
import NeurDB.NeurQo.ReplayMemory
