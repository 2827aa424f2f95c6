import CubeCore.FailedBatch
import CubeCore.MaskConservation
import CubeCore.GracefulStop
import CubeCore.FlushWakeup
import CubeCore.Tombstones
import CubeCore.FieldUpdates
import CubeCore.AcceptedSaves
import CubeCore.CastRollback
import CubeCore.CommitPanics
import CubeCore.GroupExclusion
import CubeCore.OneReply
import CubeCore.PendingTransitions
import CubeCore.RemoteWriteBatch
import CubeCore.EntityLifecycle
import CubeCore.IDGen
import CubeCore.DirtyMarks
import CubeCore.PackerPanics
import CubeCore.ReplicaConvergence
import CubeCore.DeltaChain
import CubeCore.ReplayContinuity
import CubeCore.JournalRecovery
import CubeCore.RecoverSnapshots
import CubeCore.AcceptedTasks
import CubeCore.MinimumVersion
import CubeCore.ReliableOutcome
import CubeCore.ReplicaDeliveries
import CubeCore.EntityIDs
import CubeCore.SessionIsolation
import CubeCore.FullRefresh
import CubeCore.BaselineRecovery
import CubeCore.BaselineAgreement
import CubeCore.BatchMeaning
import CubeCore.LoadOrder
import CubeCore.LevelOfDetail
import CubeCore.RemoteVersions
import CubeCore.ReadThrough
import CubeCore.RedisStores
import CubeCore.FailureLog
import CubeCore.Migration
import CubeCore.ConfigReload
import CubeCore.ComponentSort
import CubeCore.HotCode
