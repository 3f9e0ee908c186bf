import OpenGauss.BigInteger.Hash
import OpenGauss.BigInteger.Output
import OpenGauss.Bloom.BloomRuns
import OpenGauss.CStore.CUBuffer
import OpenGauss.CStore.LateRead
import OpenGauss.CStore.NumericCopy
import OpenGauss.CStore.RleBound
import OpenGauss.CStore.RoughCheckRows
import OpenGauss.CStore.ScaleCodes
import OpenGauss.CStore.SequenceBound
import OpenGauss.Cfs.PcaRuns
import OpenGauss.Cfs.RecycleRuns
import OpenGauss.ExtremeRto.BlockingQueue
import OpenGauss.Hll.HllRuns
import OpenGauss.Hll.SparseBuffer
import OpenGauss.IPRange.BinarySearch
import OpenGauss.IPRange.CidrBlocks
import OpenGauss.IPRange.RangeRuns
import OpenGauss.PageCompress.CmprHeader
import OpenGauss.PageWriter.CandidateRuns
import OpenGauss.PageWriter.FullCheckpointRuns
import OpenGauss.Partition.RangeRouting
import OpenGauss.ProcArray.GroupRuns
import OpenGauss.Replication.ReleaseContract
import OpenGauss.Replication.StandbyArray
import OpenGauss.Replication.SyncSoundness
import OpenGauss.Segment.BlockMapRuns
import OpenGauss.Segment.InversePtr
import OpenGauss.Segment.SpaceShrink
import OpenGauss.StandbyRead.BlockRecords
import OpenGauss.UBTree.QueueInvariant
import OpenGauss.UStore.CachedAttr
import OpenGauss.UStore.PartialTuple
import OpenGauss.UStore.RowChain
import OpenGauss.UStore.UndoReplay
import OpenGauss.Undo.MetaRuns
import OpenGauss.Undo.ReplayedZone
import OpenGauss.Undo.SlotBufferCache
import OpenGauss.Undo.SpaceTotal
import OpenGauss.Undo.UndoChain
import OpenGauss.Wal.GenericDelta
import OpenGauss.Wal.HeaderScratch
import OpenGauss.Wal.ReservationRuns
