import AmlogicV901d.Guarantees.IdmeStore
import AmlogicV901d.Guarantees.IdmeMigration
import AmlogicV901d.Guarantees.IdmeStorageFault
import AmlogicV901d.Guarantees.LimitedUnlock
import AmlogicV901d.Guarantees.SlotSelection
import AmlogicV901d.Guarantees.SlotFallback
import AmlogicV901d.Guarantees.EmmcLayout
import AmlogicV901d.Guarantees.PartitionConvergence
import AmlogicV901d.Guarantees.SparseStream
import AmlogicV901d.Guarantees.DownloadBuffer
import AmlogicV901d.Guarantees.SharedMemory
import AmlogicV901d.Guarantees.ScatterRequests
import AmlogicV901d.Guarantees.KeptFrames
import AmlogicV901d.Guarantees.DtbPowerCut
import AmlogicV901d.Guarantees.DtbDeviceWrites
import AmlogicV901d.Guarantees.SecureDecoders
import AmlogicV901d.Guarantees.BurnedKeys
import AmlogicV901d.Guarantees.DiQueues
import AmlogicV901d.Guarantees.RdmaViews
import AmlogicV901d.Guarantees.BtSessions
import AmlogicV901d.Guarantees.ConfigRefs
import AmlogicV901d.Guarantees.ConfigInheritance
import AmlogicV901d.Guarantees.ClockPaths
import AmlogicV901d.Guarantees.DescramblerChannels
import AmlogicV901d.Guarantees.CaptureBuffers
import AmlogicV901d.Guarantees.MiscFrame
import AmlogicV901d.Guarantees.BootRecordChain
import AmlogicV901d.Guarantees.ComposedTable
import AmlogicV901d.Guarantees.DemuxExtension
import AmlogicV901d.Guarantees.VideosyncFrames
import AmlogicV901d.Guarantees.IonvideoBuffers
import AmlogicV901d.Guarantees.TvConfigPackage
import AmlogicV901d.Guarantees.CryptoRequests
import AmlogicV901d.Guarantees.VmapStacks
import AmlogicV901d.Guarantees.HashSnapshot
import AmlogicV901d.Guarantees.AudioBlocks
import AmlogicV901d.Guarantees.BootCounter
import AmlogicV901d.Guarantees.FlagNames
import AmlogicV901d.Guarantees.AudioInterpolation
import AmlogicV901d.Guarantees.EarcCapabilities
import AmlogicV901d.Guarantees.KeyArea
import AmlogicV901d.Guarantees.InternalTransfers
import AmlogicV901d.Guarantees.PartitionDigest
import AmlogicV901d.Guarantees.Preemption
import AmlogicV901d.Guarantees.ValueOnPath
import AmlogicV901d.Guarantees.KeyDebounce
import AmlogicV901d.Guarantees.VoiceData
import AmlogicV901d.Guarantees.StackSlots
import AmlogicV901d.Guarantees.RecordingPids
import AmlogicV901d.Guarantees.SyncClock
import AmlogicV901d.Guarantees.AbBlock
